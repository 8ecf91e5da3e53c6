import ReleaseCatalog.Json.Basic
import ReleaseCatalog.Text.Character

namespace ReleaseCatalog.Json

open Text (isAsciiDigit hexValue?)

/-- The blanks that may stand between the parts of a document. -/
def isGap (c : Char) : Bool := c == ' ' || c == '\t' || c == '\n' || c == '\r'

def skipGap (s : List Char) : List Char := s.dropWhile isGap

/-- The digits at the front of a text, of which there must be one. -/
def readDigits (s : List Char) : Option (List Char × List Char) :=
  match s.takeWhile isAsciiDigit with
  | [] => none
  | w => some (w, s.dropWhile isAsciiDigit)

/-- The digits in front of the point: a zero, or digits that do not start with one. -/
def readWhole : List Char → Option (List Char × List Char)
  | '0' :: s => some (['0'], s)
  | s => readDigits s

/-- A point and digits, or nothing. -/
def readFraction : List Char → Option (List Char × List Char)
  | '.' :: s => readDigits s
  | s => some ([], s)

def readExponent : List Char → Option (Option (Bool × List Char) × List Char)
  | c :: s =>
    if c == 'e' || c == 'E' then
      match s with
      | '+' :: t => (readDigits t).map fun (w, u) => (some (false, w), u)
      | '-' :: t => (readDigits t).map fun (w, u) => (some (true, w), u)
      | t => (readDigits t).map fun (w, u) => (some (false, w), u)
    else some (none, c :: s)
  | [] => some (none, [])

/-- A number without its sign. -/
def readUnsigned (negative : Bool) (s : List Char) : Option (Numeral × List Char) := do
  let (whole, s) ← readWhole s
  let (fraction, s) ← readFraction s
  let (exponent, s) ← readExponent s
  return ({ negative, whole, fraction, exponent }, s)

def readNumber : List Char → Option (Numeral × List Char)
  | '-' :: s => readUnsigned true s
  | s => readUnsigned false s

/-- The number that four hexadecimal digits write. -/
def hex4? (a b c d : Char) : Option Nat := do
  return ((← hexValue? a) * 16 + (← hexValue? b)) * 256 + (← hexValue? c) * 16 + (← hexValue? d)

/-- What a character after a backslash stands for. -/
def escaped? : Char → Option Char
  | '"' => some '"'
  | '\\' => some '\\'
  | '/' => some '/'
  | 'b' => some '\x08'
  | 'f' => some '\x0c'
  | 'n' => some '\n'
  | 'r' => some '\r'
  | 't' => some '\t'
  | _ => none

def isHighSurrogate (n : Nat) : Bool := 0xd800 ≤ n && n ≤ 0xdbff

def isLowSurrogate (n : Nat) : Bool := 0xdc00 ≤ n && n ≤ 0xdfff

/-- The characters up to the quote that ends a string, and the text after it. Half a character
makes the string no text, but does not end it. -/
def readChars : List Char → Option (Option (List Char) × List Char)
  | [] => none
  | '"' :: s => some (some [], s)
  | '\\' :: 'u' :: a :: b :: c :: d :: s => do
    let n ← hex4? a b c d
    if isHighSurrogate n then
      match s with
      | '\\' :: 'u' :: e :: f :: g :: h :: t =>
        match hex4? e f g h with
        | some m =>
          if isLowSurrogate m then
            let (w, rest) ← readChars t
            return (w.map (Char.ofNat (0x10000 + (n - 0xd800) * 0x400 + (m - 0xdc00)) :: ·), rest)
          else
            let (_, rest) ← readChars ('\\' :: 'u' :: e :: f :: g :: h :: t)
            return (none, rest)
        | none => none
      | s =>
        let (_, rest) ← readChars s
        return (none, rest)
    else
      let (w, rest) ← readChars s
      return (if isLowSurrogate n then none else w.map (Char.ofNat n :: ·), rest)
  | '\\' :: c :: s => do
    let c ← escaped? c
    let (w, rest) ← readChars s
    return (w.map (c :: ·), rest)
  | c :: s =>
    if c.toNat < 0x20 || c == '\\' then none
    else do
      let (w, rest) ← readChars s
      return (w.map (c :: ·), rest)

/-- A string after its opening quote. -/
def readString (s : List Char) : Option (Option String × List Char) :=
  (readChars s).map fun (w, rest) => (w.map String.ofList, rest)

/-- The text after a given word, if the text starts with it. -/
def afterWord? : List Char → List Char → Option (List Char)
  | [], s => some s
  | c :: w, d :: s => if c = d then afterWord? w s else none
  | _ :: _, [] => none

mutual

/-- A value at the front of a text without a gap before it. `fuel` bounds the number of steps;
the length of the text is enough. -/
def readValue (fuel : Nat) (s : List Char) : Option (Json × List Char) :=
  match fuel with
  | 0 => none
  | fuel + 1 =>
    match s with
    | [] => none
    | '"' :: s => (readString s).map fun (w, rest) => (.string w, rest)
    | '[' :: s =>
      match skipGap s with
      | ']' :: rest => some (.array [], rest)
      | s => (readElements fuel s).map fun (xs, rest) => (.array xs, rest)
    | '\x7b' :: s =>
      match skipGap s with
      | '\x7d' :: rest => some (.object [], rest)
      | s => (readMembers fuel s).map fun (ms, rest) => (.object ms, rest)
    | 'n' :: s => (afterWord? "ull".toList s).map fun rest => (.null, rest)
    | 't' :: s => (afterWord? "rue".toList s).map fun rest => (.bool true, rest)
    | 'f' :: s => (afterWord? "alse".toList s).map fun rest => (.bool false, rest)
    | s => (readNumber s).map fun (n, rest) => (.number n, rest)

/-- The elements of an array, from one on to the end of the array. -/
def readElements (fuel : Nat) (s : List Char) : Option (List Json × List Char) :=
  match fuel with
  | 0 => none
  | fuel + 1 => do
    let (x, s) ← readValue fuel s
    match skipGap s with
    | ',' :: s =>
      let (xs, rest) ← readElements fuel (skipGap s)
      return (x :: xs, rest)
    | ']' :: rest => return ([x], rest)
    | _ => none

/-- The members of an object, from one on to the end of the object. -/
def readMembers (fuel : Nat) (s : List Char) :
    Option (List (Option String × Json) × List Char) :=
  match fuel with
  | 0 => none
  | fuel + 1 =>
    match s with
    | '"' :: s => do
      let (name, s) ← readString s
      match skipGap s with
      | ':' :: s =>
        let (x, s) ← readValue fuel (skipGap s)
        match skipGap s with
        | ',' :: s =>
          let (ms, rest) ← readMembers fuel (skipGap s)
          return ((name, x) :: ms, rest)
        | '\x7d' :: rest => return ([(name, x)], rest)
        | _ => none
      | _ => none
    | _ => none

end

/-- The document that a text is, gaps at its ends apart. Whether strings are texts, numbers are in
range and names are unique is left to those who ask for a meaning. -/
def parse? (s : String) : Option Json := do
  let cs := s.toList
  let (x, rest) ← readValue (cs.length + 1) (skipGap cs)
  if (skipGap rest).isEmpty then some x else none

/-- How deep the values of a document may lie that is kept as a whole. -/
def depthLimit : Nat := 127

/-- Reads a document to be kept as a whole: its texts, numbers and depth must be in order, and of
members with one name the last counts. -/
def parseWhole? (s : String) : Option Json := do
  let x ← parse? s
  if x.isSound && x.depth ≤ depthLimit then some x.lastWins else none

end ReleaseCatalog.Json
