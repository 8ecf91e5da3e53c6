import ReleaseCatalog.Text.Character
import ReleaseCatalog.Time.Instant

namespace ReleaseCatalog.Instant

open Text (isAsciiDigit trimStart isBlank)

/-- The digits of a number, with zeros in front up to a width. -/
def padded (width n : Nat) : List Char :=
  let digits := Nat.toDigits 10 n
  List.replicate (width - digits.length) '0' ++ digits

/-- A year of four digits, or a year with its sign. -/
def yearText (year : Int) : List Char :=
  if 0 ≤ year && year ≤ 9999 then padded 4 year.toNat
  else (if year < 0 then '-' else '+') :: padded 4 year.natAbs

/-- The shortest of no, three, six and nine digits that tell the nanoseconds exactly. -/
def fractionText (nano : Nat) : List Char :=
  if nano = 0 then []
  else if nano % 1000000 = 0 then '.' :: padded 3 (nano / 1000000)
  else if nano % 1000 = 0 then '.' :: padded 6 (nano / 1000)
  else '.' :: padded 9 nano

/-- The characters of an instant: date and time with a `T` between them, and a `Z` for the zone. -/
def toChars (t : Instant) : List Char :=
  let leap := t.nano / 1000000000
  yearText t.date.year ++ '-' :: padded 2 t.date.month ++ '-' :: padded 2 t.date.day ++
    'T' :: padded 2 (t.second / 3600) ++ ':' :: padded 2 (t.second / 60 % 60) ++
    ':' :: padded 2 (t.second % 60 + leap) ++ fractionText (t.nano % 1000000000) ++ ['Z']

def print (t : Instant) : String := String.ofList t.toChars

/-- Between one and `width` digits at the front of a text, as a number. -/
def readNumber (width : Nat) (s : List Char) : Option (Nat × List Char) :=
  let digits := (s.take width).takeWhile isAsciiDigit
  if digits.isEmpty then none else some (Nat.ofDigitChars 10 digits 0, s.drop digits.length)

/-- A year: after a sign it may have any number of digits, without one at most four. -/
def readYear (s : List Char) : Option (Int × List Char) :=
  match s with
  | '-' :: t => (readNumber t.length t).map fun (n, u) => (-(n : Int), u)
  | '+' :: t => (readNumber t.length t).map fun (n, u) => ((n : Int), u)
  | s => (readNumber 4 s).map fun (n, u) => ((n : Int), u)

/-- The text after a mark, which blanks may precede. -/
def afterMark (mark : Char) (s : List Char) : Option (List Char) :=
  match trimStart s with
  | c :: t => if c = mark then some t else none
  | [] => none

/-- The nanoseconds that a point and digits tell; digits after the ninth tell nothing. -/
def readFraction : List Char → Option (Nat × List Char)
  | '.' :: s =>
    let digits := (s.take 9).takeWhile isAsciiDigit
    if digits.isEmpty then none
    else
      some (Nat.ofDigitChars 10 (digits ++ List.replicate (9 - digits.length) '0') 0,
        (s.drop digits.length).dropWhile isAsciiDigit)
  | s => some (0, s)

def twoDigits? (a b : Char) : Option Nat :=
  if isAsciiDigit a && isAsciiDigit b then some (Nat.ofDigitChars 10 [a, b] 0) else none

/-- The hours and minutes by which a zone is ahead of universal time, in seconds. Colons and blanks
may stand between them. -/
def readOffset (s : List Char) : Option (Nat × List Char) :=
  match s with
  | a :: b :: s => do
    let hours ← twoDigits? a b
    match s.dropWhile fun c => c == ':' || isBlank c with
    | c :: d :: t => do
      let minutes ← twoDigits? c d
      if minutes < 60 && hours < 24 then some (hours * 3600 + minutes * 60, t) else none
    | _ => none
  | _ => none

/-- A zone: `Z` or `UTC` in any case, or an offset with its sign. -/
def readZone : List Char → Option (Int × List Char)
  | u :: t :: c :: s =>
    if [u, t, c].map Char.toUpper = ['U', 'T', 'C'] then some (0, s) else short (u :: t :: c :: s)
  | s => short s
where
  short : List Char → Option (Int × List Char)
    | 'Z' :: s | 'z' :: s => some (0, s)
    | '+' :: s => (readOffset s).map fun (n, t) => ((n : Int), t)
    | '-' :: s | '\u2212' :: s => (readOffset s).map fun (n, t) => (-(n : Int), t)
    | _ => none

/-- A date: a year, a month and a day with dashes between them. -/
def readDate (s : List Char) : Option (Date × List Char) := do
  let (year, s) ← readYear (trimStart s)
  let s ← afterMark '-' s
  let (month, s) ← readNumber 2 (trimStart s)
  let s ← afterMark '-' s
  let (day, s) ← readNumber 2 (trimStart s)
  return (← Date.ofParts? year month day, s)

/-- The text after what parts a date from a time: a `T` or a blank. -/
def afterDate : List Char → Option (List Char)
  | 'T' :: s | 't' :: s | ' ' :: s => some s
  | _ => none

/-- Hours, minutes and seconds with colons between them. -/
def readClock (s : List Char) : Option (Nat × Nat × Nat × List Char) := do
  let (hour, s) ← readNumber 2 (trimStart s)
  let s ← afterMark ':' s
  let (minute, s) ← readNumber 2 (trimStart s)
  let s ← afterMark ':' s
  let (second, s) ← readNumber 2 (trimStart s)
  return (hour, minute, second, s)

/-- Reads an instant in any zone, with blanks around most parts. -/
def ofChars? (s : List Char) : Option Instant := do
  let (date, s) ← readDate s
  let (hour, minute, second, s) ← readClock (← afterDate s)
  let (nano, s) ← readFraction s
  let (offset, s) ← readZone (trimStart s)
  if !(trimStart s).isEmpty || 24 ≤ hour || 60 ≤ minute || 61 ≤ second then none
  else
    let leap := second / 60
    ofLocal? date (hour * 3600 + minute * 60 + (second - leap)) (nano + leap * 1000000000) offset

def parse? (s : String) : Option Instant := ofChars? s.toList

end ReleaseCatalog.Instant
