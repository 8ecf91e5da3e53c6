import ReleaseCatalog.Text.Character

namespace ReleaseCatalog

/-- A number as it is written. -/
structure Numeral where
  negative : Bool := false
  /-- The digits in front of the point. -/
  whole : List Char
  /-- The digits after the point; without a point there are none. -/
  fraction : List Char := []
  /-- Whether the exponent is negative, and its digits. -/
  exponent : Option (Bool × List Char) := none
deriving DecidableEq, Repr

/-- A document as a tree. It keeps what is written before anyone asks for its meaning: the digits of
numbers, and every member of an object in order. -/
inductive Json where
  | null
  | bool (b : Bool)
  | number (n : Numeral)
  /-- A string, or `none` for one that is no text: an escape in it stands for half a character. -/
  | string (s : Option String)
  | array (elements : List Json)
  | object (members : List (Option String × Json))
deriving Repr

namespace Numeral

def ofNat (n : Nat) : Numeral := { whole := Nat.toDigits 10 n }

/-- The natural number that is written without sign, point and exponent. -/
def toNat? (n : Numeral) : Option Nat :=
  if !n.negative && n.fraction.isEmpty && n.exponent.isNone then
    some (Nat.ofDigitChars 10 n.whole 0)
  else none

/-- Appends digits to a number so long as it stays below `2 ^ 64`. The digits from the first that
does not fit are left over. -/
def gather (n : Nat) : List Char → Nat × List Char
  | [] => (n, [])
  | c :: cs =>
    let m := 10 * n + (c.toNat - '0'.toNat)
    if m < UInt64.size then gather m cs else (n, c :: cs)

/-- The digits that count, as one number, and the power of ten that it is multiplied by. A digit
that is left over in front of the point still counts as a place, one after it does not. -/
def significand (n : Numeral) : Nat × Int :=
  let (m, extra) := gather 0 n.whole
  let (m, unused) := gather m n.fraction
  let shift : Int := n.exponent.elim 0 fun (negative, digits) =>
    let e : Int := Nat.ofDigitChars 10 digits 0
    if negative then -e else e
  (m, extra.length - (n.fraction.length - unused.length : Nat) + shift)

/-- The nearest number with at most 53 binary digits; of two as near, the one whose last digit is
even. -/
def nearest (n : Nat) : Nat :=
  let k := n.log2 - 52
  let q := n >>> k
  let rest := 2 * (n - q <<< k)
  let half := 1 <<< k
  (if half < rest || half == rest && q % 2 == 1 then q + 1 else q) <<< k

/-- The least number too great for a binary floating-point number of 64 bits: half a step above the
greatest of them. -/
def hugeBound : Nat := ((1 <<< 54) - 1) <<< 970

/-- Whether the number is too great for a binary floating-point number of 64 bits. The digits that
count and their power of ten are each brought to the nearest such number before they are
multiplied. A number whose power of ten is not positive is never too great. -/
def isHuge (n : Numeral) : Bool :=
  let (m, e) := n.significand
  m != 0 && 0 < e && (308 < e || hugeBound ≤ nearest m * nearest (Nat.pow 10 e.toNat))

end Numeral

namespace Json

def nat (n : Nat) : Json := .number (.ofNat n)

def text (s : String) : Json := .string (some s)

/-- An object with the given names. -/
def record (members : List (String × Json)) : Json :=
  .object (members.map fun (name, value) => (some name, value))

mutual

/-- How many arrays and objects lie around the innermost value. -/
def depth : Json → Nat
  | array xs => depthOfAll xs + 1
  | object ms => depthOfMembers ms + 1
  | null | bool _ | number _ | string _ => 0

def depthOfAll : List Json → Nat
  | [] => 0
  | x :: xs => max x.depth (depthOfAll xs)

def depthOfMembers : List (Option String × Json) → Nat
  | [] => 0
  | (_, x) :: ms => max x.depth (depthOfMembers ms)

end

mutual

/-- Whether every string is a text, and every number within range. -/
def isSound : Json → Bool
  | null | bool _ => true
  | number n => !n.isHuge
  | string s => s.isSome
  | array xs => allSound xs
  | object ms => allMembersSound ms

def allSound : List Json → Bool
  | [] => true
  | x :: xs => x.isSound && allSound xs

def allMembersSound : List (Option String × Json) → Bool
  | [] => true
  | (name, x) :: ms => name.isSome && x.isSound && allMembersSound ms

end

mutual

/-- The tree in which each name of an object has only the last of its values. -/
def lastWins : Json → Json
  | array xs => array (lastWinsAll xs)
  | object ms => object (lastWinsMembers ms)
  | x => x

def lastWinsAll : List Json → List Json
  | [] => []
  | x :: xs => x.lastWins :: lastWinsAll xs

def lastWinsMembers : List (Option String × Json) → List (Option String × Json)
  | [] => []
  | (name, x) :: ms =>
    let rest := lastWinsMembers ms
    if rest.any (·.1 == name) then rest else (name, x.lastWins) :: rest

end

/-- The value of a member of an object, the first of the name. -/
def member? (name : String) : Json → Option Json
  | object ms => ms.lookup (some name)
  | _ => none

end Json

end ReleaseCatalog
