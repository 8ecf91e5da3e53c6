namespace ReleaseCatalog

def isLeapYear (year : Int) : Bool := year % 4 == 0 && (year % 100 != 0 || year % 400 == 0)

def daysInMonth (year : Int) (month : Nat) : Nat :=
  match month with
  | 2 => if isLeapYear year then 29 else 28
  | 4 | 6 | 9 | 11 => 30
  | _ => 31

/-- Whether the numbers name a day of one of the years that can be told, for all of which the
Gregorian calendar is taken to hold. -/
def IsDate (year : Int) (month day : Nat) : Prop :=
  -262143 ≤ year ∧ year ≤ 262142 ∧ 1 ≤ month ∧ month ≤ 12 ∧ 1 ≤ day ∧ day ≤ daysInMonth year month

instance (year : Int) (month day : Nat) : Decidable (IsDate year month day) :=
  inferInstanceAs (Decidable (_ ∧ _))

structure Date where
  year : Int
  month : Nat
  day : Nat
  isDate : IsDate year month day
deriving DecidableEq, Repr

namespace Date

def ofParts? (year : Int) (month day : Nat) : Option Date :=
  if h : IsDate year month day then some ⟨year, month, day, h⟩ else none

def next? (d : Date) : Option Date :=
  ofParts? d.year d.month (d.day + 1) <|> ofParts? d.year (d.month + 1) 1 <|>
    ofParts? (d.year + 1) 1 1

def previous? (d : Date) : Option Date :=
  ofParts? d.year d.month (d.day - 1) <|>
    ofParts? d.year (d.month - 1) (daysInMonth d.year (d.month - 1)) <|>
    ofParts? (d.year - 1) 12 31

end Date

/-- Whether the numbers name a time of day. A leap second is the last second of its minute with a
nanosecond count past a full second. -/
def IsTimeOfDay (second nano : Nat) : Prop :=
  second < 86400 ∧ (nano < 1000000000 ∨ (nano < 2000000000 ∧ second % 60 = 59))

instance (second nano : Nat) : Decidable (IsTimeOfDay second nano) :=
  inferInstanceAs (Decidable (_ ∧ _))

/-- An instant of universal time. -/
structure Instant where
  date : Date
  /-- The seconds since the day began, leap seconds not counted. -/
  second : Nat
  nano : Nat
  isTimeOfDay : IsTimeOfDay second nano
deriving DecidableEq, Repr

namespace Instant

def ofParts? (date : Date) (second nano : Nat) : Option Instant :=
  if h : IsTimeOfDay second nano then some ⟨date, second, nano, h⟩ else none

def order : Instant → Instant → Ordering :=
  compareLex (compareOn (·.date.year)) <|
  compareLex (compareOn (·.date.month)) <|
  compareLex (compareOn (·.date.day)) <|
  compareLex (compareOn (·.second)) (compareOn (·.nano))

instance : Ord Instant := ⟨order⟩

instance : Std.TransOrd Instant := by
  unfold Std.TransOrd
  show Std.TransCmp order
  unfold order
  infer_instance

def isBefore (a b : Instant) : Bool := compare a b == .lt

/-- The instant at which a clock that runs `offset` seconds ahead of universal time shows the given
date and time. -/
def ofLocal? (date : Date) (second nano : Nat) (offset : Int) : Option Instant :=
  let s : Int := second - offset
  if s < 0 then do ofParts? (← date.previous?) (s + 86400).toNat nano
  else if s < 86400 then ofParts? date s.toNat nano
  else do ofParts? (← date.next?) (s - 86400).toNat nano

end Instant

end ReleaseCatalog
