import ReleaseCatalog.Json.Basic

namespace ReleaseCatalog.Json

/-- The values of the named fields, each `none` if the record leaves it out. A record is an array of
its fields in their order, or an object, which may have members of other names, but none of its
fields twice. -/
def fields? (names : List String) : Json → Option (List (Option Json))
  | object ms =>
    if ms.all (·.1.isSome) && names.all (fun name => ms.countP (·.1 == some name) ≤ 1) then
      some (names.map fun name => ms.lookup (some name))
    else none
  | array xs =>
    if xs.length ≤ names.length then
      some (xs.map some ++ List.replicate (names.length - xs.length) none)
    else none
  | _ => none

/-- A field that must be there. -/
def required {α : Type} (read : Json → Option α) (field : Option Json) : Option α :=
  field.bind read

/-- A field that may be left out or null. -/
def optional {α : Type} (read : Json → Option α) : Option Json → Option (Option α)
  | none | some .null => some none
  | some x => (read x).map some

/-- A field that stands for `value` where it is left out. -/
def defaulted {α : Type} (value : α) (read : Json → Option α) : Option Json → Option α
  | none => some value
  | some x => read x

/-- The text of a string. -/
def text? : Json → Option String
  | string s => s
  | _ => none

/-- The truth value of a boolean. -/
def truth? : Json → Option Bool
  | bool b => some b
  | _ => none

/-- A natural number of at most 32 bits. -/
def word32? : Json → Option UInt32
  | number n => do
    let k ← n.toNat?
    if k < UInt32.size then some (UInt32.ofNat k) else none
  | _ => none

/-- A natural number of at most 64 bits. -/
def word64? : Json → Option UInt64
  | number n => do
    let k ← n.toNat?
    if k < UInt64.size then some (UInt64.ofNat k) else none
  | _ => none

/-- The elements of an array, all of which `read` takes. -/
def list? {α : Type} (read : Json → Option α) : Json → Option (List α)
  | array xs => xs.mapM read
  | _ => none

/-- The member of a record under construction for a value that may be missing. -/
def ifPresent {α : Type} (name : String) (write : α → Json) (value : Option α) :
    List (String × Json) :=
  (value.map fun a => (name, write a)).toList

end ReleaseCatalog.Json
