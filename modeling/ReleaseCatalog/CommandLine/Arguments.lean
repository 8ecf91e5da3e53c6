import ReleaseCatalog.Catalog.Query
import ReleaseCatalog.CommandLine.Level
import ReleaseCatalog.Time.Stamp

namespace ReleaseCatalog.CommandLine

/-- The files that any command may be told to use. -/
structure Places where
  settings : Option String := none
  archive : Option String := none
deriving DecidableEq, Repr

structure Query where
  kind : Option ReleaseKind := none
  featureVersion : Option UInt32 := none
  name : Option String := none
  vendor : Option Vendor := none
  lts : Option Bool := none
  /-- The specification of a range, not read yet. -/
  range : Option String := none
  binary : BinaryCriteria := {}
  direction : Direction := .descending
  method : SortMethod := .byVersion
  page : UInt64 := 0
  pageSize : UInt64 := 10

inductive Command where
  /-- Load a feed into the archive. -/
  | load (file : String) (prune : Bool)
  | query (q : Query)
  | available
  | latest (featureVersion : UInt32) (binary : BinaryCriteria)
  | watch

structure Invocation where
  places : Places
  command : Command

/-- The digits of a number without sign, if that is what they are. -/
def natural? (s : List Char) : Option Nat :=
  if !s.isEmpty && s.all Char.isDigit then some (Nat.ofDigitChars 10 s 0) else none

/-- A number of at most 32 bits. It may have a sign, so long as it is not negative. -/
def word32? (s : String) : Option UInt32 := do
  let n ← match s.toList with
    | '+' :: w => natural? w
    | '-' :: w => do if (← natural? w) = 0 then some 0 else none
    | w => natural? w
  if n < UInt32.size then some (UInt32.ofNat n) else none

/-- A number of at most 64 bits. It may have a plus sign. -/
def word64? (s : String) : Option UInt64 := do
  let n ← match s.toList with
    | '+' :: w => natural? w
    | w => natural? w
  if n < UInt64.size then some (UInt64.ofNat n) else none

def truth? : String → Option Bool
  | "true" => some true
  | "false" => some false
  | _ => none

/-- The name of a file, which may not be empty. -/
def file? (s : String) : Option String := if s.isEmpty then none else some s

/-- An option whose value is read before it is put in its place. -/
def reading {α β : Type} (read : String → Option β) (put : β → α → α) : String → α → Option α :=
  fun s a => (read s).map (put · a)

/-- What a command gathers besides the files to use. -/
abbrev Gathered (α : Type) : Type := Places × α

def placeOptions {α : Type} : List (String × (String → Gathered α → Option (Gathered α))) :=
  [("config", reading file? fun s a => ({ a.1 with settings := some s }, a.2)),
    ("database", reading file? fun s a => ({ a.1 with archive := some s }, a.2))]

def binaryOptions {α : Type} (update : (BinaryCriteria → BinaryCriteria) → α → α) :
    List (String × (String → α → Option α)) :=
  open Vocabulary in
  [("os", reading ofWord? fun x => update ({ · with os := some x })),
    ("architecture", reading ofWord? fun x => update ({ · with architecture := some x })),
    ("image-type", reading ofWord? fun x => update ({ · with imageType := some x })),
    ("jvm-impl", reading ofWord? fun x => update ({ · with jvmVariant := some x })),
    ("heap-size", reading ofWord? fun x => update ({ · with heapSize := some x })),
    ("project", reading ofWord? fun x => update ({ · with project := some x })),
    ("before", reading Instant.parse? fun x => update ({ · with updatedBefore := some x }))]

def loadLevel : Level (Gathered (Option String × Bool)) where
  options := placeOptions
  flags := [("prune", fun (places, file, _) => (places, file, true))]
  operands := [reading file? fun s (places, _, prune) => (places, some s, prune)]

/-- The options of `query` that are not about binaries. -/
def releaseOptions : List (String × (String → Query → Option Query)) :=
  open Vocabulary in
  [("release-type", reading ofWord? fun x q => { q with kind := some x }),
    ("feature-version", reading word32? fun x q => { q with featureVersion := some x }),
    ("release-name", reading some fun x q => { q with name := some x }),
    ("vendor", reading ofWord? fun x q => { q with vendor := some x }),
    ("lts", reading truth? fun x q => { q with lts := some x }),
    ("version", reading some fun x q => { q with range := some x }),
    ("sort-order", reading ofWord? fun x q => { q with direction := x }),
    ("sort-method", reading ofWord? fun x q => { q with method := x }),
    ("page", reading word64? fun x q => { q with page := x }),
    ("page-size", reading word64? fun x q => { q with pageSize := x })]

def queryLevel : Level (Gathered Query) where
  options := placeOptions ++
    (releaseOptions ++ binaryOptions fun f (q : Query) => { q with binary := f q.binary }).map
      fun (name, put) => (name, fun s (places, q) => (put s q).map (places, ·))
  flags := []
  operands := []

def bareLevel : Level (Gathered Unit) := ⟨placeOptions, [], []⟩

def latestLevel : Level (Gathered (UInt32 × BinaryCriteria)) where
  options := placeOptions ++ binaryOptions fun f (places, v, b) => (places, v, f b)
  flags := []
  operands := [reading word32? fun x (places, _, b) => (places, x, b)]

def commandNames : List String := ["import", "query", "available", "latest", "watch"]

/-- What the program is asked to do. -/
inductive Request where
  | run (i : Invocation)
  /-- Explain a command, or the program as a whole. -/
  | help (command : Option String)
  | version
  | invalid

/-- The request that the arguments of a command make. -/
def ofTaken {α : Type} (name : String) (outer : Places) (command : α → Option Command) :
    Taken (Gathered α) → Request
  | .done (places, a) =>
    match command a with
    | some c =>
      .run ⟨⟨places.settings <|> outer.settings, places.archive <|> outer.archive⟩, c⟩
    | none => .invalid
  | .help => .help (some name)
  | .version | .invalid => .invalid

/-- The request of a command with its arguments, where `outer` are the files named in front of the
command. -/
def commandRequest (outer : Places) (name : String) (args : List String) : Request :=
  match name with
  | "import" =>
    ofTaken name outer (fun (file, prune) => file.map (.load · prune)) <|
      loadLevel.take loadLevel.operands [] ({}, none, false) args
  | "query" => ofTaken name outer (some ∘ .query) <| queryLevel.take [] [] ({}, {}) args
  | "available" =>
    ofTaken name outer (fun _ => some .available) <| bareLevel.take [] [] ({}, ()) args
  | "latest" =>
    ofTaken name outer (fun (v, b) => some (.latest v b)) <|
      latestLevel.take latestLevel.operands [] ({}, 0, {}) args
  | "watch" => ofTaken name outer (fun _ => some .watch) <| bareLevel.take [] [] ({}, ()) args
  | _ => .invalid

/-- What `help` is asked to explain. -/
def helpRequest : List String → Request
  | [] => .help none
  | [name] => if commandNames.contains name || name == "help" then .help (some name) else .invalid
  | _ => .invalid

/-- The request of a whole argument list; `places` are the files named so far. -/
def requestFrom (places : Places) : List String → Request
  | [] => .invalid
  | arg :: args =>
    match shapeOf arg with
    | .divider => .invalid
    | .short 'h' => .help none
    | .short 'V' => .version
    | .short _ => .invalid
    | .plain => if arg == "help" then helpRequest args else commandRequest places arg args
    | .long "help" none => .help none
    | .long "version" none => .version
    | .long name (some value) => place name value args
    | .long name none =>
      match args with
      | value :: args => if shapeOf value = .plain then place name value args else .invalid
      | [] => .invalid
where
  /-- Goes on after an option and its value. -/
  place (name value : String) (args : List String) : Request :=
    match name, places.settings, places.archive, file? value with
    | "config", none, _, some file => requestFrom { places with settings := some file } args
    | "database", _, none, some file => requestFrom { places with archive := some file } args
    | _, _, _, _ => .invalid

def request (args : List String) : Request := requestFrom {} args

end ReleaseCatalog.CommandLine
