namespace ReleaseCatalog.CommandLine

/-- A place on the disk: the names of the folders on the way and of the place itself. A place that
is told from the root starts with the name `/`, any other lies below the working folder. -/
abbrev Place : Type := List String

namespace Place

/-- Goes on from a place by one name of a path. -/
def step (p : Place) (name : String) : Place :=
  if name == "" || name == "." then p
  else if name == ".." then
    match p.getLast? with
    | none | some ".." => p ++ [name]
    | some "/" => p
    | some _ => p.dropLast
  else p ++ [name]

/-- The place that a path starts from: the root or the working folder. -/
def start (path : String) : Place := if path.toList.head? == some '/' then ["/"] else []

/-- The names along a path. A slash at an end of the path, or one more between two names, leaves an
empty name. -/
def namesOf (path : String) : List String := (path.toList.splitOn '/').map String.ofList

/-- The names of the folders along a path that say more than to stay. -/
def foldersOf (path : String) : List String :=
  ((namesOf path).filter fun name => name != "" && name != ".").dropLast

/-- The place that a path tells, if whatever it goes back from is a folder. -/
def ofPath (path : String) : Place := (namesOf path).foldl step (start path)

/-- The places that a path leads through, and the one it tells. -/
def along (path : String) : List Place :=
  let names := namesOf path
  (List.range (names.length + 1)).map fun n => (names.take n).foldl step (start path)

/-- A path that tells the place. -/
def toPath : Place → String
  | [] => "."
  | "/" :: names => "/" ++ "/".intercalate names
  | names => "/".intercalate names

/-- The place in the same folder whose name goes on with a suffix. -/
def beside (p : Place) (suffix : String) : Place :=
  p.dropLast ++ (p.getLast?.map (· ++ suffix)).toList

end Place

def nameLimit : Nat := 255

def isOverlong (name : String) : Bool := nameLimit < name.utf8ByteSize

def pathLimit : Nat := 4095

end ReleaseCatalog.CommandLine
