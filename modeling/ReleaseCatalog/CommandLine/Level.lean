namespace ReleaseCatalog.CommandLine

/-- What the arguments of a command gather into an `α`. -/
structure Level (α : Type) where
  /-- The options by name, with what a value does; a value may be refused. -/
  options : List (String × (String → α → Option α))
  /-- The flags by name. -/
  flags : List (String × (α → α))
  /-- What the operands do, in their order. All of them must be there. -/
  operands : List (String → α → Option α)

/-- What an argument looks like. -/
inductive Shape where
  /-- Two hyphens, a name, and perhaps a value after an equals sign. -/
  | long (name : String) (value : Option String)
  /-- One hyphen and a letter. -/
  | short (letter : Char)
  /-- Two hyphens alone, after which there are only operands. -/
  | divider
  | plain
deriving DecidableEq, Repr

def shapeOf (arg : String) : Shape :=
  match arg.toList with
  | ['-', '-'] => .divider
  | '-' :: '-' :: s =>
    let name := String.ofList (s.takeWhile (· != '='))
    match s.dropWhile (· != '=') with
    | _ :: value => .long name (some (String.ofList value))
    | [] => .long name none
  | '-' :: c :: _ => .short c
  | _ => .plain

/-- What comes of an argument list. -/
inductive Taken (α : Type) where
  | done (a : α)
  /-- The explanation of the command is asked for. -/
  | help
  /-- The version of the program is asked for. -/
  | version
  | invalid

namespace Level

variable {α : Type}

def takeOperands : List (String → α → Option α) → α → List String → Taken α
  | [], a, [] => .done a
  | put :: operands, a, arg :: args =>
    match put arg a with
    | some a => takeOperands operands a args
    | none => .invalid
  | _, _, _ => .invalid

/-- Takes the arguments of a command from the left; the first that is out of place decides. `seen`
are the options and flags that were given, and none may be given twice. -/
def take (l : Level α) (operands : List (String → α → Option α)) (seen : List String) (a : α) :
    List String → Taken α
  | [] => if operands.isEmpty then .done a else .invalid
  | arg :: args =>
    match shapeOf arg with
    | .divider => takeOperands operands a args
    | .short 'h' => .help
    | .short _ => .invalid
    | .long name (some value) =>
      match l.options.lookup name with
      | some put =>
        if seen.contains name then .invalid
        else
          match put value a with
          | some a => l.take operands (name :: seen) a args
          | none => .invalid
      | none => .invalid
    | .long name none =>
      if name == "help" then .help
      else if seen.contains name then .invalid
      else
        match l.flags.lookup name, l.options.lookup name, args with
        | some set, _, args => l.take operands (name :: seen) (set a) args
        | none, some put, value :: args =>
          match shapeOf value, put value a with
          | .plain, some a => l.take operands (name :: seen) a args
          | _, _ => .invalid
        | none, _, _ => .invalid
    | .plain =>
      match operands with
      | put :: operands =>
        match put arg a with
        | some a => l.take operands seen a args
        | none => .invalid
      | [] => .invalid

end Level

end ReleaseCatalog.CommandLine
