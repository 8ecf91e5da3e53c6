import ReleaseCatalog.Json.Basic

namespace ReleaseCatalog.Json

/-- A character of a string. Only what may not stand in a string is escaped. -/
def escape (c : Char) : List Char :=
  match c with
  | '"' => ['\\', '"']
  | '\\' => ['\\', '\\']
  | '\x08' => ['\\', 'b']
  | '\x0c' => ['\\', 'f']
  | '\n' => ['\\', 'n']
  | '\r' => ['\\', 'r']
  | '\t' => ['\\', 't']
  | c =>
    if c.toNat < 0x20 then
      ['\\', 'u', '0', '0', Nat.digitChar (c.toNat / 16), Nat.digitChar (c.toNat % 16)]
    else [c]

/-- A string in its quotes. What is no text is written as half a character, so that it reads back
as no text. -/
def renderString : Option String → List Char
  | some s => '"' :: s.toList.flatMap escape ++ ['"']
  | none => ['"', '\\', 'u', 'd', '8', '0', '0', '"']

def renderNumeral (n : Numeral) : List Char :=
  (if n.negative then ['-'] else []) ++ n.whole ++
    (if n.fraction.isEmpty then [] else '.' :: n.fraction) ++
    n.exponent.elim [] fun (negative, digits) => 'e' :: (if negative then ['-'] else []) ++ digits

mutual

def render : Json → List Char
  | null => "null".toList
  | bool b => if b then "true".toList else "false".toList
  | number n => renderNumeral n
  | string s => renderString s
  | array [] => ['[', ']']
  | array (x :: xs) => '[' :: x.render ++ renderElements xs
  | object [] => ['\x7b', '\x7d']
  | object ((name, x) :: ms) => '\x7b' :: renderString name ++ ':' :: x.render ++ renderMembers ms

/-- The elements after the first, and the end of the array. -/
def renderElements : List Json → List Char
  | [] => [']']
  | x :: xs => ',' :: x.render ++ renderElements xs

/-- The members after the first, and the end of the object. -/
def renderMembers : List (Option String × Json) → List Char
  | [] => ['\x7d']
  | (name, x) :: ms => ',' :: renderString name ++ ':' :: x.render ++ renderMembers ms

end

def print (x : Json) : String := String.ofList x.render

end ReleaseCatalog.Json
