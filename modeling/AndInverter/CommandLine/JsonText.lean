/-!
Records as JSON text, with one field a line and two spaces for each level.
-/

namespace AndInverter.CommandLine

/-- A value to be written. -/
inductive JsonText where
  | natural (n : Nat)
  | truth (b : Bool)
  | string (s : String)
  | record (fields : List (String × JsonText))

namespace JsonText

/-- A character below the space as its number. -/
def escapeControl (c : Char) : List Char :=
  let digits := Nat.toDigits 16 c.toNat
  '\\' :: 'u' :: (List.replicate (4 - digits.length) '0' ++ digits)

/-- A character inside of a string. -/
def escape (c : Char) : List Char :=
  if c = '"' then ['\\', '"']
  else if c = '\\' then ['\\', '\\']
  else if c = '\x08' then ['\\', 'b']
  else if c = '\t' then ['\\', 't']
  else if c = '\n' then ['\\', 'n']
  else if c = '\x0c' then ['\\', 'f']
  else if c = '\r' then ['\\', 'r']
  else if c.toNat < 0x20 then escapeControl c
  else [c]

/-- A string in quotes. -/
def quote (s : String) : String :=
  String.ofList ('"' :: s.toList.flatMap escape ++ ['"'])

/-- The spaces at the head of a line. -/
def indent (level : Nat) : String := String.ofList (List.replicate (2 * level) ' ')

mutual

/-- A value at a level. -/
def render (level : Nat) : JsonText → String
  | natural n => toString n
  | truth b => toString b
  | string s => quote s
  | record [] => "\x7b\x7d"
  | record (field :: fields) =>
    "\x7b\n" ++ ",\n".intercalate (renderFields (level + 1) (field :: fields)) ++
      "\n" ++ indent level ++ "\x7d"

/-- The lines of the fields of a record. -/
def renderFields (level : Nat) : List (String × JsonText) → List String
  | [] => []
  | (key, value) :: rest =>
    (indent level ++ quote key ++ ": " ++ render level value) :: renderFields level rest

end

/-- The text of a value. -/
def text (j : JsonText) : String := j.render 0

end JsonText

end AndInverter.CommandLine
