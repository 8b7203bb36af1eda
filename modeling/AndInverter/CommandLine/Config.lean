import AndInverter.Text.Lines
import AndInverter.Text.Toml

/-!
The configuration file: one table of defaults for restructuring, in the TOML format.  Every
value is a truth value or an integer; anything else, an unknown key, a key given twice or a
negative number makes the file unusable.
-/

namespace AndInverter.CommandLine

open Text

/-- **A configuration**: defaults for restructuring and for the check that follows it. -/
structure Config where
  associativity : Option Bool := none
  distributivity : Option Bool := none
  threeLevel : Option Bool := none
  maxPasses : Option Nat := none
  check : Option Bool := none
  rounds : Option Nat := none
  seed : Option Nat := none
deriving DecidableEq, Inhabited

/-- A value in a configuration file. -/
inductive ConfigValue where
  | truth (value : Bool)
  | integer (value : Int)
deriving DecidableEq

/-- The name of the table. -/
def configTable : String := "rewrite"

namespace ConfigValue

def truth? : ConfigValue → Option Bool
  | .truth b => some b
  | .integer _ => none

def natural? : ConfigValue → Option Nat
  | .integer (.ofNat n) => some n
  | _ => none

end ConfigValue

namespace Config

/-- Sets a default that was not set before. -/
def set {α : Type} (old new : Option α) : Option (Option α) :=
  match old, new with
  | none, some a => some (some a)
  | _, _ => none

/-- Sets the default with a given key. -/
def insert (c : Config) (key : String) (v : ConfigValue) : Option Config :=
  match key with
  | "associativity" => return { c with associativity := ← set c.associativity v.truth? }
  | "distributivity" => return { c with distributivity := ← set c.distributivity v.truth? }
  | "distributivity3" => return { c with threeLevel := ← set c.threeLevel v.truth? }
  | "max_passes" => return { c with maxPasses := ← set c.maxPasses v.natural? }
  | "check_equivalence" => return { c with check := ← set c.check v.truth? }
  | "equiv_random_rounds" => return { c with rounds := ← set c.rounds v.natural? }
  | "equiv_seed" => return { c with seed := ← set c.seed v.natural? }
  | _ => none

end Config

/-- A value with nothing behind it but a comment. -/
def value? (s : List Char) : Option ConfigValue :=
  let s := Toml.skipGap s
  let token := s.takeWhile fun c => !Toml.isGap c && c ≠ '#'
  if Toml.isLineEnd (s.drop token.length) then
    if token = "true".toList then some (.truth true)
    else if token = "false".toList then some (.truth false)
    else (Toml.integer? token).map .integer
  else none

/-! ### The file -/

/-- How far a file was read. -/
structure ConfigState where
  config : Config := {}
  /-- Is the table there? -/
  opened : Bool := false
  /-- Do keys belong to the table? -/
  inside : Bool := false

namespace ConfigState

/-- The header of the table. -/
def readHeader (st : ConfigState) (s : List Char) : Option ConfigState := do
  let (key, rest) ← Toml.key? s
  match rest with
  | ']' :: rest =>
    if key = [configTable] ∧ Toml.isLineEnd rest ∧ st.opened = false then
      some { st with opened := true, inside := true }
    else none
  | _ => none

/-- A key with its value. -/
def readEntry (st : ConfigState) (s : List Char) : Option ConfigState := do
  let (key, rest) ← Toml.key? s
  match rest with
  | '=' :: rest =>
    let v ← value? rest
    match st.inside, key with
    | true, [name] => return { st with config := ← st.config.insert name v }
    | false, [table, name] =>
      if table = configTable then
        return { st with config := ← st.config.insert name v, opened := true }
      else none
    | _, _ => none
  | _ => none

/-- A line. -/
def readLine (st : ConfigState) (l : List Char) : Option ConfigState :=
  if Toml.isLineEnd l then some st
  else
    match Toml.skipGap l with
    | '[' :: rest => st.readHeader rest
    | s => st.readEntry s

end ConfigState

/-- Reads a configuration file.  A byte order mark in front of it does not count. -/
def Config.parse? (text : String) : Option Config :=
  let chars := match text.toList with
    | '\uFEFF' :: rest => rest
    | chars => chars
  ((lines chars).foldlM ConfigState.readLine {}).map (·.config)

end AndInverter.CommandLine
