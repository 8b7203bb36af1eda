import AndInverter.Decimal.Read
import AndInverter.Text.Numeral

/-!
The arguments of a command line.  A command has options `--name value`, also written
`--name=value`, each given once at most, and takes a file or not.  Behind `--` every argument
is a file.
-/

namespace AndInverter.CommandLine

/-- What kind of value an option takes. -/
inductive ValueKind where
  | text
  | truth
  | natural
  | number
deriving DecidableEq

/-- The largest natural number that an option takes. -/
def naturalLimit : Nat := 0xFFFFFFFFFFFFFFFF

/-- Is the text a value of this kind? -/
def ValueKind.accepts (kind : ValueKind) (value : String) : Bool :=
  match kind with
  | .text => true
  | .truth => value == "true" || value == "false"
  | .natural =>
    match Text.Numeral.read naturalLimit value.toList with
    | .ok _ => true
    | .error _ => false
  | .number => (Binary64.read? value.toList).isSome

/-- An option that a command knows. -/
structure OptionSpec where
  name : String
  kind : ValueKind := .text
  required : Bool := false
deriving DecidableEq

/-- A command, its options, and whether it needs a file. -/
structure CommandSpec where
  name : String
  takesFile : Bool := false
  options : List OptionSpec := []
deriving DecidableEq

/-- **Why arguments are refused.** -/
inductive UsageError where
  | noCommand
  | unknownCommand (name : String)
  | unknownArgument (argument : String)
  | valueMissing (option : String)
  | badValue (option value : String)
  | repeated (option : String)
  | optionMissing (option : String)
  | fileMissing
deriving DecidableEq

def UsageError.message : UsageError → String
  | .noCommand => "a command is required"
  | .unknownCommand name => s!"unknown command '{name}'"
  | .unknownArgument argument => s!"unexpected argument '{argument}'"
  | .valueMissing option => s!"a value is required for '--{option}'"
  | .badValue option value => s!"invalid value '{value}' for '--{option}'"
  | .repeated option => s!"'--{option}' cannot be used multiple times"
  | .optionMissing option => s!"'--{option}' is required"
  | .fileMissing => "an input file is required"

/-- What was given to a command: a file or none, and the values of options. -/
structure Given where
  file : Option String := none
  values : List (String × String) := []
deriving DecidableEq

namespace Given

/-- The value of an option. -/
def value? (g : Given) (name : String) : Option String := g.values.lookup name

def truth? (g : Given) (name : String) : Option Bool := (g.value? name).map (· == "true")

def natural? (g : Given) (name : String) : Option Nat := do
  match Text.Numeral.read naturalLimit (← g.value? name).toList with
  | .ok n => some n
  | .error _ => none

def number? (g : Given) (name : String) : Option Binary64 := do
  Binary64.read? (← g.value? name).toList

/-- Adds the value of an option. -/
def giveOption (g : Given) (spec : CommandSpec) (argument name value : String) :
    Except UsageError Given :=
  match spec.options.find? (·.name == name) with
  | none => .error (.unknownArgument argument)
  | some option =>
    if (g.value? name).isSome then .error (.repeated name)
    else if option.kind.accepts value then .ok { g with values := (name, value) :: g.values }
    else .error (.badValue name value)

/-- Adds a file. -/
def giveFile (g : Given) (spec : CommandSpec) (argument : String) : Except UsageError Given :=
  if spec.takesFile && g.file.isNone then .ok { g with file := some argument }
  else .error (.unknownArgument argument)

/-- Nothing that is required may be missing. -/
def check (g : Given) (spec : CommandSpec) : Except UsageError Unit :=
  match spec.options.find? fun option => option.required && (g.value? option.name).isNone with
  | some option => .error (.optionMissing option.name)
  | none => if spec.takesFile && g.file.isNone then .error .fileMissing else .ok ()

end Given

/-- An argument by its form. -/
inductive Argument where
  /-- The mark behind which there are files only. -/
  | endOfOptions
  /-- An option with its value, if that is attached. -/
  | option (name : String) (value : Option String)
  /-- Letters behind a single dash. -/
  | letters (letters : List Char)
  | plain (text : String)
deriving DecidableEq

/-- The form of an argument.  A dash alone is plain. -/
def Argument.ofString (s : String) : Argument :=
  match s.toList with
  | ['-', '-'] => .endOfOptions
  | '-' :: '-' :: rest =>
    let name := rest.takeWhile (· ≠ '=')
    let value := match rest.drop name.length with
      | [] => none
      | _ :: value => some (String.ofList value)
    .option (String.ofList name) value
  | '-' :: c :: rest => .letters (c :: rest)
  | _ => .plain s

/-- Only a plain argument can be the value of the option before it. -/
def isValue (s : String) : Bool :=
  match Argument.ofString s with
  | .plain _ => true
  | _ => false

/-- Goes through the arguments of a command. -/
def scan (spec : CommandSpec) (g : Given) : List String → Except UsageError Given
  | [] => .ok g
  | s :: rest =>
    match Argument.ofString s with
    | .endOfOptions => rest.foldlM (·.giveFile spec ·) g
    | .letters _ => .error (.unknownArgument s)
    | .plain text => do scan spec (← g.giveFile spec text) rest
    | .option name (some value) => do scan spec (← g.giveOption spec s name value) rest
    | .option name none =>
      match rest with
      | [] => .error (.valueMissing name)
      | value :: rest =>
        if isValue value then do scan spec (← g.giveOption spec s name value) rest
        else .error (.valueMissing name)

/-- A command, and what becomes of what is given to it. -/
structure CommandForm (α : Type) extends CommandSpec where
  build : Given → α

/-- What a command line asks for. -/
inductive Invocation (α : Type) where
  /-- The version of the program. -/
  | programVersion
  /-- A command, with what was given to the program and to itself, and what it asks for. -/
  | command (program own : Given) (request : α)

/-- Goes through the arguments of a program up to the name of a command. -/
def scanProgram {α : Type} (program : CommandSpec) (commands : List (CommandForm α)) (g : Given) :
    List String → Except UsageError (Invocation α)
  | [] => .error .noCommand
  | s :: rest =>
    match Argument.ofString s with
    | .endOfOptions => .error .noCommand
    | .letters letters =>
      if letters.head? = some 'V' then .ok .programVersion else .error (.unknownArgument s)
    | .plain name =>
      match commands.find? (·.name == name) with
      | none => .error (.unknownCommand name)
      | some form => do
        let given ← scan form.toCommandSpec {} rest
        given.check form.toCommandSpec
        return .command g given (form.build given)
    | .option "version" none => .ok .programVersion
    | .option name (some value) => do
      scanProgram program commands (← g.giveOption program s name value) rest
    | .option name none =>
      match rest with
      | [] => .error (.valueMissing name)
      | value :: rest =>
        if isValue value then do
          scanProgram program commands (← g.giveOption program s name value) rest
        else .error (.valueMissing name)

end AndInverter.CommandLine
