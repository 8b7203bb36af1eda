import AndInverter.CommandLine.Arguments

/-!
The commands of the program, and how they are read from its arguments.
-/

namespace AndInverter.CommandLine

/-- What restructuring a file takes; what is absent comes from the configuration. -/
structure RestructureRequest where
  input : String
  output : Option String
  json : Option String
  associativity : Option Bool
  distributivity : Option Bool
  threeLevel : Option Bool
  maxPasses : Option Nat
  check : Option Bool
deriving DecidableEq

/-- What making a random network takes. -/
structure RandomRequest where
  inputs : Nat
  gates : Nat
  outputs : Nat
  seed : Nat
  complement : Option Binary64
  output : Option String
deriving DecidableEq

/-- **A command.** -/
inductive Command where
  /-- Print the version. -/
  | version
  /-- Restructure a network. -/
  | restructure (request : RestructureRequest)
  /-- Print the figures of a network, and write them to a file or not. -/
  | stats (input : String) (json : Option String)
  /-- Make a random network. -/
  | random (request : RandomRequest)
deriving DecidableEq

/-- The name under which a command complains. -/
def Command.name : Command → String
  | .version => "version"
  | .restructure _ => "rewrite"
  | .stats .. => "stats"
  | .random _ => "random"

/-! ### How commands are given -/

def RestructureRequest.ofGiven (g : Given) : RestructureRequest where
  input := g.file.getD ""
  output := g.value? "output"
  json := g.value? "output-json"
  associativity := g.truth? "associativity"
  distributivity := g.truth? "distributivity"
  threeLevel := g.truth? "distributivity3"
  maxPasses := g.natural? "max-passes"
  check := g.truth? "check-equivalence"

def RandomRequest.ofGiven (g : Given) : RandomRequest where
  inputs := (g.natural? "inputs").getD 0
  gates := (g.natural? "gates").getD 0
  outputs := (g.natural? "outputs").getD 0
  seed := (g.natural? "seed").getD 0
  complement := g.number? "complement-probability"
  output := g.value? "output"

/-- The option that names the configuration; it is known everywhere. -/
def configOption : OptionSpec := { name := "config" }

/-- The options of the program itself. -/
def programSpec : CommandSpec := { name := "aigopt-driver", options := [configOption] }

def versionForm : CommandForm Command where
  name := "version"
  options := [configOption]
  build _ := .version

def restructureForm : CommandForm Command where
  name := "rewrite"
  takesFile := true
  options := [
    configOption,
    { name := "output" },
    { name := "associativity", kind := .truth },
    { name := "distributivity", kind := .truth },
    { name := "distributivity3", kind := .truth },
    { name := "max-passes", kind := .natural },
    { name := "check-equivalence", kind := .truth },
    { name := "output-json" }]
  build g := .restructure (.ofGiven g)

def statsForm : CommandForm Command where
  name := "stats"
  takesFile := true
  options := [configOption, { name := "output-json" }]
  build g := .stats (g.file.getD "") (g.value? "output-json")

def randomForm : CommandForm Command where
  name := "random"
  options := [
    configOption,
    { name := "inputs", kind := .natural, required := true },
    { name := "gates", kind := .natural, required := true },
    { name := "outputs", kind := .natural, required := true },
    { name := "seed", kind := .natural, required := true },
    { name := "complement-probability", kind := .number },
    { name := "output" }]
  build g := .random (.ofGiven g)

/-- All commands. -/
def commandForms : List (CommandForm Command) :=
  [versionForm, restructureForm, statsForm, randomForm]

/-- What the program is to do. -/
inductive Task where
  /-- Print the name of the program and its version. -/
  | programVersion
  /-- Run a command with a configuration file or none. -/
  | run (config : Option String) (command : Command)
deriving DecidableEq

/-- Reads the arguments of the program.  A configuration named behind the command prevails. -/
def Task.ofArguments (args : List String) : Except UsageError Task := do
  match ← scanProgram programSpec commandForms {} args with
  | .programVersion => return .programVersion
  | .command program own command =>
    return .run ((own.value? "config").or (program.value? "config")) command

end AndInverter.CommandLine
