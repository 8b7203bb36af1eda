import AndInverter.Aiger.File
import AndInverter.Aiger.Write
import AndInverter.CommandLine.Command
import AndInverter.CommandLine.Config
import AndInverter.CommandLine.JsonText
import AndInverter.Decimal.Shortest
import AndInverter.Equivalence
import AndInverter.Network.Summary
import AndInverter.Random.Chance
import AndInverter.Random.Network
import AndInverter.Restructure.Engine

/-!
Running the program.  All it needs of the world is a `Host`: files, and two streams to print
on.  The same code runs on a real machine and on a directory that is a value.

* `run` runs the program on any host; the result is its exit status;
* `runIn` runs it in a directory and shows what it printed and left behind.
-/

namespace AndInverter.CommandLine

/-- What the program needs of the world. -/
structure Host (m : Type → Type) where
  hasFile : String → m Bool
  readText : String → m (Except FileError String)
  writeText : String → String → m (Except FileError Unit)
  print : String → m Unit
  complain : String → m Unit

/-- **Why a command failed.** -/
inductive Failure where
  | configMissing (name : String)
  | configUnreadable (name : String) (cause : FileError)
  | configUnusable (name : String)
  | loading (name : String) (cause : Aiger.FileLoadError)
  | unwritable (cause : Aiger.WriteError)
  | writing (name : String) (cause : FileError)
  | creating (name : String) (cause : FileError)
  | notEquivalent (difference : Difference)
  | improbable (probability : Binary64)
  | fault (cause : Fault)
deriving DecidableEq

/-- The wording of a failure. -/
def Failure.message : Failure → String
  | .configMissing _ => "config file does not exist"
  | .configUnreadable name cause => s!"reading config file {name}: {cause.message}"
  | .configUnusable name => s!"parsing config file {name}"
  | .loading name cause => s!"loading AIGER file {name}: {cause.message}"
  | .unwritable cause => cause.message
  | .writing name cause => s!"writing AIGER file {name}: {cause.message}"
  | .creating name cause => s!"creating {name}: {cause.message}"
  | .notEquivalent difference =>
    s!"rewritten network is not equivalent to the input: {difference.message}"
  | .improbable p => s!"--complement-probability must be within [0, 1]; got {p.text}"
  | .fault cause => cause.message.getD "internal fault"

/-- What is added to the wording of a failure, a line each. -/
def Failure.details : Failure → List (String × String)
  | .configMissing name | .configUnreadable name _ | .configUnusable name => [("path", name)]
  | _ => []

/-- The status with which the program ends: a fault is no ordinary failure. -/
def Failure.exitStatus : Failure → UInt32
  | .fault _ => 101
  | _ => 1

/-- The status with which the program ends when its arguments are refused. -/
def usageStatus : UInt32 := 2

/-- The version of the program. -/
def programVersion : String := "0.1.0"

/-! ### Reports -/

/-- A histogram on one line. -/
def histogramText (histogram : List (Nat × Nat)) : String :=
  "\x7b" ++ ",".intercalate (histogram.map fun (k, count) => s!"{k}:{count}") ++ "\x7d"

/-- The line of figures of a network. -/
def statsLine (s : Summary) : String :=
  s!"aig stats: pis={s.inputs} pos={s.outputs} gates={s.gates} depth={s.depth} " ++
    s!"fanout_hist={histogramText s.fanoutHistogram}\n"

/-- The line of figures of a run of restructuring. -/
def reportLine (r : RestructureReport) : String :=
  s!"rewrite: depth {r.depthBefore} -> {r.depthAfter} gates {r.gatesBefore} -> " ++
    s!"{r.gatesAfter} passes {r.passes} (assoc {r.tally.associativity}, distr " ++
    s!"{r.tally.distributivity}, distr3 {r.tally.threeLevel})\n"

/-- The figures of a network as a record. -/
def summaryRecord (s : Summary) : JsonText :=
  .record [
    ("pis", .natural s.inputs),
    ("pos", .natural s.outputs),
    ("gates", .natural s.gates),
    ("size", .natural s.size),
    ("depth", .natural s.depth),
    ("fanout_histogram",
      .record (s.fanoutHistogram.map fun (k, count) => (toString k, .natural count)))]

/-- The figures of a run of restructuring as a record. -/
def reportRecord (r : RestructureReport) : JsonText :=
  .record [
    ("passes", .natural r.passes),
    ("associativity", .natural r.tally.associativity),
    ("distributivity", .natural r.tally.distributivity),
    ("distributivity3", .natural r.tally.threeLevel),
    ("depth_before", .natural r.depthBefore),
    ("depth_after", .natural r.depthAfter),
    ("gates_before", .natural r.gatesBefore),
    ("gates_after", .natural r.gatesAfter),
    ("reached_fixpoint", .truth r.reachedFixpoint)]

/-- All figures of restructuring a file. -/
def restructureRecord (input : String) (r : RestructureReport) (after : Summary) (checked : Bool) :
    JsonText :=
  .record [
    ("input", .string input),
    ("rewrite", reportRecord r),
    ("after", summaryRecord after),
    ("equivalence_checked", .truth checked)]

/-! ### Commands -/

/-- Options on the command line prevail over the configuration. -/
def RestructureRequest.options (q : RestructureRequest) (c : Config) : RestructureOptions where
  associativity := (q.associativity.or c.associativity).getD true
  distributivity := (q.distributivity.or c.distributivity).getD true
  threeLevel := (q.threeLevel.or c.threeLevel).getD true
  maxPasses := q.maxPasses.or c.maxPasses

/-- The options of the check that follows. -/
def Config.equivalenceOptions (c : Config) : EquivalenceOptions where
  rounds := c.rounds.getD 256
  seed := .ofNat (c.seed.getD 0)

section

variable {m : Type → Type} [Monad m] (host : Host m)

/-- A command can fail. -/
abbrev Running (m : Type → Type) := ExceptT Failure m

/-- An outcome that fails with a cause. -/
def Running.require {ε α : Type} (failure : ε → Failure) (outcome : Except ε α) : Running m α :=
  match outcome with
  | .ok a => return a
  | .error cause => throw (failure cause)

def loadNetwork (name : String) : Running m Network := do
  let content ← host.readText name
  Running.require (.loading name) (Aiger.loadFile name content)

/-- Writes a network to a file, or prints it. -/
def writeNetwork (n : Network) (output : Option String) : Running m Unit := do
  let text ← Running.require .unwritable n.aiger
  match output with
  | none => host.print text
  | some name => Running.require (.writing name) (← host.writeText name text)

def writeRecord (record : JsonText) (name : String) : Running m Unit := do
  Running.require (.creating name) (← host.writeText name record.text)

/-- Fails if two networks differ. -/
def requireEquivalent (lhs rhs : Network) (o : EquivalenceOptions) : Running m Unit := do
  match ← Running.require .fault (lhs.difference? rhs o) with
  | none => return ()
  | some difference => throw (.notEquivalent difference)

def runRestructure (c : Config) (q : RestructureRequest) : Running m Unit := do
  let checked := (q.check.or c.check).getD false
  let before ← loadNetwork host q.input
  match before.restructure (q.options c) with
  | .error cause _ => throw (.fault cause)
  | .ok report after => do
    let after := after.network
    if checked then
      requireEquivalent before after c.equivalenceOptions
    writeNetwork host after q.output
    if q.output.isSome then
      host.print (reportLine report)
    if let some name := q.json then
      let summary ← Running.require .fault after.summary
      writeRecord host (restructureRecord q.input report summary checked) name

def runStats (input : String) (json : Option String) : Running m Unit := do
  let n ← loadNetwork host input
  let summary ← Running.require .fault n.summary
  host.print (statsLine summary)
  if let some name := json then
    writeRecord host (summaryRecord summary) name

def runRandom (q : RandomRequest) : Running m Unit := do
  let complement ← match q.complement with
    | none => pure Chance.even
    | some p => if p.isProbability then pure (Chance.ofNumber p) else throw (.improbable p)
  let o : RandomOptions :=
    { inputs := q.inputs, gates := q.gates, outputs := q.outputs, complement }
  let n ← Running.require .fault (Network.random (.ofNat q.seed) o)
  writeNetwork host n q.output

/-- Reads the configuration, if one is named. -/
def loadConfig : Option String → Running m Config
  | none => return {}
  | some name => do
    if !(← host.hasFile name) then
      throw (.configMissing name)
    let text ← Running.require (.configUnreadable name) (← host.readText name)
    match Config.parse? text with
    | some config => return config
    | none => throw (.configUnusable name)

def runCommand (c : Config) : Command → Running m Unit
  | .version => host.print (programVersion ++ "\n")
  | .restructure request => runRestructure host c request
  | .stats input json => runStats host input json
  | .random request => runRandom host request

/-- Ends with a failure; `command` is the command that failed, if it was one. -/
def fail (command : Option String) (failure : Failure) : m UInt32 := do
  let who := (command.map (· ++ ": ")).getD ""
  host.complain s!"aigopt-driver: {who}{failure.message}\n"
  for (key, value) in failure.details do
    host.complain s!"  {key}: {value}\n"
  return failure.exitStatus

/-- Reads the configuration and runs a command. -/
def runTask (config : Option String) (command : Command) : m UInt32 := do
  match ← (loadConfig host config).run with
  | .error failure => fail host none failure
  | .ok c =>
    match ← (runCommand host c command).run with
    | .error failure => fail host (some command.name) failure
    | .ok () => return 0

/-- **Runs the program** with its arguments; the result is its exit status. -/
def run (args : List String) : m UInt32 :=
  match Task.ofArguments args with
  | .error usage => do
    host.complain s!"error: {usage.message}\n"
    return usageStatus
  | .ok .programVersion => do
    host.print s!"aigopt-driver {programVersion}\n"
    return 0
  | .ok (.run config command) => runTask host config command

end

/-! ### A directory as a host -/

/-- A directory and what was printed. -/
structure Console where
  directory : Directory
  output : String := ""
  complaints : String := ""

/-- A directory as a host. -/
def Console.host : Host (StateM Console) where
  hasFile name := return (← get).directory.has name
  readText name := return (← get).directory.read name
  writeText name text := do
    match (← get).directory.write name text with
    | .ok directory =>
      modify ({ · with directory })
      return .ok ()
    | .error cause => return .error cause
  print text := modify fun c => { c with output := c.output ++ text }
  complain text := modify fun c => { c with complaints := c.complaints ++ text }

/-- Runs the program in a directory. -/
def runIn (directory : Directory) (args : List String) : UInt32 × Console :=
  (run Console.host args).run { directory }

end AndInverter.CommandLine
