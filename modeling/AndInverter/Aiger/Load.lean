import Std.Data.HashMap
import AndInverter.Aiger.Parse
import AndInverter.Log
import AndInverter.Network.Construct
import AndInverter.Network.Invariant

/-!
From a circuit file to a network.  Definitions may come in any order, so they are placed in
rounds: each round makes the gates whose two literals are known by then and defers the rest
to the next one.  A round that places nothing shows that the rest is undefined or cyclic.
-/

namespace AndInverter

namespace Aiger

/-- The signals of the variables that are known. -/
abbrev Signals := Std.HashMap Nat Signal

/-- The signal of a literal whose variable is known. -/
def Signals.ofLiteral? (signals : Signals) (literal : Nat) : Option Signal :=
  signals[literal / 2]?.map (·.complementIf (literal % 2 == 1))

/-- Building a network from a file. -/
abbrev Build := StateT Network (Except LoadError)

/-- An edit as a step of the building. -/
def Build.edit {α : Type} (e : Edit α) : Build α := fun n =>
  match e n with
  | .ok a n => .ok (a, n)
  | .error fault _ => .error (.internal fault)

/-- Makes the inputs. -/
def addInputs (signals : Signals) : List Nat → Build Signals
  | [] => return signals
  | var :: vars => do
    let s ← Build.edit Edit.addInput
    addInputs (signals.insert var s) vars

/-- One round: makes a gate for each definition whose literals are known, also through the
definitions before it, and returns the others. -/
def placeRound (signals : Signals) : List Definition → Build (List Definition × Signals)
  | [] => return ([], signals)
  | d :: ds =>
    match signals.ofLiteral? d.rhs₀, signals.ofLiteral? d.rhs₁ with
    | some f, some g => do
      let s ← Build.edit (Edit.addAnd f g)
      placeRound (signals.insert d.var s) ds
    | _, _ => do
      let (deferred, signals) ← placeRound signals ds
      return (d :: deferred, signals)

/-- Makes the gates, round by round. -/
def placeAll (signals : Signals) (pending : List Definition) : Build Signals :=
  match pending with
  | [] => return signals
  | d :: ds => do
    let (deferred, signals) ← placeRound signals (d :: ds)
    if _h : deferred.length < (d :: ds).length then
      placeAll signals deferred
    else
      throw (.undefinedOrCyclic d.var d.rhs₀ d.rhs₁)
termination_by pending.length
decreasing_by assumption

/-- Makes the outputs. -/
def addOutputs (signals : Signals) : List Nat → Build Unit
  | [] => return ()
  | literal :: literals =>
    match signals.ofLiteral? literal with
    | none => throw (.undefinedOutput literal)
    | some s => do
      let _ ← Build.edit (Edit.addOutput s)
      addOutputs signals literals

/-- Makes everything and checks the result. -/
def Document.build (d : Document) : Build Unit := do
  let signals ← addInputs ((∅ : Signals).insert 0 .zero) d.inputs
  let signals ← placeAll signals d.definitions
  addOutputs signals d.outputs
  Build.edit (Edit.query (·.checkInvariants))

/-- The network that a file describes. -/
def Document.toNetwork (d : Document) : Except LoadError Network := do
  let ((), n) ← d.build.run ∅
  return n

/-- What is noted when a file was read. -/
def Document.loadLog (d : Document) (n : Network) : LogEntry :=
  .loaded d.inputs.length d.outputs.length d.definitions.length n.liveGates

/-- Reads a network, and what is to be noted about it, from the text of a circuit file. -/
def loadWithLog (text : String) : Except LoadError (Network × LogEntry) := do
  let d ← Document.parse text
  let n ← d.toNetwork
  return (n, d.loadLog n)

/-- Reads a network from the text of a circuit file. -/
def load (text : String) : Except LoadError Network := return (← loadWithLog text).1

end Aiger

end AndInverter
