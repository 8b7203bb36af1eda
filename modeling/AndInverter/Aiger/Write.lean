import AndInverter.Aiger.Document
import AndInverter.Aiger.Error
import AndInverter.Network.Topology
import AndInverter.Text.Lines

/-!
From a network to a circuit file.  The constant is variable 0, the inputs follow in their
order and then the live gates, fan-ins first; so variables are numbered without gaps and every
definition refers to variables below its own.
-/

namespace AndInverter

namespace Aiger

/-! ### The text of a file -/

/-- The line with the given numbers. -/
def numberLine (numbers : List Nat) : String := " ".intercalate (numbers.map toString)

/-- The line of a definition. -/
def Definition.line (d : Definition) : String := numberLine [2 * d.var, d.rhs₀, d.rhs₁]

/-- The header of a file. -/
def Document.headerLine (d : Document) : String :=
  "aag " ++
    numberLine [d.maxVar, d.inputs.length, 0, d.outputs.length, d.definitions.length]

/-- The lines of a file; it ends with a comment that says who wrote it. -/
def Document.lines (d : Document) : List String :=
  d.headerLine :: d.inputs.map (fun var => numberLine [2 * var]) ++
    d.outputs.map (fun literal => numberLine [literal]) ++ d.definitions.map (·.line) ++
    ["c", "emitted by aigopt"]

/-- The text of a file. -/
def Document.text (d : Document) : String :=
  String.ofList (Text.unlines (d.lines.map String.toList))

/-! ### The file of a network -/

/-- The variables of the nodes that have one. -/
abbrev Variables := Array (Option Nat)

/-- The live gates with their fan-ins, fan-ins first. -/
def gatesInOrder (n : Network) (order : Array Nat) : List (Nat × Signal × Signal) :=
  order.toList.filterMap fun node => (n.fanIns? node).map (node, ·)

/-- Numbers the constant, the inputs, and the gates in the given order. -/
def numbering (n : Network) (gates : List (Nat × Signal × Signal)) : Variables :=
  (0 :: n.inputs.toList ++ gates.map (·.1)).zipIdx.foldl
    (fun vars (node, var) => vars.setIfInBounds node (some var))
    (Array.replicate n.size none)

/-- The literal of a signal whose node has a variable. -/
def literalOf (vars : Variables) (s : Signal) : Except WriteError Nat :=
  match vars.getD s.node none with
  | some var => .ok (2 * var + s.complemented.toNat)
  | none => .error (.notLive s)

/-- The definition of a gate, with the larger literal first. -/
def definitionOfGate (vars : Variables) (var : Nat) (a b : Signal) :
    Except WriteError Definition := do
  let la ← literalOf vars a
  let lb ← literalOf vars b
  return ⟨var, max la lb, min la lb⟩

end Aiger

open Aiger

/-- The circuit file of an acyclic network. -/
def Network.document (n : Network) : Except WriteError Document :=
  match n.topology with
  | ⟨order, []⟩ => do
    let gates := gatesInOrder n order
    let vars := numbering n gates
    let inputs := n.inputs.size
    let outputs ← n.outputs.toList.mapM (literalOf vars)
    let definitions ← gates.zipIdx.mapM fun ((_, a, b), index) =>
      definitionOfGate vars (inputs + 1 + index) a b
    return ⟨inputs + gates.length, (List.range inputs).map (· + 1), outputs, definitions⟩
  | ⟨_, unvisited⟩ => .error (.cyclic unvisited)

/-- The text of the circuit file of an acyclic network. -/
def Network.aiger (n : Network) : Except WriteError String := return (← n.document).text

end AndInverter
