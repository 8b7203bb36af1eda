import AndInverter.Depth
import AndInverter.Network.Fanout

/-!
The figures by which a network is summed up.
-/

namespace AndInverter

/-- Sizes, depth and use counts of a network. -/
structure Summary where
  inputs : Nat
  outputs : Nat
  /-- Live gates. -/
  gates : Nat
  /-- All nodes, dead ones included. -/
  size : Nat
  depth : Nat
  /-- For every use count the number of inputs and live gates that have it. -/
  fanoutHistogram : List (Nat × Nat)
deriving DecidableEq

/-- The summary of an acyclic network. -/
def Network.summary (n : Network) : Except Fault Summary := do
  let levels ← n.levels
  return {
    inputs := n.inputs.size
    outputs := n.outputs.size
    gates := n.liveGates
    size := n.size
    depth := n.outputDepth levels
    fanoutHistogram := n.fanoutHistogram }

end AndInverter
