import AndInverter.Network.Invariant
import AndInverter.Restructure.Associativity
import AndInverter.Restructure.Distributivity
import AndInverter.Restructure.Options
import AndInverter.Restructure.ThreeLevel

/-!
Restructuring.  A pass offers every live gate to the laws in turn; the first law that
replaces a gate ends the attempt at it, and levels are computed afresh before the next one.
Passes go on until one replaces nothing or their number reaches the limit.

* `Restructuring.apply` is one law at one gate;
* `Restructuring.runPass` is a pass;
* `restructure` is the whole run and its report.
-/

namespace AndInverter

namespace Restructuring

/-- Acts on the outcome of a search. -/
def act {α : Type} (gate : Nat) (build : α → Edit Signal) (entry : α → Signal → LogEntry) :
    Search α → Restructuring Bool
  | .absent none => return false
  | .absent (some reason) => do
    note reason
    return false
  | .present found => replace gate (build found) (entry found)

/-- **Applies a law to a gate** if there is an opportunity; the result tells whether the gate
was replaced. -/
def apply (law : Law) (gate : Nat) : Restructuring Bool := do
  match law with
  | .associativity =>
    act gate Associativity.build (Associativity.entry gate) (← query (Associativity.search gate))
  | .distributivity =>
    act gate Distributivity.build (Distributivity.entry gate)
      (← query (Distributivity.search gate))
  | .threeLevel =>
    act gate ThreeLevel.build (ThreeLevel.entry gate) (← query (ThreeLevel.search gate))

/-- Applies a law to a gate and takes the view afresh if the network changed. -/
def applyAndRefresh (law : Law) (gate : Nat) : Restructuring Bool := do
  let generation ← look (·.generation)
  let replaced ← apply law gate
  if (← look (·.generation)) ≠ generation then
    refresh
  return replaced

/-- The first of some laws that replaces a gate. -/
def applyFirst (gate : Nat) : List Law → Restructuring (Option Law)
  | [] => return none
  | law :: laws => do
    if ← applyAndRefresh law gate then
      return some law
    else
      applyFirst gate laws

/-- Offers gates to the laws, leaving out those that were retired meanwhile. -/
def offer (laws : List Law) (tally : Tally) : List Nat → Restructuring Tally
  | [] => return tally
  | gate :: gates => do
    if (← query fun n _ => n.read gate).dead then
      offer laws tally gates
    else
      match ← applyFirst gate laws with
      | none => offer laws tally gates
      | some law => offer laws (tally.record law) gates

/-- One pass over the gates that are live when it begins. -/
def runPass (laws : List Law) : Restructuring Tally := do
  offer laws {} (← look (·.gates))

/-- The outcome of all passes. -/
structure Passes where
  count : Nat := 0
  tally : Tally := {}
  reachedFixpoint : Bool := false
deriving DecidableEq, Inhabited

/-- One more pass, which is noted. -/
def nextPass (laws : List Law) (count : Nat) : Restructuring Tally := do
  let tally ← runPass laws
  let depth ← query fun n v => v.currentDepth n
  note (.passEnded count tally.total depth (← look (·.liveGates)))
  return tally

/-- Runs passes until one replaces nothing or their number reaches the limit. -/
def runPasses (laws : List Law) (limit : Option Nat) : (bound : Nat) → Passes →
    Restructuring Passes
  | 0, _ => throw .unfinished
  | bound + 1, done => do
    if limit.any (· ≤ done.count) then
      note (.passLimitReached done.count)
      return done
    else
      let count := done.count + 1
      let tally ← nextPass laws count
      if tally.total = 0 then
        return { done with count, reachedFixpoint := true }
      else
        runPasses laws limit bound ⟨count, done.tally + tally, false⟩

/-- More passes than there can be.  Unfold the network below each output and each unused gate
into a tree, and weigh each gate of a tree by a power of 16 as large as its level: then each
replacement makes the sum smaller. -/
def passBound (n : Network) (limit : Option Nat) : Nat :=
  match limit with
  | some passes => passes + 1
  | none => (n.size + n.outputs.size + 1) <<< (4 * (n.size + 1))

/-- Takes the view and notes the depth and the number of gates, which are the result. -/
def prepare (laws : List Law) : Restructuring (Nat × Nat) := do
  refresh
  let depth ← query fun n v => v.currentDepth n
  let gates ← look (·.liveGates)
  note (.started depth gates laws)
  return (depth, gates)

end Restructuring

open Restructuring in
/-- **Restructuring** with the given options. -/
def restructure (o : RestructureOptions) : Restructuring RestructureReport := do
  let (depthBefore, gatesBefore) ← prepare o.laws
  let bound ← look (passBound · o.maxPasses)
  let passes ← runPasses o.laws o.maxPasses bound {}
  let depthAfter ← query fun n v => v.currentDepth n
  let gatesAfter ← look (·.liveGates)
  checkAcyclic "aig_algebraic_rewriting"
  query fun n _ => n.checkInvariants
  note (.finished passes.count depthBefore depthAfter gatesBefore gatesAfter passes.tally.total)
  return {
    passes := passes.count
    tally := passes.tally
    depthBefore
    depthAfter
    gatesBefore
    gatesAfter
    reachedFixpoint := passes.reachedFixpoint }

/-- Restructures a network. -/
def Network.restructure (n : Network) (o : RestructureOptions) :
    EStateM.Result Fault Workspace RestructureReport :=
  AndInverter.restructure o { network := n }

end AndInverter
