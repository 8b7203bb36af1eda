import AndInverter.Depth
import AndInverter.Log
import AndInverter.Network.Substitute

/-!
The workspace of restructuring: a network, a depth view of it, and the log.  The network is
changed by edits, the view is taken afresh on demand, and the log only grows.
-/

namespace AndInverter

/-- A network with a depth view, which may be stale, and a log. -/
structure Workspace where
  network : Network
  depthView : DepthView := default
  log : Array LogEntry := #[]

/-- **A step of restructuring**: it changes the workspace and ends well or with a fault. -/
abbrev Restructuring := EStateM Fault Workspace

namespace Restructuring

variable {α : Type}

/-- Adds to the log. -/
def note (entry : LogEntry) : Restructuring Unit := fun ⟨n, v, log⟩ =>
  .ok () ⟨n, v, log.push entry⟩

/-- Looks at the network and the view. -/
def query (f : Network → DepthView → Except Fault α) : Restructuring α := fun w =>
  match f w.network w.depthView with
  | .ok a => .ok a w
  | .error fault => .error fault w

/-- Looks at the network. -/
def look (f : Network → α) : Restructuring α := fun w => .ok (f w.network) w

/-- Changes the network. -/
def edit (e : Edit α) : Restructuring α := fun ⟨n, v, log⟩ =>
  match e n with
  | .ok a n => .ok a ⟨n, v, log⟩
  | .error fault n => .error fault ⟨n, v, log⟩

/-- Takes the view afresh. -/
def refresh : Restructuring Unit := do
  let fresh ← query fun n _ => DepthView.ofNetwork n
  let nodes ← look (·.liveNodes.length)
  fun ⟨n, _, log⟩ => .ok () ⟨n, fresh, log⟩
  note (.levelsUpdated nodes fresh.depth fresh.criticalCount)

end Restructuring

/-- Retires the gates at and behind a position that nobody uses, the last first. -/
def Edit.retireUnused (first : Nat) : Edit Unit := do
  let size ← view (·.size)
  (List.range' first (size - first)).reverse.forM fun node => do
    if ← view fun n => n.isLiveGate node && n.fanout node == 0 then
      retire node

namespace Restructuring

/-- Puts a signal in the place of a node and notes it. -/
def substitute (node : Nat) (target : Signal) : Restructuring Unit := do
  let requests ← edit (Edit.substitute node target)
  note (.substituted node target requests)

/-- Checks that there is an order of the live nodes; those that have no place in one are
noted. -/
def checkAcyclic (context : String) : Restructuring Unit := do
  (← look (·.cycleLog context)).forM note
  query fun n _ => n.checkAcyclic context

/-- Puts a replacement in the place of a gate and retires what was built for nothing since
the network had `sizeBefore` nodes.  A replacement that is the gate itself is no progress. -/
def commit (gate : Nat) (replacement : Signal) (sizeBefore : Nat) : Restructuring Bool := do
  let progress := replacement.node != gate
  if progress then
    substitute gate replacement
  edit (Edit.retireUnused sizeBefore)
  return progress

/-- Builds a replacement for a gate, puts it in place and notes it. -/
def replace (gate : Nat) (build : Edit Signal) (entry : Signal → LogEntry) :
    Restructuring Bool := do
  let sizeBefore ← look (·.size)
  let replacement ← edit build
  let progress ← commit gate replacement sizeBefore
  if progress then
    note (entry replacement)
  return progress

end Restructuring

/-- What the search for an opportunity finds at a gate. -/
inductive Search (α : Type) where
  /-- Nothing, for a reason that may be worth noting. -/
  | absent (entry : Option LogEntry)
  /-- An opportunity. -/
  | present (found : α)

/-- The fan-ins of a live gate, at a position that has to exist. -/
def Network.liveFanIns? (n : Network) (node : Nat) : Except Fault (Option (Signal × Signal)) := do
  let s ← n.read node
  return if s.dead then none else s.fanIns?

end AndInverter
