import AndInverter.Network.Basic

/-!
Ordering the live nodes, fan-ins first.  Positions are in such an order while a network is
being built, but not after a gate got a replacement at a higher position, so every walk that
needs fan-ins first goes through this module.

* `Network.topology` orders as many live nodes as possible and lists the others;
* `Network.order` is the order of an acyclic network, a fault otherwise;
* `Network.outputCone` is the part of the order that the outputs depend on.
-/

namespace AndInverter

/-- The nodes ordered so far, and for every node the number of its fan-ins that are not. -/
structure Sweep where
  order : Array Nat
  waiting : Array Nat

/-- One fan-in of a gate is ordered; the gate joins the order when it was the last one. -/
def Sweep.release (s : Sweep) (gate : Nat) : Sweep :=
  let left := s.waiting.getD gate 0 - 1
  ⟨if left = 0 then s.order.push gate else s.order, s.waiting.setIfInBounds gate left⟩

/-- Goes through the order while it grows, releasing the consumers of each node.  Every node
joins the order at most once, so the number of nodes bounds the walk. -/
def Sweep.run (uses : Array (List Nat)) : (bound next : Nat) → Sweep → Sweep
  | 0, _, s => s
  | bound + 1, next, s =>
    match s.order[next]? with
    | none => s
    | some node => run uses bound (next + 1) ((uses.getD node []).foldl release s)

/-- An order of live nodes, fan-ins first, and the live nodes that have no place in one. -/
structure Topology where
  order : Array Nat
  unvisited : List Nat
deriving DecidableEq

namespace Network

/-- For every node the gates that read from it, once for each of their fan-ins. -/
def useLists (n : Network) : Array (List Nat) :=
  n.gates.foldr
    (fun gate uses =>
      match n.fanIns? gate with
      | some (a, b) => (uses.modify b.node (gate :: ·)).modify a.node (gate :: ·)
      | none => uses)
    (Array.replicate n.size [])

/-- For every node the number of its fan-ins. -/
def fanInCounts (n : Network) : Array Nat :=
  n.nodes.map fun s => if s.dead then 0 else s.fanInCount

/-- The live nodes without fan-ins: where every order begins. -/
def sources (n : Network) : Array Nat := (n.liveNodes.filter (!n.isGate ·)).toArray

/-- Marks the listed nodes. -/
def marks (n : Network) (nodes : Array Nat) : Array Bool :=
  nodes.foldl (fun seen node => seen.setIfInBounds node true) (Array.replicate n.size false)

/-- The live nodes in order, as far as there is one. -/
def topology (n : Network) : Topology :=
  let order := (Sweep.run n.useLists n.size 0 ⟨n.sources, n.fanInCounts⟩).order
  let seen := n.marks order
  ⟨order, n.liveNodes.filter fun node => !seen.getD node false⟩

/-- All live nodes, fan-ins first. -/
def order (n : Network) : Except Fault (Array Nat) :=
  match n.topology with
  | ⟨order, []⟩ => .ok order
  | ⟨order, unvisited⟩ => .error (.noOrder order.size unvisited)

/-- The check that there is an order; the context says who asks. -/
def checkAcyclic (n : Network) (context : String) : Except Fault Unit :=
  match n.topology with
  | ⟨_, []⟩ => .ok ()
  | ⟨order, unvisited⟩ => .error (.cycle context order.size unvisited.length)

/-- Marks the nodes of a worklist and all that they depend on. -/
def markCone (n : Network) : (bound : Nat) → List Nat → Array Bool → Array Bool
  | 0, _, seen => seen
  | _, [], seen => seen
  | bound + 1, node :: rest, seen =>
    if seen.getD node true then
      n.markCone bound rest seen
    else
      let seen := seen.setIfInBounds node true
      match n.fanIns? node with
      | some (a, b) => n.markCone bound (b.node :: a.node :: rest) seen
      | none => n.markCone bound rest seen

/-- Marks the nodes that the outputs depend on.  Every node is marked once and then puts at
most two fan-ins on the worklist. -/
def outputCone (n : Network) : Array Bool :=
  n.markCone (n.outputs.size + 2 * n.size) (n.outputs.toList.map (·.node))
    (Array.replicate n.size false)

/-- The nodes that the outputs depend on, fan-ins first. -/
def coneOrder (n : Network) : Except Fault (Array Nat) := do
  let order ← n.order
  let cone := n.outputCone
  return order.filter fun node => cone.getD node false

end Network

end AndInverter
