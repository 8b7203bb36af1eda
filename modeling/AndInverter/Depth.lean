import AndInverter.Network.Topology

/-!
Levels and critical paths.  The level of a gate is one more than the larger level of its
fan-ins; inputs, the constant and dead nodes have level 0.  The depth of a network is the
largest level among the drivers of its outputs, and a node is critical when a longest path to
an output passes through it.

A `DepthView` is a snapshot of all this.  It remembers the generation of the network it was
taken of, and its answers are only to be had while the network still has that generation.
-/

namespace AndInverter

namespace Network

/-- The levels of all nodes, given an order of the live ones. -/
def levelsAlong (n : Network) (order : Array Nat) : Array Nat :=
  order.foldl
    (fun levels node =>
      match n.fanIns? node with
      | some (a, b) =>
        levels.setIfInBounds node (1 + max (levels.getD a.node 0) (levels.getD b.node 0))
      | none => levels)
    (Array.replicate n.size 0)

/-- The levels of all nodes. -/
def levels (n : Network) : Except Fault (Array Nat) := return n.levelsAlong (← n.order)

/-- The largest of these levels among the drivers of the outputs. -/
def outputDepth (n : Network) (levels : Array Nat) : Nat :=
  n.outputs.foldl (fun depth s => max depth (levels.getD s.node 0)) 0

end Network

/-- For every node the number of gates on a longest path up to an output, and whether there
is such a path at all. -/
structure Heights where
  height : Array Nat
  reaches : Array Bool

/-- A fan-in of a gate of height `h` that reaches an output. -/
def Heights.raise (hs : Heights) (h : Nat) (s : Signal) : Heights :=
  ⟨hs.height.modify s.node (max · (h + 1)), hs.reaches.setIfInBounds s.node true⟩

/-- The heights of all nodes, given an order of the live ones. -/
def Network.heightsAlong (n : Network) (order : Array Nat) : Heights :=
  order.foldr
    (fun node hs =>
      if hs.reaches.getD node false then
        match n.fanIns? node with
        | some (a, b) =>
          let h := hs.height.getD node 0
          (hs.raise h a).raise h b
        | none => hs
      else hs)
    ⟨Array.replicate n.size 0, n.marks (n.outputs.map (·.node))⟩

/-- **A depth view**: levels, critical nodes and depth of a network at one generation. -/
structure DepthView where
  levels : Array Nat
  critical : Array Bool
  depth : Nat
  generation : Nat
deriving Inhabited

namespace DepthView

/-- Is a node on a path of full depth? -/
def isCritical (levels : Array Nat) (hs : Heights) (depth node : Nat) : Bool :=
  hs.reaches.getD node false && levels.getD node 0 + hs.height.getD node 0 == depth

/-- The view of a network as it is. -/
def ofNetwork (n : Network) : Except Fault DepthView := do
  let order ← n.order
  let levels := n.levelsAlong order
  let depth := n.outputDepth levels
  let heights := n.heightsAlong order
  return {
    levels
    critical := n.marks (order.filter (isCritical levels heights depth))
    depth
    generation := n.generation }

/-- Did the network change since the view was taken? -/
def isStale (v : DepthView) (n : Network) : Bool := v.generation != n.generation

/-- Only a fresh view answers. -/
def requireFresh (v : DepthView) (n : Network) (question : DepthQuestion) : Except Fault Unit :=
  if v.isStale n then .error (.staleView question v.generation n.generation) else .ok ()

/-- The level of a node. -/
def levelOf (v : DepthView) (n : Network) (node : Nat) : Except Fault Nat := do
  v.requireFresh n .level
  match v.levels[node]? with
  | some level => return level
  | none => throw .indexOutOfBounds

/-- Is the node on a path of full depth? -/
def criticalAt (v : DepthView) (n : Network) (node : Nat) : Except Fault Bool := do
  v.requireFresh n .critical
  match v.critical[node]? with
  | some critical => return critical
  | none => throw .indexOutOfBounds

/-- The depth of the network. -/
def currentDepth (v : DepthView) (n : Network) : Except Fault Nat := do
  v.requireFresh n .depth
  return v.depth

/-- The number of critical nodes. -/
def criticalCount (v : DepthView) : Nat := v.critical.countP id

end DepthView

end AndInverter
