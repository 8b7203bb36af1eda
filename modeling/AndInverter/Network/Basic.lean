import AndInverter.Conjunction
import AndInverter.Event
import AndInverter.Fault

/-!
The network itself.  Nodes keep their position for life: a retired node stays where it is and
is marked dead, so a position taken before a change is meaningful after it.

* `Network` holds the nodes, the structural hash that maps the operands of a gate to it, the
  inputs and outputs, and counters;
* `Network.fanIns?` and `Network.gates` are the views on which everything else is built;
* `Network.notify` and `Network.advance` record that something changed.
-/

namespace AndInverter

/-- What a node computes. -/
inductive NodeKind where
  /-- The constant false. -/
  | constant
  /-- The input at this position of the list of inputs. -/
  | input (index : Nat)
  /-- The conjunction of two signals. -/
  | gate (a b : Signal)
deriving DecidableEq, Inhabited

/-- The operands of a gate. -/
def NodeKind.fanIns? : NodeKind → Option (Signal × Signal)
  | .gate a b => some (a, b)
  | _ => none

/-- A node with its use count and the marks that walks over the network leave on it. -/
structure Slot where
  kind : NodeKind
  /-- Uses as fan-in of live gates and as driver of outputs. -/
  fanout : Nat := 0
  dead : Bool := false
  value : Nat := 0
  visited : Nat := 0
  color : Nat := 0
deriving DecidableEq, Inhabited

namespace Slot

/-- The operands of a gate, dead or alive. -/
def fanIns? (s : Slot) : Option (Signal × Signal) := s.kind.fanIns?

def isGate (s : Slot) : Bool := s.fanIns?.isSome

/-- The number of operands. -/
def fanInCount (s : Slot) : Nat := if s.isGate then 2 else 0

def isConstant (s : Slot) : Bool := s.kind == .constant

def isInput (s : Slot) : Bool :=
  match s.kind with
  | .input _ => true
  | _ => false

def isLiveGate (s : Slot) : Bool := !s.dead && s.isGate

end Slot

/-- **An and-inverter network.** -/
structure Network where
  nodes : Array Slot
  /-- The gate that computes the conjunction with a given key. -/
  hash : Std.ExtTreeMap AndKey Nat
  inputs : Array Nat
  outputs : Array Signal
  liveGates : Nat
  /-- Counts the changes that can move a node to another level. -/
  generation : Nat
  /-- The colour that was handed out last. -/
  lastColor : Nat
  listeners : Listeners
  /-- What the listeners were told, oldest first. -/
  deliveries : Array Delivery
deriving Inhabited

namespace Network

/-- The network that consists of the constant alone. -/
def empty : Network where
  nodes := #[{ kind := .constant }]
  hash := ∅
  inputs := #[]
  outputs := #[]
  liveGates := 0
  generation := 0
  lastColor := 0
  listeners := {}
  deliveries := #[]

instance : EmptyCollection Network := ⟨empty⟩

/-- The same network for another owner: listeners do not follow. -/
def copy (n : Network) : Network := { n with listeners := {}, deliveries := #[] }

/-! ### Views -/

/-- The number of nodes, dead ones included. -/
def size (n : Network) : Nat := n.nodes.size

def slot? (n : Network) (node : Nat) : Option Slot := n.nodes[node]?

/-- The operands of a gate, dead or alive. -/
def fanIns? (n : Network) (node : Nat) : Option (Signal × Signal) :=
  (n.slot? node).bind Slot.fanIns?

def isLive (n : Network) (node : Nat) : Bool := (n.slot? node).any (!·.dead)

def isDead (n : Network) (node : Nat) : Bool := (n.slot? node).any (·.dead)

def isGate (n : Network) (node : Nat) : Bool := (n.slot? node).any (·.isGate)

def isInput (n : Network) (node : Nat) : Bool := (n.slot? node).any (·.isInput)

def isLiveGate (n : Network) (node : Nat) : Bool := (n.slot? node).any (·.isLiveGate)

/-- The use count of a node. -/
def fanout (n : Network) (node : Nat) : Nat := ((n.slot? node).map (·.fanout)).getD 0

/-- The live nodes, in the order of their positions. -/
def liveNodes (n : Network) : List Nat := (List.range n.size).filter n.isLive

/-- The live gates, in the order of their positions. -/
def gates (n : Network) : List Nat := (List.range n.size).filter n.isLiveGate

/-- Does the gate read from this node? -/
def reads (n : Network) (gate node : Nat) : Bool :=
  (n.fanIns? gate).any fun (a, b) => a.node == node || b.node == node

/-- The live gates that read from a node, in the order of their positions. -/
def consumers (n : Network) (node : Nat) : List Nat := n.gates.filter (n.reads · node)

/-- The node at a position, which has to exist. -/
def read (n : Network) (node : Nat) : Except Fault Slot :=
  match n.slot? node with
  | some s => .ok s
  | none => .error .indexOutOfBounds

/-- A node has to exist and be live to be an operand. -/
def requireLive (n : Network) (operation : Operation) (node : Nat) : Except Fault Unit :=
  match n.slot? node with
  | none => .error (.operandOutOfBounds operation node n.size)
  | some s => if s.dead then .error (.deadOperand operation node) else .ok ()

/-! ### Changes -/

/-- Tells the listeners. -/
def notify (n : Network) (event : Event) : Network :=
  { n with deliveries := n.deliveries ++ n.listeners.deliver event }

/-- Levels may have changed. -/
def advance (n : Network) : Network := { n with generation := n.generation + 1 }

/-- Changes the node at a position, if there is one. -/
def modifySlot (n : Network) (node : Nat) (f : Slot → Slot) : Network :=
  { n with nodes := n.nodes.modify node f }

/-- Appends a node. -/
def pushNode (n : Network) (kind : NodeKind) : Network :=
  { n with nodes := n.nodes.push { kind } }

/-! ### The views after a change -/

@[simp] theorem size_empty : empty.size = 1 := rfl

@[simp] theorem size_notify (n : Network) (event : Event) : (n.notify event).size = n.size := rfl

@[simp] theorem size_advance (n : Network) : n.advance.size = n.size := rfl

@[simp] theorem size_modifySlot (n : Network) (node : Nat) (f : Slot → Slot) :
    (n.modifySlot node f).size = n.size := by
  simp [modifySlot, size]

@[simp] theorem size_pushNode (n : Network) (kind : NodeKind) :
    (n.pushNode kind).size = n.size + 1 := by
  simp [pushNode, size]

@[simp] theorem slot?_notify (n : Network) (event : Event) :
    (n.notify event).slot? = n.slot? := rfl

@[simp] theorem slot?_advance (n : Network) : n.advance.slot? = n.slot? := rfl

theorem slot?_modifySlot (n : Network) (node : Nat) (f : Slot → Slot) (i : Nat) :
    (n.modifySlot node f).slot? i = if node = i then (n.slot? i).map f else n.slot? i := by
  simp [modifySlot, slot?, Array.getElem?_modify]

theorem slot?_pushNode (n : Network) (kind : NodeKind) (i : Nat) :
    (n.pushNode kind).slot? i = if i = n.size then some { kind } else n.slot? i :=
  Array.getElem?_push

theorem slot?_eq_none_iff (n : Network) (node : Nat) : n.slot? node = none ↔ n.size ≤ node := by
  simp [slot?, size]

end Network

end AndInverter
