import AndInverter.Network.Basic

/-!
Changes of a network that can fail.  A failing change keeps the network as the failure left
it, so an edit is a state transition that ends well or with a `Fault`.

The use counters and the marks on the nodes are 32 bits wide: `counterLimit` is the largest
value, and counting past it is a fault.
-/

namespace AndInverter

/-- **An edit** of a network, with a result. -/
abbrev Edit := EStateM Fault Network

/-- The largest value of a counter. -/
def counterLimit : Nat := 0xFFFFFFFF

namespace Edit

variable {α : Type}

/-- Looks at the network. -/
def view (f : Network → α) : Edit α := fun n => .ok (f n) n

/-- Looks at the network, which may fail. -/
def query (f : Network → Except Fault α) : Edit α := fun n =>
  match f n with
  | .ok a => .ok a n
  | .error e => .error e n

/-- Changes the network without fail. -/
def update (f : Network → Network) : Edit Unit := fun n => .ok () (f n)

/-- The node at a position, which has to exist. -/
def slot (node : Nat) : Edit Slot := query (·.read node)

/-- Changes the node at a position, which has to exist. -/
def modifySlot (node : Nat) (f : Slot → Slot) : Edit Unit := do
  let _ ← slot node
  update (·.modifySlot node f)

/-! ### Use counters -/

/-- Counts one more use of a node; the result is the new count. -/
def raiseFanout (node : Nat) : Edit Nat := do
  let s ← slot node
  if s.fanout < counterLimit then
    update (·.modifySlot node ({ · with fanout := s.fanout + 1 }))
    return s.fanout + 1
  else
    throw .counterOverflow

/-- Counts one use of a node less; the result is the new count. -/
def lowerFanout (node : Nat) : Edit Nat := do
  let s ← slot node
  if s.fanout = 0 then
    throw (.fanoutUnderflow node)
  else
    update (·.modifySlot node ({ · with fanout := s.fanout - 1 }))
    return s.fanout - 1

/-! ### Marks -/

def setValue (node value : Nat) : Edit Unit := modifySlot node ({ · with value })

def setVisited (node visited : Nat) : Edit Unit := modifySlot node ({ · with visited })

def setColor (node color : Nat) : Edit Unit := modifySlot node ({ · with color })

/-- Adds one to the value of a node; the result is the new value. -/
def raiseValue (node : Nat) : Edit Nat := do
  let s ← slot node
  if s.value < counterLimit then
    setValue node (s.value + 1)
    return s.value + 1
  else
    throw .counterOverflow

/-- Takes one from the value of a node, down to zero; the result is the new value. -/
def lowerValue (node : Nat) : Edit Nat := do
  let s ← slot node
  setValue node (s.value - 1)
  return s.value - 1

def clearValues : Edit Unit :=
  update fun n => { n with nodes := n.nodes.map ({ · with value := 0 }) }

def clearVisited : Edit Unit :=
  update fun n => { n with nodes := n.nodes.map ({ · with visited := 0 }) }

/-- A colour that was never handed out before. -/
def newColor : Edit Nat := do
  let last ← view (·.lastColor)
  if last < counterLimit then
    update ({ · with lastColor := last + 1 })
    return last + 1
  else
    throw .counterOverflow

/-! ### Listeners -/

/-- Adds a listener that reads a mailbox. -/
def subscribe (mailbox : Nat) : Edit ListenerId := do
  let (id, listeners) ← view (·.listeners.subscribe mailbox)
  update ({ · with listeners })
  return id

/-- Empties the mailboxes; the result is what was in them, oldest first. -/
def takeDeliveries : Edit (List Delivery) := do
  let deliveries ← view (·.deliveries.toList)
  update ({ · with deliveries := #[] })
  return deliveries

/-- Drops a listener; the result tells whether there was one. -/
def unsubscribe (id : ListenerId) : Edit Bool := do
  let found ← view (·.listeners.isSubscribed id)
  update fun n => { n with listeners := n.listeners.unsubscribe id }
  return found

end Edit

end AndInverter
