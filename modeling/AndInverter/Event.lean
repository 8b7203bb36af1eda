import AndInverter.Signal

/-!
What a network tells its listeners.  A listener owns a mailbox; every event is delivered to
the mailboxes of all listeners, in the order in which they subscribed.
-/

namespace AndInverter

/-- A change of a network. -/
inductive Event where
  /-- A node, input or gate, came into being. -/
  | added (node : Nat)
  /-- A gate got new fan-ins in place of these. -/
  | modified (node : Nat) (oldFanIns : Signal × Signal)
  /-- A gate was retired. -/
  | deleted (node : Nat)
  /-- An output was appended. -/
  | outputAdded (index : Nat)
  /-- An output got a new driver in place of this one. -/
  | outputModified (index : Nat) (old : Signal)
deriving DecidableEq

/-- The number under which a listener is known. -/
structure ListenerId where
  number : Nat
deriving DecidableEq

instance : ToString ListenerId := ⟨fun id => s!"ListenerId({id.number})"⟩

/-- A subscription: a listener and the mailbox it reads. -/
structure Subscription where
  id : ListenerId
  mailbox : Nat
deriving DecidableEq

/-- An event in a mailbox. -/
structure Delivery where
  mailbox : Nat
  event : Event
deriving DecidableEq

/-- The listeners of a network, in the order in which they subscribed. -/
structure Listeners where
  nextNumber : Nat := 0
  subscriptions : List Subscription := []
deriving DecidableEq, Inhabited

namespace Listeners

/-- Adds a listener; numbers are never given twice. -/
def subscribe (ls : Listeners) (mailbox : Nat) : ListenerId × Listeners :=
  (⟨ls.nextNumber⟩, ⟨ls.nextNumber + 1, ls.subscriptions ++ [⟨⟨ls.nextNumber⟩, mailbox⟩]⟩)

/-- Drops the listener with this number. -/
def unsubscribe (ls : Listeners) (id : ListenerId) : Listeners :=
  { ls with subscriptions := ls.subscriptions.filter (·.id != id) }

/-- Is there a listener with this number? -/
def isSubscribed (ls : Listeners) (id : ListenerId) : Bool :=
  ls.subscriptions.any (·.id == id)

/-- The deliveries that one event causes. -/
def deliver (ls : Listeners) (event : Event) : List Delivery :=
  ls.subscriptions.map fun s => ⟨s.mailbox, event⟩

/-- The number of listeners. -/
def count (ls : Listeners) : Nat := ls.subscriptions.length

instance : ToString Listeners := ⟨fun ls => s!"Listeners \x7b count: {ls.count} \x7d"⟩

@[simp] theorem count_default : ({} : Listeners).count = 0 := rfl

@[simp] theorem count_subscribe (ls : Listeners) (mailbox : Nat) :
    (ls.subscribe mailbox).2.count = ls.count + 1 := by
  simp [subscribe, count]

@[simp] theorem deliver_default (event : Event) : ({} : Listeners).deliver event = [] := rfl

end Listeners

end AndInverter
