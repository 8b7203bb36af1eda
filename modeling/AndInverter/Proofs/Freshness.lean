import AndInverter.Proofs.History

/-!
Views that are kept while their network is worked at.  Whether a view is stale is decided by its
generation alone, so whatever changes the graph has to step the generation.

* `Network.Unmoved`: the same graph at the same generation;
* `Adjustment`: what is done to counters, marks and listeners, and `Adjustment.unmoved`: it
  moves nothing;
* `Action.Yields.paces`: every action keeps pace;
* `DepthView.Watches`: a view, and a network that was worked at since the view was taken;
* `watches_exact`: a view that is not stale is the one that would be taken now.
-/

namespace AndInverter

open Network

/-! ### Counters, marks and listeners -/

/-- **An unmoved network**: neither its graph nor its generation changed. -/
structure Network.Unmoved (n m : Network) : Prop extends SameGraph n m where
  generation : m.generation = n.generation

/-- What is kept beside the graph does not move it. -/
lemma Network.Unmoved.beside (n : Network) (lastColor : Nat) (listeners : Listeners)
    (deliveries : Array Delivery) : n.Unmoved { n with lastColor, listeners, deliveries } :=
  ⟨⟨⟨rfl, rfl, rfl, rfl, rfl⟩, rfl⟩, rfl⟩

/-- **An adjustment**: what can be done to a network apart from changing gates and outputs. -/
inductive Adjustment where
  | raiseFanout (node : Nat)
  | lowerFanout (node : Nat)
  | setValue (node value : Nat)
  | raiseValue (node : Nat)
  | lowerValue (node : Nat)
  | clearValues
  | setVisited (node visited : Nat)
  | clearVisited
  | setColor (node color : Nat)
  | newColor
  | subscribe (mailbox : Nat)
  | unsubscribe (id : ListenerId)
  | takeDeliveries

/-- Makes an adjustment. -/
def Adjustment.run : Adjustment → Edit Unit
  | raiseFanout node => do
    let _ ← Edit.raiseFanout node
    return ()
  | lowerFanout node => do
    let _ ← Edit.lowerFanout node
    return ()
  | setValue node value => Edit.setValue node value
  | raiseValue node => do
    let _ ← Edit.raiseValue node
    return ()
  | lowerValue node => do
    let _ ← Edit.lowerValue node
    return ()
  | clearValues => Edit.clearValues
  | setVisited node visited => Edit.setVisited node visited
  | clearVisited => Edit.clearVisited
  | setColor node color => Edit.setColor node color
  | newColor => do
    let _ ← Edit.newColor
    return ()
  | subscribe mailbox => do
    let _ ← Edit.subscribe mailbox
    return ()
  | unsubscribe id => do
    let _ ← Edit.unsubscribe id
    return ()
  | takeDeliveries => do
    let _ ← Edit.takeDeliveries
    return ()

namespace Edit

lemma gradual_unmoved : Gradual Unmoved where
  refl n := ⟨.refl n, rfl⟩
  trans h h' := ⟨h.toSameGraph.trans h'.toSameGraph, h'.generation.trans h.generation⟩
  raise _ _ _ _ hrun := ⟨(raiseFanout_spec hrun).1, generation_of_raise hrun⟩
  lower _ _ _ _ hrun := ⟨(lowerFanout_spec hrun).1, generation_of_lower hrun⟩

/-- A mark is no part of the graph. -/
lemma unmoved_modifySlot {v : Nat} {f : Slot → Slot}
    (hf : ∀ s, ((f s).kind, (f s).dead) = (s.kind, s.dead)) : Ensures Unmoved (modifySlot v f) := by
  exact .modifySlot fun n => ⟨sameGraph_modifySlot n v hf, rfl⟩

/-- Nor are all marks together. -/
lemma unmoved_map {f : Slot → Slot} (hf : ∀ s, ((f s).kind, (f s).dead) = (s.kind, s.dead)) :
    Ensures Unmoved (update fun n => { n with nodes := n.nodes.map f }) := by
  refine .update fun n => ⟨⟨⟨Array.size_map, ?_, rfl, rfl, rfl⟩, rfl⟩, rfl⟩
  funext v
  simp only [shape, slot?, Array.getElem?_map, Option.map_map]
  exact congrArg (Option.map · _) (funext hf)

end Edit

open Edit in
/-- **An adjustment moves nothing.** -/
theorem Adjustment.unmoved (a : Adjustment) : Ensures Unmoved a.run := by
  have h := gradual_unmoved
  cases a with
  | raiseFanout node => exact h.bind (h.raise node) fun _ => h.pure _
  | lowerFanout node => exact h.bind (h.lower node) fun _ => h.pure _
  | setValue => exact unmoved_modifySlot fun _ => rfl
  | raiseValue node =>
      refine h.bind (h.bind (h.slot node) fun s => .ite ?_ (Gradual.throw _)) fun _ => h.pure _
      exact h.bind (unmoved_modifySlot fun _ => rfl) fun _ => h.pure _
  | lowerValue node =>
      refine h.bind (h.bind (h.slot node) fun s => ?_) fun _ => h.pure _
      exact h.bind (unmoved_modifySlot fun _ => rfl) fun _ => h.pure _
  | clearValues => exact unmoved_map fun _ => rfl
  | setVisited => exact unmoved_modifySlot fun _ => rfl
  | clearVisited => exact unmoved_map fun _ => rfl
  | setColor => exact unmoved_modifySlot fun _ => rfl
  | newColor =>
      refine h.bind (h.bind (h.view _) fun last => .ite ?_ (Gradual.throw _)) fun _ => h.pure _
      exact h.bind (.update fun n => .beside n _ _ _) fun _ => h.pure _
  | subscribe mailbox =>
      refine h.bind (h.bind (h.view _) fun _ => ?_) fun _ => h.pure _
      exact h.bind (.update fun n => .beside n _ _ _) fun _ => h.pure _
  | unsubscribe id =>
      refine h.bind (h.bind (h.view _) fun _ => ?_) fun _ => h.pure _
      exact h.bind (.update fun n => .beside n _ _ _) fun _ => h.pure _
  | takeDeliveries =>
      refine h.bind (h.bind (h.view _) fun _ => ?_) fun _ => h.pure _
      exact h.bind (.update fun n => .beside n _ _ _) fun _ => h.pure _

/-! ### Actions -/

variable {n m : Network} {a : Action}

/-- **Every action keeps pace**, allowed or not. -/
theorem Action.Yields.paces (h : a.Yields n m) : n.Paces m := by
  have hsteady := Edit.steady_paces
  cases h with
  | addInput h => exact Edit.keepsPace_addInput _ _ _ h
  | addOutput h => exact Edit.keepsPace_addOutput _ _ _ _ h
  | connect h => exact hsteady.ensures_build _ _ _ _ _ _ h
  | replaceInOutputs h => exact Edit.keepsPace_replaceInOutputs _ _ _ _ _ h
  | replaceInGate h => exact Edit.keepsPace_replaceInGate _ _ _ _ _ _ h
  | substitute h => exact Edit.keepsPace_substitute _ _ _ _ _ h
  | retire h => exact hsteady.retire _ _ _ _ h
  | restructure h => exact restructure_steady hsteady h

lemma Network.Unmoved.paces (h : n.Unmoved m) : n.Paces m :=
  ⟨h.generation.ge, fun _ => h.toSameGraph⟩

/-! ### Views -/

namespace DepthView

variable {view : DepthView} {v level depth : Nat} {critical : Bool}

/-- **A view that watches a network**: the network was worked at, by any actions and adjustments,
since the view was taken. -/
inductive Watches : DepthView → Network → Prop
  | taken {view : DepthView} {n : Network} (h : ofNetwork n = .ok view) : Watches view n
  | act {view : DepthView} {n m : Network} {a : Action} (h : Watches view n)
    (hyields : a.Yields n m) : Watches view m
  | adjust {view : DepthView} {n m : Network} {a : Adjustment} (h : Watches view n)
    (hrun : a.run n = .ok () m) : Watches view m

/-- The network that the view was taken of is an earlier one. -/
lemma Watches.exists_paces (h : view.Watches n) : ∃ l, ofNetwork l = .ok view ∧ l.Paces n := by
  induction h with
  | taken h => exact ⟨_, h, .refl _⟩
  | act _ hyields ih =>
      obtain ⟨l, hl, hpaces⟩ := ih
      exact ⟨l, hl, hpaces.trans hyields.paces⟩
  | adjust _ hrun ih =>
      obtain ⟨l, hl, hpaces⟩ := ih
      exact ⟨l, hl, hpaces.trans (Adjustment.unmoved _ _ _ _ hrun).paces⟩

/-- **A view that is not stale** is the one that would be taken now. -/
lemma Watches.ofNetwork_eq_ok (h : view.Watches n) (hfresh : view.isStale n = false) :
    ofNetwork n = .ok view := by
  obtain ⟨l, hl, hpaces⟩ := h.exists_paces
  have hgeneration : n.generation = l.generation :=
    (bne_eq_false_iff_eq.mp hfresh).symm.trans (describes_ofNetwork hl).1.generation
  rw [ofNetwork_congr (hpaces.same hgeneration) hgeneration, hl]

lemma requireFresh_eq_ok {question : DepthQuestion} {u : Unit} :
    view.requireFresh n question = .ok u ↔ view.isStale n = false := by
  rw [requireFresh]
  split_ifs with hstale <;> simp_all

/-- **What a view says is true now**: while it is not stale, it is the view that would be taken
of the network as it is, and whenever it answers, it answers from that. -/
theorem watches_exact (h : view.Watches n) :
    (view.isStale n = false → ofNetwork n = .ok view) ∧
      (∀ v level, view.levelOf n v = .ok level → n.level v = level) ∧
      (∀ v critical, view.criticalAt n v = .ok critical →
        ∃ now, ofNetwork n = .ok now ∧ now.critical[v]? = some critical) ∧
      ∀ depth, view.currentDepth n = .ok depth → n.depth = depth := by
  refine ⟨h.ofNetwork_eq_ok, ?_, ?_, ?_⟩
  · intro v level hlevel
    obtain ⟨_, hfresh, -⟩ := bind_eq_except_ok.mp hlevel
    have hnow := h.ofNetwork_eq_ok (requireFresh_eq_ok.mp hfresh)
    exact ((describes_ofNetwork hnow).1.levelOf_eq_ok.mp hlevel).2
  · intro v critical hcritical
    obtain ⟨_, hfresh, hread⟩ := bind_eq_except_ok.mp hcritical
    refine ⟨view, h.ofNetwork_eq_ok (requireFresh_eq_ok.mp hfresh), ?_⟩
    cases hget : view.critical[v]? with
    | none => simp [hget] at hread
    | some _ => simpa [hget, pure_eq_except_ok] using hread
  · intro depth hdepth
    obtain ⟨_, hfresh, -⟩ := bind_eq_except_ok.mp hdepth
    have hnow := h.ofNetwork_eq_ok (requireFresh_eq_ok.mp hfresh)
    exact (describes_ofNetwork hnow).1.currentDepth_eq_ok.mp hdepth

/-- A view watches how a gate is asked for that is there already, and how a mark is set. -/
theorem watches_exact_of_marked : ∃ view n m,
    ofNetwork n = .ok view ∧ view.Watches m ∧ m.nodes ≠ n.nodes ∧ view.isStale m = false ∧
      ofNetwork m = .ok view ∧ m.level 3 = 1 := by
  let n := Network.empty.assemble [.input, .input, .gate 2 4, .output 6]
  have hends : (match ofNetwork n with
    | .ok view => match Edit.addAnd (.ofNode 2) (.ofNode 1) n with
      | .ok _ l => match Edit.setColor 3 1 l with
        | .ok _ m => decide (m.nodes ≠ n.nodes) && !view.isStale m && decide (
            view.levelOf m 3 = .ok 1)
        | .error _ _ => false
      | .error _ _ => false
    | .error _ => false) = true := by decide +kernel
  cases hview : ofNetwork n with
  | error => simp [hview] at hends
  | ok view =>
  cases hand : Edit.addAnd (.ofNode 2) (.ofNode 1) n with
  | error => simp [hview, hand] at hends
  | ok s l =>
  cases hcolor : Edit.setColor 3 1 l with
  | error => simp [hview, hand, hcolor] at hends
  | ok u m =>
      simp only [hview, hand, hcolor, Bool.and_eq_true, decide_eq_true_eq,
        Bool.not_eq_true'] at hends
      obtain ⟨⟨hnodes, hfresh⟩, hlevel⟩ := hends
      have hact : view.Watches l := .act (a := .connect .and (.ofNode 2) (.ofNode 1))
        (.taken hview) (.connect hand)
      have hwatches : view.Watches m := .adjust (a := .setColor 3 1) hact hcolor
      obtain ⟨hexact, hlevels, -⟩ := watches_exact hwatches
      exact ⟨view, n, m, hview, hwatches, hnodes, hfresh, hexact hfresh, hlevels 3 1 hlevel⟩

end DepthView

end AndInverter
