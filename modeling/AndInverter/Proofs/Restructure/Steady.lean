import AndInverter.Proofs.Restructure.Derivation

/-!
A run of restructuring goes by elementary changes of its network, so what these respect holds
between the network that it starts from and its result.

* `Restructuring.Ensures`: a step ensures a relation between networks;
* `ensures_apply`: a law at a gate, and `ensures_runPasses`: all passes;
* `restructure_steady`: the whole run.
-/

namespace AndInverter

namespace Restructuring

variable {α β : Type} {R : Network → Network → Prop}

/-- **A step ensures a relation** between the network that it starts from and its result. -/
def Ensures (R : Network → Network → Prop) (r : Restructuring α) : Prop :=
  ∀ w a w', r w = .ok a w' → R w.network w'.network

variable (h : Edit.Steady R)

include h

/-! ### Sequences -/

lemma ensures_bind {r : Restructuring α} {f : α → Restructuring β} (hr : Ensures R r)
    (hf : ∀ a, Ensures R (f a)) : Ensures R (r >>= f) := by
  intro w b w' hrun
  obtain ⟨a, w₁, hra, hfa⟩ := bind_eq_ok.mp hrun
  exact h.trans (hr w a w₁ hra) (hf a w₁ b w' hfa)

lemma ensures_pure (a : α) : Ensures R (pure a : Restructuring α) := by
  intro w b w' hrun
  obtain ⟨-, rfl⟩ := pure_eq_ok.mp hrun
  exact h.refl _

lemma ensures_query (f : Network → DepthView → Except Fault α) : Ensures R (query f) := by
  intro w a w' hrun
  obtain ⟨-, rfl⟩ := query_eq_ok.mp hrun
  exact h.refl _

lemma ensures_look (f : Network → α) : Ensures R (look f) := by
  intro w a w' hrun
  obtain ⟨-, rfl⟩ := look_eq_ok.mp hrun
  exact h.refl _

lemma ensures_note (entry : LogEntry) : Ensures R (note entry) := by
  intro w a w' hrun
  rw [← note_eq_ok.mp hrun]
  exact h.refl _

omit h in
lemma ensures_edit {e : Edit α} (he : Edit.Ensures R e) : Ensures R (edit e) := by
  intro w a w' hrun
  obtain ⟨m, hm, rfl⟩ := edit_eq_ok.mp hrun
  exact he _ a m hm

omit h in
lemma ensures_ite {c : Prop} [Decidable c] {r s : Restructuring α} (hr : Ensures R r)
    (hs : Ensures R s) : Ensures R (if c then r else s) := by
  split_ifs
  · exact hr
  · exact hs

lemma ensures_refresh : Ensures R refresh := by
  intro w _ w' hrun
  rw [(refresh_eq_ok hrun).1]
  exact h.refl _

/-! ### A law at a gate -/

lemma ensures_substitute (gate : Nat) (target : Signal) : Ensures R (substitute gate target) :=
  ensures_bind h (ensures_edit (h.substitute gate target)) fun _ => ensures_note h _

lemma ensures_commit (gate : Nat) (s : Signal) (first : Nat) :
    Ensures R (commit gate s first) := by
  have hretire : Ensures R (edit (Edit.retireUnused first)) :=
    ensures_edit (h.retireUnused first)
  by_cases hgate : (s.node != gate) = true
  · simp only [commit, hgate, if_true]
    exact ensures_bind h (ensures_substitute h gate s) fun _ =>
      ensures_bind h hretire fun _ => ensures_pure h _
  · simp only [commit, if_neg hgate]
    exact ensures_bind h hretire fun _ => ensures_pure h _

lemma ensures_replace (gate : Nat) {build : Edit Signal} (entry : Signal → LogEntry)
    (hbuild : Edit.Ensures R build) : Ensures R (replace gate build entry) := by
  refine ensures_bind h (ensures_look h _) fun first => ensures_bind h (ensures_edit hbuild)
    fun s => ensures_bind h (ensures_commit h gate s first) fun progress => ?_
  cases progress with
  | true => exact ensures_bind h (ensures_note h _) fun _ => ensures_pure h _
  | false => exact ensures_pure h _

lemma ensures_act (gate : Nat) {build : α → Edit Signal} (entry : α → Signal → LogEntry)
    (hbuild : ∀ o, Edit.Ensures R (build o)) (found : Search α) :
    Ensures R (act gate build entry found) := by
  cases found with
  | absent reason =>
      cases reason with
      | none => exact ensures_pure h _
      | some reason => exact ensures_bind h (ensures_note h _) fun _ => ensures_pure h _
  | present o => exact ensures_replace h gate _ (hbuild o)

/-- **A law at a gate.** -/
lemma ensures_apply (law : Law) (gate : Nat) : Ensures R (apply law gate) := by
  cases law with
  | associativity =>
      exact ensures_bind h (ensures_query h _)
        (ensures_act h gate _ (Associativity.ensures_build h))
  | distributivity =>
      exact ensures_bind h (ensures_query h _)
        (ensures_act h gate _ (Distributivity.ensures_build h))
  | threeLevel =>
      exact ensures_bind h (ensures_query h _)
        (ensures_act h gate _ (ThreeLevel.ensures_build h))

lemma ensures_applyAndRefresh (law : Law) (gate : Nat) : Ensures R (applyAndRefresh law gate) := by
  refine ensures_bind h (ensures_look h _) fun generation =>
    ensures_bind h (ensures_apply h law gate) fun replaced =>
      ensures_bind h (ensures_look h _) fun generation' => ?_
  exact ensures_ite (ensures_bind h (ensures_refresh h) fun _ => ensures_pure h _)
    (ensures_pure h _)

/-! ### Passes -/

lemma ensures_applyFirst (gate : Nat) (laws : List Law) : Ensures R (applyFirst gate laws) := by
  induction laws with
  | nil => exact ensures_pure h _
  | cons law laws ih =>
      refine ensures_bind h (ensures_applyAndRefresh h law gate) fun replaced => ?_
      exact ensures_ite (ensures_pure h _) ih

lemma ensures_offer (laws : List Law) (tally : Tally) (gates : List Nat) :
    Ensures R (offer laws tally gates) := by
  induction gates generalizing tally with
  | nil => exact ensures_pure h _
  | cons gate gates ih =>
      refine ensures_bind h (ensures_query h _) fun slot => ensures_ite (ih _) ?_
      refine ensures_bind h (ensures_applyFirst h gate laws) fun law => ?_
      cases law with
      | none => exact ih _
      | some law => exact ih _

lemma ensures_nextPass (laws : List Law) (count : Nat) : Ensures R (nextPass laws count) :=
  ensures_bind h (ensures_bind h (ensures_look h _) fun _ => ensures_offer h laws _ _) fun _ =>
    ensures_bind h (ensures_query h _) fun _ => ensures_bind h (ensures_look h _) fun _ =>
      ensures_bind h (ensures_note h _) fun _ => ensures_pure h _

/-- **All passes.** -/
lemma ensures_runPasses (laws : List Law) (limit : Option Nat) (bound : Nat) (done : Passes) :
    Ensures R (runPasses laws limit bound done) := by
  induction bound generalizing done with
  | zero => exact fun _ _ _ hrun => (throw_eq_ok.mp hrun).elim
  | succ bound ih =>
      refine ensures_ite (ensures_bind h (ensures_note h _) fun _ => ensures_pure h _) ?_
      refine ensures_bind h (ensures_nextPass h laws _) fun tally => ?_
      exact ensures_ite (ensures_pure h _) (ih _)

lemma ensures_prepare (laws : List Law) : Ensures R (prepare laws) :=
  ensures_bind h (ensures_refresh h) fun _ => ensures_bind h (ensures_query h _) fun _ =>
    ensures_bind h (ensures_look h _) fun _ => ensures_bind h (ensures_note h _) fun _ =>
      ensures_pure h _

end Restructuring

open Restructuring

/-- **A run of restructuring** goes by elementary changes. -/
theorem restructure_steady {R : Network → Network → Prop} {n : Network} {o : RestructureOptions}
    {report : RestructureReport} {w : Workspace} (h : Edit.Steady R)
    (hrun : n.restructure o = .ok report w) : R n w.network := by
  simp only [Network.restructure, restructure, bind_eq_ok, query_eq_ok, look_eq_ok, note_eq_ok,
    pure_eq_ok] at hrun
  obtain ⟨found, w₁, hprepare, _, _, ⟨-, rfl⟩, passes, w₂, hpasses, _, _, ⟨-, rfl⟩, _, _,
    ⟨-, rfl⟩, _, w₃, hcheck, _, _, ⟨-, rfl⟩, _, _, rfl, -, rfl⟩ := hrun
  have hfirst : R n w₁.network := ensures_prepare h _ _ _ _ hprepare
  have hpassed : R w₁.network w₂.network := ensures_runPasses h _ _ _ _ _ _ _ hpasses
  simp only [checkAcyclic_network hcheck]
  exact h.trans hfirst hpassed

end AndInverter
