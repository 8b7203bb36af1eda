import AndInverter.Proofs.Network.Steady

/-!
What a network has from the way in which it came about: inputs are appended, so they stand in
the order of their positions, and a use is only counted while its counter has room.

* `Network.Regular`: a network of this kind;
* `steady_staysRegular`: every edit of the gates and outputs keeps it so;
* `Regular.addInput`: and so does a new input.
-/

namespace AndInverter

open Network

variable {n m : Network} {v : Nat} {s : Signal}

/-- **A regular network**: its inputs stand in the order of their positions, and no use counter
is past its limit. -/
structure Network.Regular (n : Network) : Prop where
  inputs : n.inputs.toList.Pairwise (· < ·)
  fanout_le : ∀ v, n.fanout v ≤ counterLimit

/-- What follows a regular network is regular. -/
def Network.StaysRegular (n m : Network) : Prop := n.Regular → m.Regular

lemma regular_empty : Network.empty.Regular where
  inputs := .nil
  fanout_le v := (fanout_empty v).le.trans (Nat.zero_le _)

namespace Edit

lemma ensures_update {f : Network → Network} (hinputs : ∀ n, (f n).inputs = n.inputs)
    (hfanout : ∀ n v, (f n).fanout v = n.fanout v) : Ensures StaysRegular (update f) := by
  refine .update fun n hn => ⟨?_, fun v => (hfanout n v).le.trans (hn.fanout_le v)⟩
  rw [hinputs]
  exact hn.inputs

lemma ensures_modifySlot {g : Nat} {f : Slot → Slot} (hf : ∀ s, (f s).fanout = s.fanout) :
    Ensures StaysRegular (modifySlot g f) := by
  refine .modifySlot fun n hn => ⟨hn.inputs, fun v => ?_⟩
  rw [fanout_modifySlot]
  simp only [hf]
  exact (ite_self (n.fanout v)).le.trans (hn.fanout_le v)

lemma ensures_unhash (g : Nat) (key : AndKey) : Ensures StaysRegular (unhash g key) :=
  .unhash fun _ _ hn => ⟨hn.inputs, hn.fanout_le⟩

/-- A use is counted while there is room for it. -/
lemma gradual_staysRegular : Gradual StaysRegular where
  refl _ := id
  trans h h' hn := h' (h hn)
  raise v n _ m hrun hn := by
    obtain ⟨s, hs, hlt, -, rfl⟩ := raiseFanout_eq_ok.mp hrun
    refine ⟨hn.inputs, fun u => ?_⟩
    rw [fanout_modifySlot]
    split_ifs with huv
    · rw [← huv, hs]
      exact hlt
    · exact hn.fanout_le u
  lower v n _ m hrun hn := by
    obtain ⟨hsame, -, hfanout⟩ := lowerFanout_spec hrun
    refine ⟨by rw [hsame.inputs]; exact hn.inputs, fun u => ?_⟩
    exact (Nat.le_add_right _ _).trans ((hfanout u).le.trans (hn.fanout_le u))

lemma ensures_retireOne (g : Nat) (a b : Signal) : Ensures StaysRegular (retireOne g a b) := by
  have h := gradual_staysRegular
  exact h.bind (ensures_modifySlot fun _ => rfl) fun _ => h.bind (ensures_unhash _ _) fun _ =>
    h.bind (ensures_update (fun _ => rfl) fun _ _ => rfl) fun _ =>
      h.bind (h.releaseFanIn a) fun _ => h.bind (h.releaseFanIn b) fun _ => h.pure _

lemma ensures_rewire (g : Nat) (a b : Signal) (key : AndKey) (old new : Nat) :
    Ensures StaysRegular (rewire g a b key old new) := by
  have h := gradual_staysRegular
  exact h.bind (ensures_unhash _ _) fun _ => h.bind (ensures_modifySlot fun _ => rfl) fun _ =>
    h.bind (ensures_update (fun _ => rfl) fun _ _ => rfl) fun _ => h.bind (h.lower old) fun _ =>
      h.bind (h.raise new) fun _ => ensures_update (fun _ => rfl) fun _ _ => rfl

/-- **Edits keep a network regular**, as far as they change gates and outputs. -/
theorem steady_staysRegular : Steady StaysRegular where
  toGradual := gradual_staysRegular
  retireOne _ hrun := ensures_retireOne _ _ _ _ _ _ hrun
  rewire _ hrun := ensures_rewire _ _ _ _ _ _ _ _ _ hrun
  replaceInOutputs old new := by
    have h := gradual_staysRegular
    refine h.bind (h.view _) fun _ => h.bind (h.forM fun x _ => ?_) fun _ => ?_
    · exact h.bind (ensures_update (fun _ => rfl) fun _ _ => rfl) fun _ =>
        h.bind (h.lower old) fun _ => h.bind (h.raise new.node) fun _ =>
          ensures_update (fun _ => rfl) fun _ _ => rfl
    · exact .ite (h.bind (ensures_update (fun _ => rfl) fun _ _ => rfl) fun _ => h.pure _)
        (h.pure _)
  allocate key := by
    have h := gradual_staysRegular
    exact h.bind (h.view _) fun _ =>
      h.bind (ensures_update (fun _ => rfl) fun n v => fanout_pushNode n _ v) fun _ =>
        h.bind (h.raise _) fun _ => h.bind (h.raise _) fun _ =>
          h.bind (ensures_update (fun _ => rfl) fun _ _ => rfl) fun _ => h.pure _

lemma ensures_addOutput (s : Signal) : Ensures StaysRegular (addOutput s) := by
  have h := gradual_staysRegular
  exact h.bind (h.query _) fun _ => h.bind (h.raise _) fun _ => h.bind (h.view _) fun _ =>
    h.bind (ensures_update (fun _ => rfl) fun _ _ => rfl) fun _ => h.pure _

end Edit

/-- **A new input** has the highest position. -/
theorem Network.Regular.addInput (h : n.Regular) (hn : n.WellFormed)
    (hrun : Edit.addInput n = .ok s m) : m.Regular := by
  obtain ⟨-, -, hinputs, -, -, hfanout⟩ := addInput_effect hrun
  refine ⟨?_, fun v => (hfanout v).le.trans (h.fanout_le v)⟩
  rw [hinputs, Array.toList_push, List.pairwise_append]
  refine ⟨h.inputs, List.pairwise_singleton _ _, fun v hv u hu => ?_⟩
  obtain ⟨i, hi⟩ := Array.mem_iff_getElem?.mp (Array.mem_toList_iff.mp hv)
  obtain ⟨p, hp, -⟩ := Option.map_eq_some_iff.mp ((hn.input_iff i v).mp hi)
  rw [List.mem_singleton.mp hu]
  exact lt_size_of_shape hp

end AndInverter
