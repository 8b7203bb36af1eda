import AndInverter.Network.Substitute
import AndInverter.Proofs.Run
import AndInverter.Proofs.Network.Consistent

/-!
What the elementary changes do to a consistent network.

* `Consistent.raise`, `Consistent.lower`: to count a use is to set a pin, and to take one away
  is to remove it;
* `Network.Decays`: nodes only die, and without a use;
* `Network.DiffersAt`: one position of the graph changed.
-/

namespace AndInverter

namespace Network

variable {n m l : Network} {g u v : Nat} {a b s : Signal} {key : AndKey} {pins : Multiset Nat}

/-! ### Views after a change of one position -/

lemma shape_modifySlot (n : Network) (g : Nat) (f : Slot → Slot) (i : Nat) :
    (n.modifySlot g f).shape i
      = if g = i then (n.slot? i).map fun s => ((f s).kind, (f s).dead) else n.shape i := by
  rw [shape, slot?_modifySlot]
  by_cases h : g = i
  · rw [if_pos h, if_pos h, Option.map_map]
    rfl
  · rw [if_neg h, if_neg h]
    rfl

lemma fanout_modifySlot (n : Network) (g : Nat) (f : Slot → Slot) (i : Nat) :
    (n.modifySlot g f).fanout i
      = if g = i then ((n.slot? i).map fun s => (f s).fanout).getD 0 else n.fanout i := by
  rw [fanout, slot?_modifySlot]
  by_cases h : g = i
  · rw [if_pos h, if_pos h, Option.map_map]
    rfl
  · rw [if_neg h, if_neg h]
    rfl

/-- The graph does not see the counters and marks. -/
lemma sameGraph_modifySlot (n : Network) (g : Nat) {f : Slot → Slot}
    (hf : ∀ s, ((f s).kind, (f s).dead) = (s.kind, s.dead)) :
    SameGraph n (n.modifySlot g f) where
  size := size_modifySlot n g f
  shape := by
    funext i
    rw [shape_modifySlot]
    simp only [hf]
    exact ite_self _
  inputs := rfl
  outputs := rfl
  hash := rfl
  liveGates := rfl

lemma sameGraph_advance (n : Network) : SameGraph n n.advance := ⟨⟨rfl, rfl, rfl, rfl, rfl⟩, rfl⟩

lemma fanout_of_slot? {s : Slot} (h : n.slot? v = some s) : n.fanout v = s.fanout := by
  rw [fanout, h]
  rfl

/-! ### Decay -/

/-- **Decay**: nodes only die, without a use, and what is dead stays as it is. -/
structure Decays (n m : Network) : Prop where
  dead : ∀ v, n.isDead v = true → m.isDead v = true ∧ m.fanout v = n.fanout v
  live : ∀ v, n.isLive v = true →
    m.isLive v = true ∨ (m.isDead v = true ∧ m.fanout v = 0)

lemma Decays.refl (n : Network) : n.Decays n := ⟨fun _ h => ⟨h, rfl⟩, fun _ h => .inl h⟩

lemma Decays.trans (h : n.Decays m) (h' : m.Decays l) : n.Decays l where
  dead v hv := by
    obtain ⟨hm, hmf⟩ := h.dead v hv
    obtain ⟨hl, hlf⟩ := h'.dead v hm
    exact ⟨hl, hlf.trans hmf⟩
  live v hv := by
    rcases h.live v hv with hm | ⟨hm, hmf⟩
    · exact h'.live v hm
    · obtain ⟨hl, hlf⟩ := h'.dead v hm
      exact .inr ⟨hl, hlf.trans hmf⟩

lemma SameGates.decays (h : SameGates n m)
    (hf : ∀ v, n.isDead v = true → m.fanout v = n.fanout v) : n.Decays m where
  dead v hv := ⟨(h.isDead v).trans hv, hf v hv⟩
  live v hv := .inl ((h.isLive v).trans hv)

/-! ### Change of one position -/

/-- Two networks whose graphs differ at one position at most. -/
structure DiffersAt (n m : Network) (g : Nat) : Prop where
  size : m.size = n.size
  shape : ∀ i, i ≠ g → m.shape i = n.shape i
  inputs : m.inputs = n.inputs
  outputs : m.outputs = n.outputs

lemma DiffersAt.trans_sameGraph (h : DiffersAt n m g) (h' : SameGraph m l) : DiffersAt n l g :=
  ⟨h'.size.trans h.size, fun i hi => (congrFun h'.shape i).trans (h.shape i hi),
    h'.inputs.trans h.inputs, h'.outputs.trans h.outputs⟩

lemma DiffersAt.kind? (h : DiffersAt n m g) (hne : v ≠ g) : m.kind? v = n.kind? v := by
  rw [Network.kind?, Network.kind?, h.shape v hne]

lemma DiffersAt.operands? (h : DiffersAt n m g) (hne : v ≠ g) :
    m.operands? v = n.operands? v := by
  rw [Network.operands?, Network.operands?, h.shape v hne]

lemma DiffersAt.gate (h : DiffersAt n m g) (hne : v ≠ g) : m.Gate v a b ↔ n.Gate v a b := by
  rw [Gate, Gate, h.operands? hne]

lemma DiffersAt.isLive (h : DiffersAt n m g) (hne : v ≠ g) : m.isLive v = n.isLive v := by
  rw [Bool.eq_iff_iff, isLive_iff, isLive_iff, h.shape v hne]

/-- A gate that gets other fan-ins lives on. -/
lemma DiffersAt.isLive_of_gate {c d : Signal} (h : DiffersAt n m g) (hg : n.Gate g a b)
    (hg' : m.Gate g c d) (v : Nat) : m.isLive v = n.isLive v := by
  by_cases hv : v = g
  · rw [hv, hg.isLive, hg'.isLive]
  · exact h.isLive hv

lemma DiffersAt.isDead (h : DiffersAt n m g) (hne : v ≠ g) : m.isDead v = n.isDead v := by
  rw [Bool.eq_iff_iff, isDead_iff, isDead_iff, h.shape v hne]

/-- The uses when the fan-ins of one gate change. -/
lemma DiffersAt.uses (h : DiffersAt n m g) (hg : g < n.size) (v : Nat) :
    m.uses v + ((n.operands? g).map (pairUses v)).getD 0
      = n.uses v + ((m.operands? g).map (pairUses v)).getD 0 := by
  have hsum := gateSum_of_eq_off (pairUses v) hg h.size fun i hi => h.operands? hi
  rw [Network.uses, Network.uses, outputUses, outputUses, h.outputs]
  omega

/-- The number of gates when one position changes. -/
lemma DiffersAt.length_gates (h : DiffersAt n m g) (hg : g < n.size) :
    m.gates.length + ((n.operands? g).map fun _ => 1).getD 0
      = n.gates.length + ((m.operands? g).map fun _ => 1).getD 0 := by
  rw [Network.length_gates, Network.length_gates]
  exact gateSum_of_eq_off _ hg h.size fun i hi => h.operands? hi

end Network

open Network

variable {n m : Network} {g k u v : Nat} {a b s : Signal} {key : AndKey} {pins : Multiset Nat}

/-! ### Counting uses -/

lemma raiseFanout_spec (h : Edit.raiseFanout v n = .ok k m) :
    SameGraph n m ∧ v < n.size ∧ ∀ u, m.fanout u = n.fanout u + if u = v then 1 else 0 := by
  obtain ⟨s, hs, -, -, rfl⟩ := Edit.raiseFanout_eq_ok.mp h
  refine ⟨sameGraph_modifySlot n v fun _ => rfl, lt_size_of_slot? hs, ?_⟩
  intro u
  rw [fanout_modifySlot]
  by_cases huv : u = v
  · subst huv
    simp [hs, fanout_of_slot? hs]
  · simp [huv, Ne.symm huv]

/-- A use can be counted unless the counter is full. -/
lemma exists_raiseFanout (hv : v < n.size) (hlt : n.fanout v < counterLimit) :
    ∃ k m, Edit.raiseFanout v n = .ok k m := by
  have hs : n.slot? v = some n.nodes[v] := Array.getElem?_eq_getElem hv
  rw [fanout_of_slot? hs] at hlt
  exact ⟨_, _, Edit.raiseFanout_eq_ok.mpr ⟨_, hs, hlt, rfl, rfl⟩⟩

lemma lowerFanout_spec (h : Edit.lowerFanout v n = .ok k m) :
    SameGraph n m ∧ m.fanout v = k ∧
      ∀ u, m.fanout u + (if u = v then 1 else 0) = n.fanout u := by
  obtain ⟨s, hs, hk, rfl⟩ := Edit.lowerFanout_eq_ok.mp h
  refine ⟨sameGraph_modifySlot n v fun _ => rfl, ?_, ?_⟩
  · simp [fanout_modifySlot, hs]
  · intro u
    rw [fanout_modifySlot]
    by_cases huv : u = v
    · subst huv
      simp [hs, fanout_of_slot? hs, hk]
    · simp [huv, Ne.symm huv]

/-- To count a use is to set a pin. -/
lemma Network.Consistent.raise (h : n.Consistent pins) (hv : n.isLive v = true)
    (hrun : Edit.raiseFanout v n = .ok k m) : m.Consistent (v ::ₘ pins) := by
  obtain ⟨hsame, -, hf⟩ := raiseFanout_spec hrun
  refine h.congr hsame.toSameGates (hsame.outputs ▸ h.outputs_live) ?_ ?_
  · intro u hu
    rcases Multiset.mem_cons.mp hu with rfl | hu
    · exact hv
    · exact h.pins_live u hu
  · intro u
    rw [hf u, Multiset.count_cons, outputUses, outputUses, hsame.outputs]
    omega

/-- To take a use away is to remove a pin. -/
lemma Network.Consistent.lower (h : n.Consistent (v ::ₘ pins))
    (hrun : Edit.lowerFanout v n = .ok k m) : m.Consistent pins := by
  obtain ⟨hsame, -, hf⟩ := lowerFanout_spec hrun
  refine h.congr hsame.toSameGates (hsame.outputs ▸ h.outputs_live)
    (fun u hu => h.pins_live u (Multiset.mem_cons_of_mem hu)) ?_
  intro u
  have := hf u
  rw [Multiset.count_cons, outputUses, outputUses, hsame.outputs]
  omega

/-- Uses of live nodes are counted without an effect on dead ones. -/
lemma decays_of_raise (hv : n.isLive v = true) (hrun : Edit.raiseFanout v n = .ok k m) :
    n.Decays m := by
  obtain ⟨hsame, -, hf⟩ := raiseFanout_spec hrun
  refine hsame.decays ?_
  intro u hu
  have hne : u ≠ v := by
    rintro rfl
    exact not_isLive_of_isDead hu hv
  rw [hf u, if_neg hne, Nat.add_zero]

lemma decays_of_lower (hv : n.isLive v = true) (hrun : Edit.lowerFanout v n = .ok k m) :
    n.Decays m := by
  obtain ⟨hsame, -, hf⟩ := lowerFanout_spec hrun
  refine hsame.decays ?_
  intro u hu
  have hne : u ≠ v := by
    rintro rfl
    exact not_isLive_of_isDead hu hv
  rw [← hf u, if_neg hne, Nat.add_zero]

/-- The entry of a key is dropped if it leads to the gate. -/
lemma unhash_spec (h : Edit.unhash g key n = .ok () m) : ∃ hash, { n with hash } = m ∧
    ∀ k, hash[k]? = if k = key ∧ n.hash[key]? = some g then none else n.hash[k]? := by
  simp only [Edit.unhash, bind_eq_ok, Edit.view_eq_ok] at h
  obtain ⟨_, _, ⟨rfl, rfl⟩, h⟩ := h
  split at h
  · next hkey =>
      rw [Edit.update_eq_ok] at h
      refine ⟨_, h, ?_⟩
      intro k
      rw [Std.ExtTreeMap.getElem?_erase]
      by_cases hk : k = key
      · simp [hk, hkey]
      · have hne : key ≠ k := fun h => hk h.symm
        simp [hk, hne]
  · next hkey =>
      rw [pure_eq_ok] at h
      exact ⟨n.hash, h.2, fun k => by simp [hkey]⟩

end AndInverter
