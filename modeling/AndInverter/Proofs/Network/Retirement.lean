import AndInverter.Proofs.Network.Changes

/-!
Retiring gates keeps a network consistent.  What a retirement does to the graph is the
relation `Network.Retires`, and it leaves no gate behind that lost its last use:
`Network.Dangling` gates were dangling before.

* `Network.Consistent.retired`: one gate dies and its uses with it;
* `retireAll_spec`: a worklist of gates without uses is worked off;
* `retire_spec`, `release_spec`: the two edits on which everything else is built.
-/

namespace AndInverter

namespace Network

variable {n m l : Network} {g u v : Nat} {a b s : Signal} {pins : Multiset Nat}

/-- A live gate without a use. -/
def Dangling (n : Network) (v : Nat) : Prop := n.isLiveGate v = true ∧ n.fanout v = 0

/-- **Retirement**: nodes die, and nothing else happens to the graph. -/
structure Retires (n m : Network) : Prop where
  size : m.size = n.size
  inputs : m.inputs = n.inputs
  outputs : m.outputs = n.outputs
  shape : ∀ v, m.shape v = n.shape v ∨
    ∃ k, n.shape v = some (k, false) ∧ m.shape v = some (k, true)
  fanout_le : ∀ v, m.fanout v ≤ n.fanout v
  decays : n.Decays m

lemma Retires.refl (n : Network) : n.Retires n :=
  ⟨rfl, rfl, rfl, fun _ => .inl rfl, fun _ => le_rfl, .refl n⟩

lemma Retires.trans (h : n.Retires m) (h' : m.Retires l) : n.Retires l where
  size := h'.size.trans h.size
  inputs := h'.inputs.trans h.inputs
  outputs := h'.outputs.trans h.outputs
  shape v := by
    rcases h'.shape v with hl | ⟨k, hm, hl⟩
    · rw [hl]
      exact h.shape v
    · rcases h.shape v with hn | ⟨k', -, hm'⟩
      · exact .inr ⟨k, hn ▸ hm, hl⟩
      · rw [hm] at hm'
        simp at hm'
  fanout_le v := (h'.fanout_le v).trans (h.fanout_le v)
  decays := h.decays.trans h'.decays

lemma SameGraph.retires (h : SameGraph n m) (hle : ∀ v, m.fanout v ≤ n.fanout v)
    (hdecays : n.Decays m) : n.Retires m :=
  ⟨h.size, h.inputs, h.outputs, fun v => .inl (congrFun h.shape v), hle, hdecays⟩

lemma Retires.isLive (h : n.Retires m) (hv : m.isLive v = true) : n.isLive v = true := by
  obtain ⟨k, hk⟩ := isLive_iff.mp hv
  rcases h.shape v with hs | ⟨k', hs, -⟩
  · exact isLive_iff.mpr ⟨k, hs ▸ hk⟩
  · exact isLive_iff.mpr ⟨k', hs⟩

lemma Retires.gate (h : n.Retires m) (hg : m.Gate g a b) : n.Gate g a b := by
  rw [gate_iff] at hg ⊢
  rcases h.shape g with hs | ⟨k, -, hs⟩
  · rwa [hs] at hg
  · rw [hs] at hg
    simp at hg

lemma Retires.gate_of_isLive (h : n.Retires m) (hg : n.Gate g a b) (hl : m.isLive g = true) :
    m.Gate g a b := by
  rw [gate_iff] at hg ⊢
  rcases h.shape g with hs | ⟨k, -, hs⟩
  · rwa [hs]
  · obtain ⟨k', hk'⟩ := isLive_iff.mp hl
    rw [hs] at hk'
    simp at hk'

lemma Retires.reads (h : n.Retires m) (hg : m.Reads g v) : n.Reads g v := by
  obtain ⟨a, b, hab, hv⟩ := hg
  exact ⟨a, b, h.gate hab, hv⟩

/-- What stays live reads what it read. -/
lemma Retires.reads_of_isLive (h : n.Retires m) (hread : n.Reads g v) (hl : m.isLive g = true) :
    m.Reads g v := by
  obtain ⟨a, b, hg, hv⟩ := hread
  exact ⟨a, b, h.gate_of_isLive hg hl, hv⟩

lemma Retires.acyclic (h : n.Retires m) (hn : n.Acyclic) : m.Acyclic :=
  hn.mono fun _ _ hg => h.reads hg

/-- **A gate dies** that nobody uses, and its uses of its fan-ins die with it. -/
lemma Consistent.retired (h : n.Consistent pins) (hg : n.Gate g a b) (h0 : n.fanout g = 0)
    (hd : DiffersAt n m g) (hshape : m.shape g = some (.gate a b, true))
    (hhash : ∀ k : AndKey, m.hash[k]? = if k = ⟨a, b⟩ then none else n.hash[k]?)
    (hgates : m.liveGates = n.liveGates - 1)
    (hfanout : ∀ v, m.fanout v + pairUses v (a, b) = n.fanout v) : m.Consistent pins := by
  have hnone : m.operands? g = none := by simp [Network.operands?, hshape]
  have hsome : n.operands? g = some (a, b) := hg
  have hkind : m.kind? g = n.kind? g := by
    rw [Network.kind?, Network.kind?, hshape, gate_iff.mp hg]
    rfl
  obtain ⟨hreads, houtputs, hpins⟩ := h.unused hg.isLive h0
  have hgate : ∀ {i c d}, m.Gate i c d → i ≠ g ∧ n.Gate i c d := by
    intro i c d hi
    have hne : i ≠ g := by
      rintro rfl
      rw [Gate, hnone] at hi
      cases hi
    exact ⟨hne, (hd.gate hne).mp hi⟩
  have hkinds : m.kind? = n.kind? := by
    funext v
    by_cases hv : v = g
    · rw [hv, hkind]
    · exact hd.kind? hv
  constructor
  case constant_iff =>
    intro v
    rw [hkinds]
    exact h.constant_iff v
  case input_iff =>
    intro i v
    rw [hkinds, hd.inputs]
    exact h.input_iff i v
  case permanent =>
    intro v k hv
    by_cases hvg : v = g
    · subst hvg
      rw [hshape] at hv
      cases hv
      simp [NodeKind.fanIns?]
    · exact h.permanent v k (hd.shape v hvg ▸ hv)
  case ordered =>
    intro i c d hi
    exact h.ordered i c d (hgate hi).2
  case fanIns_live =>
    intro i c d hi
    obtain ⟨-, hi⟩ := hgate hi
    have hc : c.node ≠ g := fun hc => hreads i (hc ▸ hi.reads_left)
    have hd' : d.node ≠ g := fun hd' => hreads i (hd' ▸ hi.reads_right)
    rw [hd.isLive hc, hd.isLive hd']
    exact h.fanIns_live i c d hi
  case outputs_live =>
    intro s hs
    rw [hd.outputs] at hs
    rw [hd.isLive (houtputs s hs)]
    exact h.outputs_live s hs
  case pins_live =>
    intro v hv
    have hvg : v ≠ g := fun hvg => hpins (hvg ▸ hv)
    rw [hd.isLive hvg]
    exact h.pins_live v hv
  case hash_iff =>
    intro k i
    refine h.hash_iff_of_off (fun _ => hd.operands?)
      (fun k hk => absurd rfl (hgate hk).1) ?_ ?_ k i
    · intro k hk _
      rw [hhash k, if_pos (hg.key_iff.mp hk)]
    · intro k hk _
      rw [hhash k, if_neg (hg.key_iff.not.mp hk)]
  case liveGates_eq =>
    have hlen := hd.length_gates hg.lt_size
    rw [hsome, hnone] at hlen
    rw [hgates, h.liveGates_eq]
    simp only [Option.map_some, Option.map_none, Option.getD_some, Option.getD_none] at hlen
    omega
  case fanout_eq =>
    intro v hv
    have huses := hd.uses hg.lt_size v
    rw [hsome, hnone] at huses
    simp only [Option.map_some, Option.map_none, Option.getD_some, Option.getD_none] at huses
    have hvg : v ≠ g := by
      rintro rfl
      rw [isLive_iff, hshape] at hv
      simp at hv
    have hf := h.fanout_eq v (by rw [← hd.isLive hvg]; exact hv)
    have := hfanout v
    omega

/-- The death of a gate that nobody uses is a retirement. -/
lemma Consistent.retires (h : n.Consistent pins) (hg : n.Gate g a b) (h0 : n.fanout g = 0)
    (hd : DiffersAt n m g) (hdead : m.shape g = some (.gate a b, true))
    (hfanout : ∀ v, m.fanout v + pairUses v (a, b) = n.fanout v) : n.Retires m := by
  have hle : ∀ u, m.fanout u ≤ n.fanout u := fun u =>
    (hfanout u).le.trans' (Nat.le_add_right _ _)
  refine ⟨hd.size, hd.inputs, hd.outputs, ?_, hle, ?_, ?_⟩
  · intro u
    by_cases hug : u = g
    · rw [hug]
      exact .inr ⟨_, gate_iff.mp hg, hdead⟩
    · exact .inl (hd.shape u hug)
  · intro u hu
    have hne : ∀ w, n.isLive w = true → w ≠ u := by
      rintro w hw rfl
      exact not_isLive_of_isDead hu hw
    obtain ⟨hla, hlb⟩ := h.fanIns_live g a b hg
    have hfu := hfanout u
    rw [pairUses, if_neg (hne _ hla), if_neg (hne _ hlb)] at hfu
    exact ⟨(hd.isDead (hne g hg.isLive).symm).trans hu, hfu⟩
  · intro u hu
    by_cases hug : u = g
    · rw [hug]
      exact .inr ⟨isDead_iff.mpr ⟨_, hdead⟩, Nat.eq_zero_of_le_zero (h0 ▸ hle g)⟩
    · exact .inl ((hd.isLive hug).trans hu)

end Network

open Network

variable {n m : Network} {bound g v : Nat} {a b s : Signal} {pins : Multiset Nat}
  {found worklist : List Nat}

/-! ### One gate -/

/-- A fan-in loses a use and is listed if that was its last. -/
lemma releaseFanIn_spec (h : Edit.releaseFanIn s n = .ok found m) :
    SameGraph n m ∧ (∀ u, m.fanout u + (if u = s.node then 1 else 0) = n.fanout u) ∧
      (∀ u ∈ found, u = s.node ∧ m.fanout u = 0) ∧ (m.Dangling s.node → s.node ∈ found) ∧
      found.length ≤ 1 := by
  simp only [Edit.releaseFanIn, bind_eq_ok, Edit.view_eq_ok] at h
  obtain ⟨left, m', hlow, _, _, ⟨rfl, rfl⟩, h⟩ := h
  obtain ⟨hsame, hleft, hf⟩ := lowerFanout_spec hlow
  split at h
  · next hlast =>
      rw [Bool.and_eq_true, decide_eq_true_iff] at hlast
      obtain ⟨rfl, rfl⟩ := pure_eq_ok.mp h
      refine ⟨hsame, hf, ?_, fun _ => List.mem_singleton_self _, le_rfl⟩
      intro u hu
      obtain rfl := List.mem_singleton.mp hu
      exact ⟨rfl, hleft.trans hlast.1⟩
  · next hlast =>
      obtain ⟨rfl, rfl⟩ := pure_eq_ok.mp h
      refine ⟨hsame, hf, fun u hu => absurd hu List.not_mem_nil, ?_, Nat.zero_le 1⟩
      intro hdangling
      refine absurd ?_ hlast
      rw [Bool.and_eq_true, decide_eq_true_iff]
      refine ⟨hleft.symm.trans hdangling.2, ?_⟩
      obtain ⟨c, d, hg⟩ := isLiveGate_iff.mp hdangling.1
      have hfan := hg.fanIns?
      simp only [Network.fanIns?, Option.bind_eq_some_iff] at hfan
      obtain ⟨slot, hs, hk⟩ := hfan
      simp [Network.isGate, hs, Slot.isGate, hk]

/-- The gate is marked dead, leaves the structural hash and is counted no longer. -/
lemma bury_spec {n₂ : Network} {u : Unit} {event : Event} (hg : n.Gate g a b)
    (hunhash : Edit.unhash g ⟨a, b⟩ (n.modifySlot g ({ · with dead := true })) = .ok u n₂)
    (hm : { n₂ with liveGates := n₂.liveGates - 1 }.advance.notify event = m) :
    DiffersAt n m g ∧ m.shape g = some (.gate a b, true) ∧
      (∀ k : AndKey, m.hash[k]?
        = if k = ⟨a, b⟩ ∧ n.hash[(⟨a, b⟩ : AndKey)]? = some g then none else n.hash[k]?) ∧
      m.liveGates = n.liveGates - 1 ∧ m.fanout = n.fanout := by
  obtain ⟨hash, rfl, hhash⟩ := unhash_spec hunhash
  obtain ⟨slot, hslot, hkind⟩ := Option.map_eq_some_iff.mp (gate_iff.mp hg)
  rw [Prod.mk.injEq] at hkind
  subst hm
  refine ⟨⟨size_modifySlot _ _ _, ?_, rfl, rfl⟩, ?_, hhash, rfl, ?_⟩
  · intro i hi
    exact (shape_modifySlot n g _ i).trans (if_neg (Ne.symm hi))
  · refine (shape_modifySlot n g _ g).trans ?_
    rw [if_pos rfl, hslot, Option.map_some, hkind.1]
  · funext u
    refine (fanout_modifySlot n g _ u).trans ?_
    by_cases hu : g = u
    · subst hu
      rw [if_pos rfl, hslot, Option.map_some, Option.getD_some, fanout_of_slot? hslot]
    · rw [if_neg hu]

/-- A gate dies, and its fan-ins lose a use each. -/
lemma retireOne_effect (hg : n.Gate g a b) (hrun : Edit.retireOne g a b n = .ok found m) :
    DiffersAt n m g ∧ m.shape g = some (.gate a b, true) ∧
      (∀ k : AndKey, m.hash[k]?
        = if k = ⟨a, b⟩ ∧ n.hash[(⟨a, b⟩ : AndKey)]? = some g then none else n.hash[k]?) ∧
      m.liveGates = n.liveGates - 1 ∧ ∀ u, m.fanout u + pairUses u (a, b) = n.fanout u := by
  simp only [Edit.retireOne, bind_eq_ok, Edit.modifySlot_eq_ok, Edit.update_eq_ok,
    pure_eq_ok] at hrun
  obtain ⟨_, _, ⟨-, rfl⟩, _, n₂, hunhash, _, n₃, hn₃, _, n₄, hA, _, n₅, hB, -, rfl⟩ := hrun
  obtain ⟨hd, hshape, hhash, hgates, hfanout⟩ := bury_spec hg hunhash hn₃
  obtain ⟨hsameA, hfA, -⟩ := releaseFanIn_spec hA
  obtain ⟨hsameB, hfB, -⟩ := releaseFanIn_spec hB
  have hsame := hsameA.trans hsameB
  refine ⟨hd.trans_sameGraph hsame, by rw [hsame.shape, hshape], fun k => by rw [hsame.hash, hhash],
    by rw [hsame.liveGates, hgates], fun u => ?_⟩
  have h₁ := hfA u
  have h₂ := hfB u
  rw [hfanout] at h₁
  simp only [pairUses, eq_comm (a := u)] at h₁ h₂ ⊢
  omega

/-- **One gate is retired**: the network stays consistent, and the gates that lose their last
use by that are listed, which are fan-ins of it. -/
lemma retireOne_spec (h : n.Consistent pins) (hg : n.Gate g a b) (h0 : n.fanout g = 0)
    (hrun : Edit.retireOne g a b n = .ok found m) :
    m.Consistent pins ∧ n.Retires m ∧
      (∀ u ∈ found, m.fanout u = 0 ∧ (u = a.node ∨ u = b.node)) ∧
      (∀ u, m.Dangling u → u ∈ found ∨ (n.Dangling u ∧ u ≠ g)) ∧
      m.isDead g = true ∧ found.length ≤ 2 := by
  obtain ⟨hd, hdead, hhash, hgates, hf⟩ := retireOne_effect hg hrun
  simp only [(h.hash_iff ⟨a, b⟩ g).mpr hg, and_true] at hhash
  simp only [Edit.retireOne, bind_eq_ok, pure_eq_ok] at hrun
  obtain ⟨_, _, -, _, _, -, _, n₃, -, fromA, n₄, hA, fromB, n₅, hB, rfl, rfl⟩ := hrun
  obtain ⟨-, -, hfoundA, hdanglingA, hlengthA⟩ := releaseFanIn_spec hA
  obtain ⟨hsameB, hfB, hfoundB, hdanglingB, hlengthB⟩ := releaseFanIn_spec hB
  refine ⟨h.retired hg h0 hd hdead hhash hgates hf, h.retires hg h0 hd hdead hf, ?_, ?_,
    isDead_iff.mpr ⟨_, hdead⟩, by rw [List.length_append]; omega⟩
  · intro u hu
    rcases List.mem_append.mp hu with hu | hu
    · exact ⟨(hfoundB u hu).2, .inr (hfoundB u hu).1⟩
    · have h₂ := hfB u
      have h₁ := (hfoundA u hu).2
      exact ⟨by omega, .inl (hfoundA u hu).1⟩
  · intro u hu
    obtain ⟨c, d, hgate⟩ := isLiveGate_iff.mp hu.1
    have hug : u ≠ g := by
      rintro rfl
      rw [gate_iff, hdead] at hgate
      simp at hgate
    by_cases hub : u = b.node
    · subst hub
      exact .inl (List.mem_append_left _ (hdanglingB hu))
    · have h₂ := hfB u
      rw [if_neg hub, hu.2] at h₂
      by_cases hua : u = a.node
      · subst hua
        refine .inl (List.mem_append_right _ (hdanglingA ⟨?_, h₂.symm⟩))
        exact isLiveGate_iff.mpr ⟨c, d, hsameB.gate.mp hgate⟩
      · refine .inr ⟨⟨isLiveGate_iff.mpr ⟨c, d, (hd.gate hug).mp hgate⟩, ?_⟩, hug⟩
        have hfu := hf u
        rw [hu.2, pairUses, if_neg (Ne.symm hua), if_neg (Ne.symm hub)] at hfu
        exact hfu.symm

/-! ### Worklists -/

/-- The first entry of a worklist is retired if it is a live gate and left out otherwise. -/
lemma retireAll_cons_eq_ok (hrun : Edit.retireAll (bound + 1) (g :: worklist) n = .ok () m) :
    (∃ a b found n₁, n.Gate g a b ∧ Edit.retireOne g a b n = .ok found n₁ ∧
      Edit.retireAll bound (found ++ worklist) n₁ = .ok () m) ∨
    (¬ n.isLiveGate g = true ∧ Edit.retireAll bound worklist n = .ok () m) := by
  simp only [Edit.retireAll, bind_eq_ok, Edit.slot_eq_ok] at hrun
  obtain ⟨s, _, ⟨hs, rfl⟩, hrun⟩ := hrun
  have hgate : n.isLiveGate g = (!s.dead && s.fanIns?.isSome) := by
    rw [Network.isLiveGate, hs]
    rfl
  cases hdead : s.dead with
  | true => exact .inr ⟨by simp [hgate, hdead], by simpa only [hdead] using hrun⟩
  | false =>
      cases hfan : s.fanIns? with
      | none => exact .inr ⟨by simp [hgate, hfan], by simpa only [hdead, hfan] using hrun⟩
      | some p =>
          simp only [hdead, hfan, bind_eq_ok] at hrun
          obtain ⟨found, n₁, hone, hrest⟩ := hrun
          refine .inl ⟨p.1, p.2, found, n₁, gate_of_fanIns? ?_ ?_, hone, hrest⟩
          · simp [Network.fanIns?, hs, hfan]
          · simp [Network.isLive, hs, hdead]

/-- **A worklist of gates without uses is worked off**: no gate is left dangling that was not
dangling before. -/
lemma retireAll_spec (h : n.Consistent pins)
    (hwork : ∀ v ∈ worklist, n.isLive v = true → n.fanout v = 0)
    (hrun : Edit.retireAll bound worklist n = .ok () m) :
    m.Consistent pins ∧ n.Retires m ∧ ∀ v, m.Dangling v → n.Dangling v ∧ v ∉ worklist := by
  induction bound generalizing n worklist with
  | zero =>
      cases worklist with
      | nil =>
          obtain ⟨-, rfl⟩ := pure_eq_ok.mp hrun
          exact ⟨h, .refl n, fun v hv => ⟨hv, List.not_mem_nil⟩⟩
      | cons g rest => exact (throw_eq_ok.mp hrun).elim
  | succ bound ih =>
      cases worklist with
      | nil =>
          obtain ⟨-, rfl⟩ := pure_eq_ok.mp hrun
          exact ⟨h, .refl n, fun v hv => ⟨hv, List.not_mem_nil⟩⟩
      | cons g rest =>
          have hrest : ∀ v ∈ rest, n.isLive v = true → n.fanout v = 0 :=
            fun v hv => hwork v (List.mem_cons_of_mem g hv)
          obtain ⟨a, b, found, n₁, hg, hone, hrun⟩ | ⟨hnot, hrun⟩ := retireAll_cons_eq_ok hrun
          · obtain ⟨h₁, hret, hfound, hdangling, -⟩ :=
              retireOne_spec h hg (hwork g List.mem_cons_self hg.isLive) hone
            have hwork₁ : ∀ v ∈ found ++ rest, n₁.isLive v = true → n₁.fanout v = 0 := by
              intro v hv hlv
              rcases List.mem_append.mp hv with hv | hv
              · exact (hfound v hv).1
              · have hzero := hrest v hv (hret.isLive hlv)
                exact Nat.eq_zero_of_le_zero (hzero ▸ hret.fanout_le v)
            obtain ⟨h₂, hret', hdangling'⟩ := ih h₁ hwork₁ hrun
            refine ⟨h₂, hret.trans hret', ?_⟩
            intro v hv
            obtain ⟨hv₁, hnot⟩ := hdangling' v hv
            rw [List.mem_append, not_or] at hnot
            rcases hdangling v hv₁ with hv' | ⟨hv', hne⟩
            · exact absurd hv' hnot.1
            · exact ⟨hv', List.not_mem_cons_of_ne_of_not_mem hne hnot.2⟩
          · obtain ⟨h₂, hret, hdangling⟩ := ih h hrest hrun
            refine ⟨h₂, hret, ?_⟩
            intro v hv
            obtain ⟨hv₁, hnotin⟩ := hdangling v hv
            refine ⟨hv₁, List.not_mem_cons_of_ne_of_not_mem ?_ hnotin⟩
            rintro rfl
            exact hnot hv₁.1

/-- **A gate is retired**, with all that lose their last use by that. -/
lemma retire_spec (h : n.Consistent pins) (h0 : n.isLive g = true → n.fanout g = 0)
    (hrun : Edit.retire g n = .ok () m) :
    m.Consistent pins ∧ n.Retires m ∧ ∀ v, m.Dangling v → n.Dangling v ∧ v ≠ g := by
  simp only [Edit.retire, bind_eq_ok, Edit.slot_eq_ok] at hrun
  obtain ⟨s, _, ⟨hs, rfl⟩, hrun⟩ := hrun
  split at hrun
  · obtain ⟨_, _, hview, hrun⟩ := bind_eq_ok.mp hrun
    obtain ⟨rfl, rfl⟩ := Edit.view_eq_ok.mp hview
    have hwork : ∀ v ∈ [g], n.isLive v = true → n.fanout v = 0 := by
      intro v hv
      rwa [List.mem_singleton.mp hv]
    obtain ⟨hm, hret, hdangling⟩ := retireAll_spec h hwork hrun
    exact ⟨hm, hret, fun v hv => ⟨(hdangling v hv).1, by simpa using (hdangling v hv).2⟩⟩
  · next hnot =>
      obtain ⟨-, rfl⟩ := pure_eq_ok.mp hrun
      refine ⟨h, .refl n, fun v hv => ⟨hv, ?_⟩⟩
      rintro rfl
      exact hnot (by simpa [Dangling, Network.isLiveGate, hs] using hv.1)

/-- **A pin is removed**, and its node retired if that was the last use of it. -/
lemma release_spec (h : n.Consistent (g ::ₘ pins)) (hrun : Edit.release g n = .ok () m) :
    m.Consistent pins ∧ n.Retires m ∧ ∀ v, m.Dangling v → n.Dangling v := by
  simp only [Edit.release, bind_eq_ok] at hrun
  obtain ⟨left, n₁, hlow, hrun⟩ := hrun
  obtain ⟨hsame, hleft, hf⟩ := lowerFanout_spec hlow
  have hgl : n.isLive g = true := h.pins_live g (Multiset.mem_cons_self g pins)
  have hret₁ : n.Retires n₁ :=
    hsame.retires (fun v => (hf v).le.trans' (Nat.le_add_right _ _)) (decays_of_lower hgl hlow)
  have hdangling₁ : ∀ v, v ≠ g → n₁.Dangling v → n.Dangling v := by
    intro v hne hv
    obtain ⟨a, b, hv'⟩ := isLiveGate_iff.mp hv.1
    refine ⟨isLiveGate_iff.mpr ⟨a, b, hsame.gate.mp hv'⟩, ?_⟩
    rw [← hf v, if_neg hne, hv.2]
  split at hrun
  · next hzero =>
      obtain ⟨hm, hret, hdangling⟩ := retire_spec (h.lower hlow) (fun _ => hleft.trans hzero) hrun
      exact ⟨hm, hret₁.trans hret, fun v hv => hdangling₁ v (hdangling v hv).2 (hdangling v hv).1⟩
  · next hne =>
      obtain ⟨-, rfl⟩ := pure_eq_ok.mp hrun
      refine ⟨h.lower hlow, hret₁, fun v hv => hdangling₁ v ?_ hv⟩
      rintro rfl
      exact hne (hleft.symm.trans hv.2)

end AndInverter
