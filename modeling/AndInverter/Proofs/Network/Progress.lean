import AndInverter.Proofs.Network.Service

/-!
What can go wrong inside a consistent network.  A position that an edit looks at is there, and a
use that it takes away was counted; so retiring never fails, and moving uses only fails when a
counter is full or when the replacement itself was retired before.

* `retire_ne_error`, `release_ne_error`: gates are retired without fail;
* `replaceUses_eq_error`, `serve_eq_error`: the two causes for which a request is not served.
-/

namespace AndInverter

open Network

variable {n m l : Network} {bound g old v : Nat} {a b s new : Signal} {f : Fault}
  {key : AndKey} {pins : Multiset Nat} {worklist : List Nat}

namespace Network

/-- A gate counts as a use of its fan-ins. -/
lemma Consistent.fanout_ne_zero_of_reads (h : n.Consistent pins) (hread : n.Reads g v) :
    n.fanout v ≠ 0 := fun h0 => (h.unused (h.isLive_of_reads hread) h0).1 g hread

/-- An output counts as a use of its driver. -/
lemma Consistent.fanout_ne_zero_of_output (h : n.Consistent pins) (hs : s ∈ n.outputs) :
    n.fanout s.node ≠ 0 := fun h0 => (h.unused (h.outputs_live s hs) h0).2.1 s hs rfl

/-- A pin counts as a use of its node. -/
lemma Consistent.fanout_ne_zero_of_pin (h : n.Consistent pins) (hv : v ∈ pins) :
    n.fanout v ≠ 0 := fun h0 => (h.unused (h.pins_live v hv) h0).2.2 hv

/-- What counts as used in a well-formed network is read or drives an output. -/
lemma WellFormed.exists_use (h : n.WellFormed) (hv : n.isLive v = true) (h0 : n.fanout v ≠ 0) :
    (∃ g, n.Reads g v) ∨ ∃ s ∈ n.outputs, s.node = v := by
  refine Network.exists_use ?_
  have hfanout := Consistent.fanout_eq h v hv
  rw [Multiset.count_zero] at hfanout
  omega

lemma Retires.mem_gates (h : n.Retires m) (hg : g ∈ m.gates) : g ∈ n.gates := by
  obtain ⟨a, b, hg⟩ := Network.mem_gates.mp hg
  exact Network.mem_gates.mpr ⟨a, b, h.gate hg⟩

lemma Retires.length_gates_le (h : n.Retires m) : m.gates.length ≤ n.gates.length :=
  (m.nodup_gates.subperm fun _ => h.mem_gates).length_le

/-- There are fewer gates when one has died. -/
lemma Retires.length_gates_lt (h : n.Retires m) (hg : n.isLiveGate g = true)
    (hdead : m.isDead g = true) : m.gates.length < n.gates.length := by
  have hmem : g ∈ n.gates := Network.mem_gates.mpr (isLiveGate_iff.mp hg)
  have hsub : m.gates ⊆ n.gates.erase g := by
    intro i hi
    refine (List.mem_erase_of_ne ?_).mpr (h.mem_gates hi)
    rintro rfl
    obtain ⟨a, b, hi⟩ := Network.mem_gates.mp hi
    exact not_isLive_of_isDead hdead hi.isLive
  have hle := (m.nodup_gates.subperm hsub).length_le
  have hpos := List.length_pos_of_mem hmem
  rw [List.length_erase_of_mem hmem] at hle
  omega

lemma length_gates_le_size (n : Network) : n.gates.length ≤ n.size := by
  simpa [gates] using List.length_filter_le n.isLiveGate (List.range n.size)

end Network

/-! ### Retiring -/

lemma unhash_ne_error : Edit.unhash g key n ≠ .error f m := by
  simp only [Edit.unhash, Ne, bind_eq_error, not_or, not_exists, not_and]
  refine ⟨Edit.view_ne_error, ?_⟩
  intro entry l _
  split_ifs
  · exact Edit.update_ne_error
  · exact pure_ne_error

lemma releaseFanIn_ne_error (h0 : n.fanout s.node ≠ 0) :
    Edit.releaseFanIn s n ≠ .error f m := by
  simp only [Edit.releaseFanIn, Ne, bind_eq_error, not_or, not_exists, not_and]
  refine ⟨Edit.lowerFanout_ne_error h0, fun left l _ => ⟨Edit.view_ne_error, ?_⟩⟩
  intro isGate l' _
  split_ifs
  · exact pure_ne_error
  · exact pure_ne_error

/-- **One gate is retired without fail.** -/
lemma retireOne_ne_error (h : n.Consistent pins) (hg : n.Gate g a b) :
    Edit.retireOne g a b n ≠ .error f m := by
  intro hrun
  simp only [Edit.retireOne, bind_eq_error] at hrun
  rcases hrun with hrun | ⟨_, n₁, hmodify, hrun | ⟨_, n₂, hunhash, hrun | ⟨_, n₃, hupdate,
    hrun | ⟨_, n₄, hA, hrun | ⟨_, _, -, hrun⟩⟩⟩⟩⟩
  · exact Edit.modifySlot_ne_error hg.lt_size hrun
  · exact unhash_ne_error hrun
  · exact Edit.update_ne_error hrun
  all_goals
    obtain ⟨-, rfl⟩ := Edit.modifySlot_eq_ok.mp hmodify
    have hbury := bury_spec hg hunhash (Edit.update_eq_ok.mp hupdate)
    have hfanout : n₃.fanout = n.fanout := hbury.2.2.2.2
  · refine releaseFanIn_ne_error ?_ hrun
    rw [hfanout]
    exact h.fanout_ne_zero_of_reads hg.reads_left
  · -- the fan-ins are distinct, so the second one keeps its use while the first loses one
    refine releaseFanIn_ne_error ?_ hrun
    obtain ⟨-, hf, -⟩ := releaseFanIn_spec hA
    have hb := hf b.node
    rw [if_neg (h.fanIns_ne hg).symm, hfanout] at hb
    have := h.fanout_ne_zero_of_reads hg.reads_right
    omega
  · exact pure_ne_error hrun

/-- **A worklist of gates without uses is worked off without fail**, as long as the bound has
room for every gate and two fan-ins each. -/
lemma retireAll_ne_error (h : n.Consistent pins)
    (hwork : ∀ v ∈ worklist, v < n.size ∧ (n.isLive v = true → n.fanout v = 0))
    (hbound : worklist.length + 2 * n.gates.length ≤ bound) :
    Edit.retireAll bound worklist n ≠ .error f m := by
  induction bound generalizing n worklist with
  | zero =>
      obtain rfl : worklist = [] := List.length_eq_zero_iff.mp (by omega)
      exact pure_ne_error
  | succ bound ih =>
      cases worklist with
      | nil => exact pure_ne_error
      | cons g rest =>
          obtain ⟨⟨hlt, hzero⟩, hrest⟩ := List.forall_mem_cons.mp hwork
          rw [List.length_cons] at hbound
          simp only [Edit.retireAll, Ne, bind_eq_error, not_or, not_exists, not_and]
          refine ⟨Edit.slot_ne_error hlt, ?_⟩
          intro slot l hslot
          obtain ⟨hs, rfl⟩ := Edit.slot_eq_ok.mp hslot
          cases hdead : slot.dead with
          | true => exact ih h hrest (by omega)
          | false =>
              have hl : n.isLive g = true := by simp [Network.isLive, hs, hdead]
              cases hfan : slot.fanIns? with
              | none => exact ih h hrest (by omega)
              | some p =>
                  obtain ⟨a, b⟩ := p
                  have hg : n.Gate g a b :=
                    gate_of_fanIns? (by simp [Network.fanIns?, hs, hfan]) hl
                  simp only [bind_eq_error, not_or, not_exists, not_and]
                  refine ⟨retireOne_ne_error h hg, ?_⟩
                  intro found n₁ hone
                  obtain ⟨h₁, hret, hfound, -, hdead₁, hlength⟩ :=
                    retireOne_spec h hg (hzero hl) hone
                  have hless := hret.length_gates_lt (isLiveGate_iff.mpr ⟨a, b, hg⟩) hdead₁
                  obtain ⟨hla, hlb⟩ := h.fanIns_live g a b hg
                  refine ih h₁ ?_ (by rw [List.length_append]; omega)
                  intro v hv
                  rw [hret.size]
                  rcases List.mem_append.mp hv with hv | hv
                  · obtain ⟨h0, rfl | rfl⟩ := hfound v hv
                    · exact ⟨lt_size_of_isLive hla, fun _ => h0⟩
                    · exact ⟨lt_size_of_isLive hlb, fun _ => h0⟩
                  · obtain ⟨hlt, h0⟩ := hrest v hv
                    refine ⟨hlt, fun hlv => ?_⟩
                    exact Nat.eq_zero_of_le_zero (h0 (hret.isLive hlv) ▸ hret.fanout_le v)

/-- **A gate is retired without fail.** -/
theorem retire_ne_error (h : n.Consistent pins) (hg : g < n.size)
    (h0 : n.isLive g = true → n.fanout g = 0) : Edit.retire g n ≠ .error f m := by
  simp only [Edit.retire, Ne, bind_eq_error, not_or, not_exists, not_and]
  refine ⟨Edit.slot_ne_error hg, ?_⟩
  intro slot l hslot
  obtain ⟨-, rfl⟩ := Edit.slot_eq_ok.mp hslot
  split_ifs
  · simp only [bind_eq_error, not_or, not_exists, not_and]
    refine ⟨Edit.view_ne_error, ?_⟩
    intro size l hview
    obtain ⟨rfl, rfl⟩ := Edit.view_eq_ok.mp hview
    refine retireAll_ne_error h ?_ ?_
    · intro v hv
      rw [List.mem_singleton.mp hv]
      exact ⟨hg, h0⟩
    · have := n.length_gates_le_size
      rw [List.length_singleton]
      omega
  · exact pure_ne_error

/-- **A pin is removed without fail.** -/
theorem release_ne_error (h : n.Consistent (g ::ₘ pins)) : Edit.release g n ≠ .error f m := by
  have hpin := Multiset.mem_cons_self g pins
  simp only [Edit.release, Ne, bind_eq_error, not_or, not_exists, not_and]
  refine ⟨Edit.lowerFanout_ne_error (h.fanout_ne_zero_of_pin hpin), ?_⟩
  intro left n₁ hlow
  obtain ⟨hsame, hleft, -⟩ := lowerFanout_spec hlow
  split_ifs with hzero
  · refine retire_ne_error (h.lower hlow) ?_ fun _ => hleft.trans hzero
    rw [hsame.size]
    exact lt_size_of_isLive (h.pins_live g hpin)
  · exact pure_ne_error

/-! ### Moving uses -/

/-- To give a gate other fan-ins fails only when the counter of the new one is full. -/
lemma rewire_eq_error {node : Nat} (hg : g < n.size) (h0 : n.fanout old ≠ 0)
    (hnode : node < n.size) (hrun : Edit.rewire g a b key old node n = .error f m) :
    f = .counterOverflow ∧ counterLimit + (if node = old then 1 else 0) ≤ n.fanout node := by
  simp only [Edit.rewire, bind_eq_error] at hrun
  rcases hrun with hrun | ⟨_, n₁, hunhash, hrun | ⟨_, n₂, hmodify, hrun | ⟨_, n₃, hupdate,
    hrun | ⟨_, n₄, hlow, hrun | ⟨_, _, -, hrun⟩⟩⟩⟩⟩
  · exact absurd hrun unhash_ne_error
  all_goals obtain ⟨hash, rfl, -⟩ := unhash_spec hunhash
  · exact absurd hrun (Edit.modifySlot_ne_error hg)
  all_goals obtain ⟨-, rfl⟩ := Edit.modifySlot_eq_ok.mp hmodify
  · exact absurd hrun Edit.update_ne_error
  all_goals
    have hfanout : ∀ v, n₃.fanout v = n.fanout v := by
      intro v
      rw [← Edit.update_eq_ok.mp hupdate]
      refine (fanout_modifySlot n g _ v).trans ?_
      split_ifs with hgv
      · rw [← hgv, Network.fanout]
      · rfl
  · exact absurd hrun (Edit.lowerFanout_ne_error (hfanout old ▸ h0))
  · obtain ⟨hsame, -, hf⟩ := lowerFanout_spec hlow
    have hsize : node < n₄.size := by
      rw [hsame.size, ← Edit.update_eq_ok.mp hupdate]
      exact hnode.trans_eq (size_modifySlot n g _).symm
    refine ⟨Edit.raiseFanout_eq_error hsize hrun, ?_⟩
    by_contra hroom
    have hnode := hf node
    rw [hfanout node] at hnode
    obtain ⟨_, _, hraise⟩ := exists_raiseFanout hsize (by omega)
    rw [hrun] at hraise
    cases hraise
  · exact absurd hrun Edit.update_ne_error

/-- To move the use of one consumer fails only when a counter is full. -/
lemma replaceInGate_eq_error (h : n.Consistent pins) (hl : n.isLive g = true)
    (hnew : new.node < n.size) (hrun : Edit.replaceInGate g old new n = .error f m) :
    f = .counterOverflow := by
  have hg := lt_size_of_isLive hl
  have hfanIn : ∀ {a b kept moved : Signal}, n.Reads g old →
      Edit.replaceFanIn g a b kept old moved n = .error f m → moved.node = new.node →
        f = .counterOverflow := by
    intro a b kept moved hread hrun hmoved
    have hrewire : ∀ key, (do Edit.rewire g a b key old moved.node; return none :
        Edit (Option Signal)) n = .error f m → f = .counterOverflow := by
      intro key hdo
      rcases bind_eq_error.mp hdo with hdo | ⟨_, _, -, hdo⟩
      · exact (rewire_eq_error hg (h.fanout_ne_zero_of_reads hread) (hmoved ▸ hnew) hdo).1
      · exact absurd hdo pure_ne_error
    cases hform : conjunction kept moved with
    | folded s =>
        simp only [Edit.replaceFanIn, hform] at hrun
        exact absurd hrun pure_ne_error
    | gate key =>
        simp only [Edit.replaceFanIn, hform] at hrun
        rcases bind_eq_error.mp hrun with hrun | ⟨entry, l, hview, hrun⟩
        · exact absurd hrun Edit.view_ne_error
        · obtain ⟨-, rfl⟩ := Edit.view_eq_ok.mp hview
          cases entry with
          | none => exact hrewire key hrun
          | some other =>
              simp only at hrun
              split_ifs at hrun
              · exact hrewire key hrun
              · exact absurd hrun pure_ne_error
  rcases bind_eq_error.mp hrun with hrun | ⟨slot, l, hslot, hrun⟩
  · exact absurd hrun (Edit.slot_ne_error hg)
  · obtain ⟨hs, rfl⟩ := Edit.slot_eq_ok.mp hslot
    cases hfan : slot.fanIns? with
    | none =>
        simp only [hfan] at hrun
        exact absurd hrun pure_ne_error
    | some p =>
        obtain ⟨a, b⟩ := p
        have hgate : n.Gate g a b := gate_of_fanIns? (by simp [Network.fanIns?, hs, hfan]) hl
        simp only [hfan] at hrun
        split_ifs at hrun with ha hb
        · exact hfanIn ⟨a, b, hgate, .inl ha⟩ hrun rfl
        · exact hfanIn ⟨a, b, hgate, .inr hb⟩ hrun rfl
        · exact absurd hrun pure_ne_error

/-- To move the uses of all consumers fails only when a counter is full. -/
lemma replaceInGates_eq_error {gates : List Nat} (h : n.Consistent pins)
    (hl : ∀ g ∈ gates, n.isLive g = true) (hnew : n.isLive new.node = true)
    (hrun : Edit.replaceInGates old new gates n = .error f m) : f = .counterOverflow := by
  induction gates generalizing n pins with
  | nil => exact absurd hrun pure_ne_error
  | cons g rest ih =>
      obtain ⟨hlg, hlrest⟩ := List.forall_mem_cons.mp hl
      simp only [Edit.replaceInGates, bind_eq_error] at hrun
      rcases hrun with hrun | ⟨result, n₁, hgate, hrun⟩
      · exact replaceInGate_eq_error h hlg (lt_size_of_isLive hnew) hrun
      · obtain ⟨rfl, h₁, hmoves, -⟩ | ⟨target, rfl, rfl, htarget, -⟩ :=
          replaceInGate_spec h hlg hnew hgate
        · exact ih h₁ (fun i hi => (hmoves.isLive i).trans (hlrest i hi))
            ((hmoves.isLive new.node).trans hnew) hrun
        · simp only [bind_eq_error] at hrun
          rcases hrun with hrun | ⟨_, n₂, hraise, hrun⟩
          · exact Edit.raiseFanout_eq_error (lt_size_of_isLive htarget) hrun
          · have hmoves : n₁.Moves n₂ old new := moves_of_raise htarget hraise
            rcases hrun with hrun | ⟨_, _, -, hrun⟩
            · exact ih (h.raise htarget hraise)
                (fun i hi => (hmoves.isLive i).trans (hlrest i hi))
                ((hmoves.isLive new.node).trans hnew) hrun
            · exact absurd hrun pure_ne_error

/-- To redirect one output fails only when a counter is full. -/
lemma redirectOutput_eq_error {index : Nat} (h : n.Consistent pins)
    (hs : n.outputs[index]? = some s) (hold : s.node = old) (hnew : n.isLive new.node = true)
    (hrun : Edit.redirectOutput old new index s n = .error f m) : f = .counterOverflow := by
  obtain ⟨hindex, hget⟩ := Array.getElem?_eq_some_iff.mp hs
  have h0 : n.fanout old ≠ 0 := by
    rw [← hold, ← hget]
    exact h.fanout_ne_zero_of_output (Array.getElem_mem hindex)
  simp only [Edit.redirectOutput, bind_eq_error] at hrun
  rcases hrun with hrun | ⟨_, n₁, hupdate, hrun | ⟨_, n₂, hlow, hrun | ⟨_, _, -, hrun⟩⟩⟩
  · exact absurd hrun Edit.update_ne_error
  all_goals obtain rfl := Edit.update_eq_ok.mp hupdate
  · exact absurd hrun (Edit.lowerFanout_ne_error h0)
  · refine Edit.raiseFanout_eq_error ?_ hrun
    rw [(lowerFanout_spec hlow).1.size]
    exact lt_size_of_isLive hnew
  · exact absurd hrun Edit.update_ne_error

/-- To redirect all outputs fails only when a counter is full. -/
lemma replaceInOutputs_eq_error (h : n.Consistent pins) (hnew : n.isLive new.node = true)
    (hrun : Edit.replaceInOutputs old new n = .error f m) : f = .counterOverflow := by
  have hloop : ∀ (driven : List (Signal × Nat)) (n : Network), n.Consistent pins →
      n.isLive new.node = true → (driven.map (·.2)).Nodup →
        (∀ p ∈ driven, n.outputs[p.2]? = some p.1 ∧ p.1.node = old) →
          (driven.forM fun p => Edit.redirectOutput old new p.2 p.1) n = .error f m →
            f = .counterOverflow := by
    intro driven
    induction driven with
    | nil => exact fun _ _ _ _ _ hrun => absurd hrun pure_ne_error
    | cons p rest ih =>
        intro n h hnew hdistinct hdriven hrun
        obtain ⟨⟨hs, hold⟩, hrest⟩ := List.forall_mem_cons.mp hdriven
        obtain ⟨hfresh, hdistinct⟩ := List.nodup_cons.mp hdistinct
        rcases forM_cons_eq_error.mp hrun with hrun | ⟨n₁, hone, hrun⟩
        · exact redirectOutput_eq_error h hs hold hnew hrun
        · obtain ⟨h₁, hmoves, -, houtputs⟩ := redirectOutput_spec h hs hold hnew hone
          refine ih n₁ h₁ ((hmoves.isLive new.node).trans hnew) hdistinct ?_ hrun
          intro q hq
          have hne : p.2 ≠ q.2 := fun heq => hfresh (List.mem_map.mpr ⟨q, hq, heq.symm⟩)
          rw [houtputs, Array.getElem?_setIfInBounds_ne hne]
          exact hrest q hq
  rcases bind_eq_error.mp hrun with hrun | ⟨driven, l, hview, hrun⟩
  · exact absurd hrun Edit.view_ne_error
  · obtain ⟨rfl, rfl⟩ := Edit.view_eq_ok.mp hview
    rcases bind_eq_error.mp hrun with hrun | ⟨_, l, -, hrun⟩
    · exact hloop _ n h hnew (nodup_outputsOf n old) (fun p hp => mem_outputsOf.mp hp) hrun
    · split_ifs at hrun
      · rcases bind_eq_error.mp hrun with hrun | ⟨_, _, -, hrun⟩
        · exact absurd hrun Edit.update_ne_error
        · exact absurd hrun pure_ne_error
      · exact absurd hrun pure_ne_error

/-- **To move all uses of a node fails** only when a counter is full or when the replacement is
dead. -/
theorem replaceUses_eq_error (h : n.Consistent pins) (hold : old < n.size)
    (hnew : new.node < n.size) (hne : new.node ≠ old)
    (hrun : Edit.replaceUses old new n = .error f m) :
    f = .counterOverflow ∨ (f = .deadReplacement new old ∧ n.isDead new.node = true) := by
  rcases bind_eq_error.mp hrun with hrun | ⟨slot, l, hslot, hrun⟩
  · exact absurd hrun (Edit.slot_ne_error hnew)
  obtain ⟨hs, rfl⟩ := Edit.slot_eq_ok.mp hslot
  cases hdead : slot.dead with
  | true =>
      rw [hdead, if_pos rfl] at hrun
      refine .inr ⟨(throw_eq_error.mp hrun).1.symm, ?_⟩
      simp [Network.isDead, hs, hdead]
  | false =>
      left
      have hnew : n.isLive new.node = true := by simp [Network.isLive, hs, hdead]
      have hconsumers : ∀ g ∈ n.consumers old, n.isLive g = true :=
        fun _ => isLive_of_mem_consumers
      rw [hdead, if_neg Bool.false_ne_true] at hrun
      rcases bind_eq_error.mp hrun with hrun | ⟨_, l, hview, hrun⟩
      · exact absurd hrun Edit.view_ne_error
      obtain ⟨rfl, rfl⟩ := Edit.view_eq_ok.mp hview
      rcases bind_eq_error.mp hrun with hrun | ⟨requests, n₁, hgates, hrun⟩
      · exact replaceInGates_eq_error h hconsumers hnew hrun
      obtain ⟨h₁, hmoves₁, -⟩ := replaceInGates_spec h hconsumers hnew hne hgates
      have hnew₁ := (hmoves₁.isLive new.node).trans hnew
      rcases bind_eq_error.mp hrun with hrun | ⟨_, n₂, houtputs, hrun⟩
      · exact replaceInOutputs_eq_error h₁ hnew₁ hrun
      obtain ⟨h₂, hmoves₂, -⟩ := replaceInOutputs_spec h₁ hnew₁ houtputs
      have hold₂ : old < n₂.size := by
        rw [hmoves₂.size, hmoves₁.size]
        exact hold
      rcases bind_eq_error.mp hrun with hrun | ⟨slot₂, l, hslot₂, hrun⟩
      · exact absurd hrun (Edit.slot_ne_error hold₂)
      obtain ⟨hs₂, rfl⟩ := Edit.slot_eq_ok.mp hslot₂
      split_ifs at hrun with hzero
      · rcases bind_eq_error.mp hrun with hrun | ⟨_, _, -, hrun⟩
        · refine absurd hrun (retire_ne_error h₂ hold₂ fun _ => ?_)
          rw [fanout_of_slot? hs₂, hzero]
        · exact absurd hrun pure_ne_error
      · exact absurd hrun pure_ne_error

/-- **To serve a request fails** only when a counter is full, or when the node is live and what
its target went to is dead. -/
theorem serve_eq_error {r : Request} {rest : List Request} {moved : Renaming}
    (h : n.Consistent (Request.targets (r :: rest))) (hnode : r.node < n.size)
    (htarget : (moved.resolve r.target).node < n.size)
    (hrun : Edit.serve moved r n = .error f m) :
    f = .counterOverflow ∨ (f = .deadReplacement (moved.resolve r.target) r.node ∧
      n.isLive r.node = true ∧ n.isDead (moved.resolve r.target).node = true) := by
  rcases bind_eq_error.mp hrun with hrun | ⟨slot, l, hslot, hrun⟩
  · exact absurd hrun (Edit.slot_ne_error hnode)
  obtain ⟨hs, rfl⟩ := Edit.slot_eq_ok.mp hslot
  split_ifs at hrun with hskip
  · rcases bind_eq_error.mp hrun with hrun | ⟨_, _, -, hrun⟩
    · exact absurd hrun (release_ne_error (Request.targets_cons r rest ▸ h))
    · exact absurd hrun pure_ne_error
  · simp only [Bool.or_eq_true, beq_iff_eq, not_or, Bool.not_eq_true] at hskip
    have hlive : n.isLive r.node = true := by simp [Network.isLive, hs, hskip.1]
    rcases bind_eq_error.mp hrun with hrun | ⟨followUps, l, huses, hrun⟩
    · refine (replaceUses_eq_error h hnode htarget hskip.2 hrun).imp_right ?_
      exact And.imp_right fun hdead => ⟨hlive, hdead⟩
    · obtain ⟨hl, -⟩ := replaceUses_spec h hskip.2 huses
      rw [Request.targets_cons, Multiset.add_cons] at hl
      rcases bind_eq_error.mp hrun with hrun | ⟨_, _, -, hrun⟩
      · exact absurd hrun (release_ne_error hl)
      · exact absurd hrun pure_ne_error

end AndInverter
