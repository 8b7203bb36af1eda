import AndInverter.Proofs.Network.Generation
import AndInverter.Proofs.Network.Progress

/-!
A substitution wears a network down.  While the uses of a node move to a signal, no other node
gains a use and no gate appears; and when the generation advances, the node has lost a use or a
gate has died.

* `Network.Wears` is this relation, and `Wears.trans` chains it;
* `replaceUses_wears`, `release_worn`: what serves a request wears the network down;
* `Serving.potential` weighs the uses of replaced nodes and the gates of a state, and
  `Serving.Step.potential_le`: no step raises it, and no step that changes the graph keeps it.
-/

namespace AndInverter

open Network Relation

namespace Network

variable {n m l : Network} {g old target v : Nat} {a b s new : Signal} {pins : Multiset Nat}

/-! ### Wear -/

/-- **Wear**: nodes other than the target gain no use, and no gate appears; when the generation
advances, the node has lost a use or a gate has died. -/
structure Wears (n m : Network) (old target : Nat) : Prop where
  size : m.size = n.size
  outputs_size : m.outputs.size = n.outputs.size
  uses_le : ∀ v, v ≠ target → m.uses v ≤ n.uses v
  gates_le : m.gates.length ≤ n.gates.length
  worn : m.generation = n.generation ∨ m.uses old < n.uses old ∨ m.gates.length < n.gates.length

lemma Wears.refl (n : Network) (old target : Nat) : n.Wears n old target :=
  ⟨rfl, rfl, fun _ _ => le_rfl, le_rfl, .inl rfl⟩

lemma Wears.trans (h : n.Wears m old target) (h' : m.Wears l old target) (hne : old ≠ target) :
    n.Wears l old target where
  size := h'.size.trans h.size
  outputs_size := h'.outputs_size.trans h.outputs_size
  uses_le v hv := (h'.uses_le v hv).trans (h.uses_le v hv)
  gates_le := h'.gates_le.trans h.gates_le
  worn := by
    have huses := h.uses_le old hne
    have huses' := h'.uses_le old hne
    have hgates := h.gates_le
    have hgates' := h'.gates_le
    rcases h.worn with heq | hlt | hlt
    · rcases h'.worn with heq' | hlt | hlt
      · exact .inl (heq'.trans heq)
      · exact .inr (.inl (hlt.trans_le huses))
      · exact .inr (.inr (hlt.trans_le hgates))
    · exact .inr (.inl (huses'.trans_lt hlt))
    · exact .inr (.inr (hgates'.trans_lt hlt))

lemma SameGates.length_gates (h : SameGates n m) : m.gates.length = n.gates.length := by
  rw [Network.length_gates, Network.length_gates, h.gateSum]

lemma SameGates.uses (h : SameGates n m) (v : Nat) :
    m.uses v + n.outputUses v = n.uses v + m.outputUses v := by
  rw [Network.uses, Network.uses, h.gateSum]
  omega

lemma SameGraph.uses (h : SameGraph n m) (v : Nat) : m.uses v = n.uses v := by
  have huses := h.toSameGates.uses v
  rw [outputUses, outputUses, h.outputs] at huses
  omega

lemma SameGraph.wears (h : SameGraph n m) (hgeneration : m.generation = n.generation) :
    n.Wears m old target :=
  ⟨h.size, by rw [h.outputs], fun v _ => (h.uses v).le, h.toSameGates.length_gates.le,
    .inl hgeneration⟩

/-- Where nodes die, no node gains a use. -/
lemma Retires.uses_le (h : n.Retires m) (v : Nat) : m.uses v ≤ n.uses v := by
  rw [uses, uses, outputUses, outputUses, h.outputs, gateSum, gateSum, h.size]
  refine Nat.add_le_add_right (Finset.sum_le_sum fun i _ => ?_) _
  rcases h.shape i with hi | ⟨k, -, hi⟩
  · rw [operands?, operands?, hi]
  · rw [show m.operands? i = none by simp [operands?, hi]]
    exact Nat.zero_le _

lemma Retires.wears (h : n.Retires m)
    (hworn : m.generation = n.generation ∨ m.gates.length < n.gates.length) :
    n.Wears m old target :=
  ⟨h.size, by rw [h.outputs], fun v _ => h.uses_le v, h.length_gates_le, hworn.imp_right .inr⟩

/-- There are no more uses of a node than nodes and outputs. -/
lemma Consistent.uses_le (h : n.Consistent pins) (v : Nat) :
    n.uses v ≤ n.size + n.outputs.size :=
  (h.uses_le_gates v).trans (Nat.add_le_add_right n.length_gates_le_size _)

end Network

variable {n m : Network} {bound g k old v : Nat} {a b s new : Signal} {key : AndKey}
  {pins : Multiset Nat} {worklist : List Nat}

/-! ### Retiring -/

lemma retireAll_worn (h : n.Consistent pins)
    (hwork : ∀ v ∈ worklist, n.isLive v = true → n.fanout v = 0)
    (hrun : Edit.retireAll bound worklist n = .ok () m) :
    m.generation = n.generation ∨ m.gates.length < n.gates.length := by
  induction bound generalizing worklist with
  | zero =>
      cases worklist with
      | nil =>
          obtain ⟨-, rfl⟩ := pure_eq_ok.mp hrun
          exact .inl rfl
      | cons g rest => exact (throw_eq_ok.mp hrun).elim
  | succ bound ih =>
      cases worklist with
      | nil =>
          obtain ⟨-, rfl⟩ := pure_eq_ok.mp hrun
          exact .inl rfl
      | cons g rest =>
          have hrest : ∀ v ∈ rest, n.isLive v = true → n.fanout v = 0 :=
            fun v hv => hwork v (List.mem_cons_of_mem g hv)
          obtain ⟨a, b, found, n₁, hg, hone, hrun⟩ | ⟨-, hrun⟩ := retireAll_cons_eq_ok hrun
          · obtain ⟨h₁, hret, hfound, -, hdead, -⟩ :=
              retireOne_spec h hg (hwork g List.mem_cons_self hg.isLive) hone
            have hwork₁ : ∀ v ∈ found ++ rest, n₁.isLive v = true → n₁.fanout v = 0 := by
              intro v hv hlv
              rcases List.mem_append.mp hv with hv | hv
              · exact (hfound v hv).1
              · exact Nat.eq_zero_of_le_zero (hrest v hv (hret.isLive hlv) ▸ hret.fanout_le v)
            have hlt := hret.length_gates_lt (isLiveGate_iff.mpr ⟨a, b, hg⟩) hdead
            have hle := (retireAll_spec h₁ hwork₁ hrun).2.1.length_gates_le
            exact .inr (hle.trans_lt hlt)
          · exact ih hrest hrun

lemma retire_worn (h : n.Consistent pins) (h0 : n.isLive g = true → n.fanout g = 0)
    (hrun : Edit.retire g n = .ok () m) :
    m.generation = n.generation ∨ m.gates.length < n.gates.length := by
  simp only [Edit.retire, bind_eq_ok, Edit.slot_eq_ok] at hrun
  obtain ⟨s, _, ⟨-, rfl⟩, hrun⟩ := hrun
  split_ifs at hrun
  · obtain ⟨_, _, hview, hrun⟩ := bind_eq_ok.mp hrun
    obtain ⟨rfl, rfl⟩ := Edit.view_eq_ok.mp hview
    refine retireAll_worn h ?_ hrun
    intro v hv
    rwa [List.mem_singleton.mp hv]
  · obtain ⟨-, rfl⟩ := pure_eq_ok.mp hrun
    exact .inl rfl

/-- **A pin that is removed** advances the generation only if a gate dies. -/
lemma release_worn (h : n.Consistent (g ::ₘ pins)) (hrun : Edit.release g n = .ok () m) :
    m.generation = n.generation ∨ m.gates.length < n.gates.length := by
  simp only [Edit.release, bind_eq_ok] at hrun
  obtain ⟨left, n₁, hlow, hrun⟩ := hrun
  obtain ⟨hsame, hleft, -⟩ := lowerFanout_spec hlow
  have hgeneration := Edit.generation_of_lower hlow
  split_ifs at hrun with hzero
  · rw [← hgeneration, ← hsame.toSameGates.length_gates]
    exact retire_worn (h.lower hlow) (fun _ => hleft.trans hzero) hrun
  · obtain ⟨-, rfl⟩ := pure_eq_ok.mp hrun
    exact .inl hgeneration

/-! ### Moving uses -/

/-- A consumer that is rewired uses the node no longer. -/
lemma Network.Swap.wears {kept moved : Signal} (hswap : n.Swap g old new a b kept moved)
    (hform : conjunction kept moved = .gate key) (hne : old ≠ new.node) (hd : DiffersAt n m g)
    (hg' : m.Gate g key.lhs key.rhs) : n.Wears m old new.node := by
  have hg := hswap.gate
  have huses : ∀ v, m.uses v + (if v = old then 1 else 0)
      = n.uses v + if v = new.node then 1 else 0 := by
    intro v
    have h := hd.uses hg.lt_size v
    rw [show n.operands? g = some (a, b) from hg,
      show m.operands? g = some (key.lhs, key.rhs) from hg', Option.map_some, Option.map_some,
      Option.getD_some, Option.getD_some, hswap.pairUses, nodes_of_conjunction_gate hform,
      hswap.node_moved] at h
    omega
  have hgates := hd.length_gates hg.lt_size
  rw [show n.operands? g = some (a, b) from hg,
    show m.operands? g = some (key.lhs, key.rhs) from hg'] at hgates
  refine ⟨hd.size, by rw [hd.outputs], ?_, (Nat.add_right_cancel hgates).le, .inr (.inl ?_)⟩
  · intro v hv
    have := huses v
    rw [if_neg hv] at this
    omega
  · have := huses old
    rw [if_pos rfl, if_neg hne] at this
    omega

lemma replaceInGate_wears {result : Option Signal} (h : n.Consistent pins)
    (hl : n.isLive g = true) (hne : old ≠ new.node)
    (hrun : Edit.replaceInGate g old new n = .ok result m) : n.Wears m old new.node := by
  obtain ⟨-, -, rfl⟩ | ⟨a, b, kept, moved, hswap, hcases⟩ := replaceInGate_cases hl hrun
  · exact .refl m old new.node
  obtain ⟨_, -, -, rfl⟩ | ⟨_, _, -, -, -, -, rfl⟩ | ⟨key, hform, -, -, hrewire⟩ := hcases
  · exact .refl m old new.node
  · exact .refl m old new.node
  · obtain ⟨hd, hg', -⟩ := rewire_effect hswap.gate hrewire
    exact hswap.wears hform hne hd hg'

/-- The gates for which a request is left are listed once each, in their order. -/
lemma replaceInGates_sublist {gates : List Nat} {requests : List Request}
    (hrun : Edit.replaceInGates old new gates n = .ok requests m) :
    (requests.map (·.node)).Sublist gates := by
  induction gates generalizing n requests with
  | nil =>
      obtain ⟨rfl, -⟩ := pure_eq_ok.mp hrun
      exact .slnil
  | cons g rest ih =>
      simp only [Edit.replaceInGates, bind_eq_ok] at hrun
      obtain ⟨result, n₁, -, hrun⟩ := hrun
      cases result with
      | none => exact (ih hrun).cons g
      | some target =>
          simp only [bind_eq_ok, pure_eq_ok] at hrun
          obtain ⟨_, n₂, -, requests', _, hrest, rfl, rfl⟩ := hrun
          exact (ih hrest).cons_cons g

lemma replaceInGates_wears {gates : List Nat} {requests : List Request} (h : n.Consistent pins)
    (hl : ∀ g ∈ gates, n.isLive g = true) (hnew : n.isLive new.node = true)
    (hne : old ≠ new.node) (hrun : Edit.replaceInGates old new gates n = .ok requests m) :
    n.Wears m old new.node := by
  induction gates generalizing n pins requests with
  | nil =>
      obtain ⟨-, rfl⟩ := pure_eq_ok.mp hrun
      exact .refl n old new.node
  | cons g rest ih =>
      obtain ⟨hlg, hlrest⟩ := List.forall_mem_cons.mp hl
      simp only [Edit.replaceInGates, bind_eq_ok] at hrun
      obtain ⟨result, n₁, hgate, hrun⟩ := hrun
      have hwears := replaceInGate_wears h hlg hne hgate
      obtain ⟨rfl, h₁, hmoves, -⟩ | ⟨target, rfl, rfl, htarget, -⟩ :=
        replaceInGate_spec h hlg hnew hgate
      · exact hwears.trans (ih h₁ (fun i hi => (hmoves.isLive i).trans (hlrest i hi))
          ((hmoves.isLive new.node).trans hnew) hrun) hne
      · simp only [bind_eq_ok, pure_eq_ok] at hrun
        obtain ⟨_, n₂, hraise, requests', _, hrest, rfl, rfl⟩ := hrun
        obtain ⟨hsame, -, -⟩ := raiseFanout_spec hraise
        have hraised : n₁.Wears n₂ old new.node :=
          hsame.wears (Edit.generation_of_raise hraise)
        refine hraised.trans (ih (h.raise htarget hraise) ?_ ?_ hrest) hne
        · intro i hi
          rw [hsame.toSameGates.isLive]
          exact hlrest i hi
        · rwa [hsame.toSameGates.isLive]

/-- Each output that is redirected is a use less of the old driver. -/
lemma redirectOutputs_uses {driven : List (Signal × Nat)} (h : n.Consistent pins)
    (hnew : n.isLive new.node = true) (hne : old ≠ new.node)
    (hdistinct : (driven.map (·.2)).Nodup)
    (hdriven : ∀ p ∈ driven, n.outputs[p.2]? = some p.1 ∧ p.1.node = old)
    (hrun : (driven.forM fun (s, index) => Edit.redirectOutput old new index s) n = .ok ⟨⟩ m) :
    SameGates n m ∧ m.outputs.size = n.outputs.size ∧
      (∀ v, v ≠ new.node → m.uses v ≤ n.uses v) ∧
        m.uses old + driven.length = n.uses old := by
  induction driven generalizing n with
  | nil =>
      obtain ⟨-, rfl⟩ := pure_eq_ok.mp hrun
      exact ⟨.refl n, rfl, fun _ _ => le_rfl, rfl⟩
  | cons p rest ih =>
      obtain ⟨n₁, hone, hrest⟩ := forM_cons_eq_ok.mp hrun
      obtain ⟨hs, hold⟩ := hdriven p List.mem_cons_self
      obtain ⟨hfresh, hdistinct⟩ := List.nodup_cons.mp hdistinct
      obtain ⟨h₁, hmoves, hgates, houtputs⟩ := redirectOutput_spec h hs hold hnew hone
      have hdriven₁ : ∀ q ∈ rest, n₁.outputs[q.2]? = some q.1 ∧ q.1.node = old := by
        intro q hq
        have hqne : p.2 ≠ q.2 := fun heq => hfresh (List.mem_map.mpr ⟨q, hq, heq.symm⟩)
        rw [houtputs, Array.getElem?_setIfInBounds_ne hqne]
        exact hdriven q (List.mem_cons_of_mem p hq)
      obtain ⟨hgates', hsize, hle, huses⟩ :=
        ih h₁ ((hmoves.isLive new.node).trans hnew) hdistinct hdriven₁ hrest
      have hone : ∀ v, n₁.uses v + (if v = old then 1 else 0)
          = n.uses v + if v = new.node then 1 else 0 := by
        intro v
        have hset := outputUses_set hs houtputs v
        have hsame := hgates.uses v
        rw [hold, Signal.node_complementIf] at hset
        omega
      refine ⟨hgates.trans hgates', hsize.trans (by simp [houtputs]), ?_, ?_⟩
      · intro v hv
        have hv' := hone v
        rw [if_neg hv] at hv'
        exact (hle v hv).trans (by omega)
      · have hold' := hone old
        rw [if_pos rfl, if_neg hne] at hold'
        rw [List.length_cons]
        omega

lemma replaceInOutputs_wears {count : Nat} (h : n.Consistent pins)
    (hnew : n.isLive new.node = true) (hne : old ≠ new.node)
    (hrun : Edit.replaceInOutputs old new n = .ok count m) : n.Wears m old new.node := by
  simp only [Edit.replaceInOutputs, bind_eq_ok, Edit.view_eq_ok] at hrun
  obtain ⟨_, _, ⟨rfl, rfl⟩, _, n₁, hloop, hrun⟩ := hrun
  obtain ⟨hgates, hsize, hle, huses⟩ := redirectOutputs_uses h hnew hne (nodup_outputsOf n old)
    (fun p hp => mem_outputsOf.mp hp) hloop
  split_ifs at hrun with hdriven
  · obtain ⟨-, rfl⟩ := pure_eq_ok.mp hrun
    refine ⟨hgates.size, hsize, hle, hgates.length_gates.le, .inr (.inl ?_)⟩
    have hpos := List.length_pos_iff.mpr hdriven
    change n₁.uses old < n.uses old
    omega
  · obtain ⟨-, rfl⟩ := pure_eq_ok.mp hrun
    rw [not_not] at hdriven
    rw [hdriven] at hloop
    obtain ⟨-, rfl⟩ := pure_eq_ok.mp hloop
    exact .refl n old new.node

/-- **To move all uses of a node** wears the network down; the follow-ups are for distinct
consumers. -/
theorem replaceUses_wears {requests : List Request} (h : n.Consistent pins)
    (hne : new.node ≠ old) (hrun : Edit.replaceUses old new n = .ok requests m) :
    n.Wears m old new.node ∧ (requests.map (·.node)).Sublist (n.consumers old) := by
  obtain ⟨hnew, n₁, count, n₂, hgates, houtputs, hlast⟩ := replaceUses_cases hrun
  have hconsumers : ∀ g ∈ n.consumers old, n.isLive g = true := fun _ => isLive_of_mem_consumers
  obtain ⟨h₁, hmoves₁, -⟩ := replaceInGates_spec h hconsumers hnew hne hgates
  have hnew₁ := (hmoves₁.isLive new.node).trans hnew
  obtain ⟨h₂, -⟩ := replaceInOutputs_spec h₁ hnew₁ houtputs
  have hwears := (replaceInGates_wears h hconsumers hnew hne.symm hgates).trans
    (replaceInOutputs_wears h₁ hnew₁ hne.symm houtputs) hne.symm
  refine ⟨?_, replaceInGates_sublist hgates⟩
  rcases hlast with ⟨hzero, hretire⟩ | ⟨-, rfl⟩
  · have hfree : n₂.isLive old = true → n₂.fanout old = 0 := fun _ => hzero
    obtain ⟨-, hret, -⟩ := retire_spec h₂ hfree hretire
    exact hwears.trans (hret.wears (retire_worn h₂ hfree hretire)) hne.symm
  · exact hwears

/-! ### The potential of a state -/

namespace Serving

variable {x y : Serving}

/-- What a node weighs: its uses once it has been replaced, more than it can have before. -/
def weight (x : Serving) (v : Nat) : Nat :=
  if v ∈ x.moved then x.network.uses v else x.network.size + x.network.outputs.size + 1

/-- **The potential of a state**: the weights of the nodes, and the number of gates. -/
def potential (x : Serving) : Nat :=
  ∑ v ∈ Finset.range x.network.size, x.weight v + x.network.gates.length

lemma Valid.weight_le (h : x.Valid) (v : Nat) :
    x.weight v ≤ x.network.size + x.network.outputs.size + 1 := by
  rw [weight]
  split_ifs
  · exact (h.consistent.uses_le v).trans (Nat.le_succ _)
  · exact le_rfl

/-- The number of changes that a substitution is allowed exceeds the potential. -/
lemma Valid.potential_lt (h : x.Valid) : x.potential
    < (x.network.size + 1) * (x.network.size + x.network.outputs.size + 2) := by
  have hsum : ∑ v ∈ Finset.range x.network.size, x.weight v
      ≤ x.network.size * (x.network.size + x.network.outputs.size + 1) := by
    calc ∑ v ∈ Finset.range x.network.size, x.weight v
        ≤ ∑ _v ∈ Finset.range x.network.size,
            (x.network.size + x.network.outputs.size + 1) :=
          Finset.sum_le_sum fun v _ => h.weight_le v
      _ = x.network.size * (x.network.size + x.network.outputs.size + 1) := by simp
  have hgates := x.network.length_gates_le_size
  rw [potential]
  nlinarith

/-- States of the same size, with no heavier node and no more gates. -/
lemma potential_le (hsize : y.network.size = x.network.size)
    (hweight : ∀ v, y.weight v ≤ x.weight v)
    (hgates : y.network.gates.length ≤ x.network.gates.length) : y.potential ≤ x.potential := by
  rw [potential, potential, hsize]
  exact Nat.add_le_add (Finset.sum_le_sum fun v _ => hweight v) hgates

/-- Where a node is lighter or a gate is gone besides, the potential is less. -/
lemma potential_lt (hsize : y.network.size = x.network.size)
    (hweight : ∀ v, y.weight v ≤ x.weight v)
    (hgates : y.network.gates.length ≤ x.network.gates.length)
    (hlt : (∃ v < x.network.size, y.weight v < x.weight v) ∨
      y.network.gates.length < x.network.gates.length) : y.potential < x.potential := by
  rw [potential, potential, hsize]
  rcases hlt with ⟨v, hv, hlt⟩ | hlt
  · refine Nat.add_lt_add_of_lt_of_le ?_ hgates
    exact Finset.sum_lt_sum (fun v _ => hweight v) ⟨v, Finset.mem_range.mpr hv, hlt⟩
  · exact Nat.add_lt_add_of_le_of_lt (Finset.sum_le_sum fun v _ => hweight v) hlt

/-- **No step raises the potential**, and a step that advances the generation lowers it. -/
theorem Step.potential_le (h : Step x y) (hx : x.Valid) : y.potential ≤ x.potential ∧
    (y.network.generation = x.network.generation ∨ y.potential < x.potential) := by
  obtain @⟨n, m, r, rest, followUps, moved, moved', skipped, hserve⟩ := h
  have hn : n.Consistent (Request.targets (r :: rest)) := hx.consistent
  obtain ⟨-, -, rfl, hrelease⟩ | ⟨hlive, hne, rfl, l, huses, hrelease⟩ := serve_cases hserve
  · -- a request is dropped: gates may die, and no node gains a use
    rw [Request.targets_cons] at hn
    obtain ⟨-, hret, -⟩ := release_spec hn hrelease
    have hworn := release_worn hn hrelease
    have hweight : ∀ v, weight ⟨m, rest ++ followUps, moved',
        if skips n moved' r then r.node :: skipped else skipped⟩ v
          ≤ weight ⟨n, r :: rest, moved', skipped⟩ v := by
      intro v
      simp only [weight, hret.size, hret.outputs]
      split_ifs
      · exact hret.uses_le v
      · exact le_rfl
    refine ⟨Serving.potential_le hret.size hweight hret.length_gates_le, ?_⟩
    exact hworn.imp_right fun hlt =>
      potential_lt hret.size hweight hret.length_gates_le (.inr hlt)
  · -- a request is served: only the target gains uses, and it was not replaced
    obtain ⟨keys, hsettled⟩ := hx.settled
    have htarget := Renaming.resolve_notMem hsettled r.target
    obtain ⟨hl, -⟩ := replaceUses_spec hn hne huses
    have hpins : Request.targets followUps + Request.targets (r :: rest)
        = r.target.node ::ₘ (Request.targets followUps + Request.targets rest) := by
      rw [Request.targets_cons, Multiset.add_cons]
    obtain ⟨-, hret, -⟩ := release_spec (hpins ▸ hl) hrelease
    have hwears := (replaceUses_wears hn hne huses).1.trans
      (hret.wears (release_worn (hpins ▸ hl) hrelease)) hne.symm
    have hmany := hn.uses_le r.node
    have hself := hwears.uses_le r.node hne.symm
    have hweight : ∀ v, weight ⟨m, rest ++ followUps,
        moved.insert r.node (moved.resolve r.target),
          if skips n moved r then r.node :: skipped else skipped⟩ v
            ≤ weight ⟨n, r :: rest, moved, skipped⟩ v := by
      intro v
      simp only [weight, hwears.size, hwears.outputs_size, mem_insert_iff]
      by_cases hv : v ∈ moved
      · rw [if_pos (.inr hv), if_pos hv]
        exact hwears.uses_le v fun heq => htarget (heq ▸ hv)
      · rw [if_neg hv]
        split_ifs with hvr
        · obtain rfl := hvr.resolve_right hv
          omega
        · exact le_rfl
    refine ⟨Serving.potential_le hwears.size hweight hwears.gates_le, ?_⟩
    refine hwears.worn.imp_right fun hworn =>
      potential_lt hwears.size hweight hwears.gates_le (hworn.imp_left fun huse => ?_)
    refine ⟨r.node, lt_size_of_isLive hlive, ?_⟩
    simp only [weight, mem_insert_iff, true_or, if_true]
    split_ifs
    · exact huse
    · omega

end Serving

end AndInverter
