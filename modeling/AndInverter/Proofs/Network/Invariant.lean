import AndInverter.Network.Invariant
import AndInverter.Proofs.Network.Consistent
import AndInverter.Proofs.Run

/-!
What the check of consistency finds out, of any network whatsoever.

* `Network.HashExact`: the structural hash describes the live gates, and
  `hashExact_of_forall`: it is enough that it knows every gate and has as many entries;
* `Network.Coherent` and `checkInvariants_passes_iff`: the check passes exactly when the network
  is coherent;
* `checkInvariants_eq_ok`: it passes in every well-formed network.
-/

namespace AndInverter

namespace Network

variable {n : Network} {g : Nat} {a b s : Signal}

/-! ### The structural hash -/

/-- **The structural hash is exact**: its entries lead from the fan-ins of the live gates to these,
and there are no others. -/
def HashExact (n : Network) : Prop :=
  ∀ (k : AndKey) (g : Nat), n.hash[k]? = some g ↔ n.Gate g k.lhs k.rhs

lemma mem_hash_toList {k : AndKey} : (k, g) ∈ n.hash.toList ↔ n.hash[k]? = some g :=
  Std.ExtTreeMap.mem_toList_iff_getElem?_eq_some

/-- An exact structural hash has as many entries as there are live gates. -/
lemma HashExact.size (h : n.HashExact) : n.hash.size = n.gates.length := by
  -- a gate has one key, so distinct entries lead to distinct gates
  have hnodup : (n.hash.toList.map (·.2)).Nodup := by
    rw [List.Nodup, List.pairwise_map]
    refine (Std.ExtTreeMap.distinct_keys_toList (t := n.hash)).imp_of_mem ?_
    rintro ⟨k, g⟩ ⟨k', g'⟩ hk hk' hne heq
    obtain rfl : g = g' := heq
    have hg := (h k g).mp (mem_hash_toList.mp hk)
    have hg' := (h k' g).mp (mem_hash_toList.mp hk')
    exact hne (Std.LawfulEqCmp.compare_eq_iff_eq.mpr (hg'.key_iff.mp hg))
  have hperm : (n.hash.toList.map (·.2)).Perm n.gates := by
    refine (List.perm_ext_iff_of_nodup hnodup n.nodup_gates).mpr ?_
    intro g
    rw [List.mem_map, mem_gates]
    constructor
    · rintro ⟨⟨k, g'⟩, hk, rfl⟩
      exact ⟨k.lhs, k.rhs, (h k g').mp (mem_hash_toList.mp hk)⟩
    · rintro ⟨a, b, hg⟩
      exact ⟨(⟨a, b⟩, g), mem_hash_toList.mpr ((h ⟨a, b⟩ g).mpr hg), rfl⟩
  rw [← Std.ExtTreeMap.length_toList, ← hperm.length_eq, List.length_map]

/-- **Counting entries is enough**: where the structural hash knows every live gate and has as many
entries as there are, it has no stale, no foreign and no second entry. -/
lemma hashExact_of_forall (hgates : ∀ g a b, n.Gate g a b → n.hash[(⟨a, b⟩ : AndKey)]? = some g)
    (hsize : n.hash.size = n.gates.length) : n.HashExact := by
  have hentry : ∀ {g a b}, n.Gate g a b → ((⟨a, b⟩ : AndKey), g) ∈ n.hash.toList :=
    fun hg => mem_hash_toList.mpr (hgates _ _ _ hg)
  have hsub : n.gates ⊆ n.hash.toList.map (·.2) := by
    intro g hg
    obtain ⟨a, b, hg⟩ := mem_gates.mp hg
    exact List.mem_map.mpr ⟨_, hentry hg, rfl⟩
  -- as many entries as gates: each gate is led to once, and nothing else is
  have hperm : n.gates.Perm (n.hash.toList.map (·.2)) := by
    refine (n.nodup_gates.subperm hsub).perm_of_length_le ?_
    rw [List.length_map, Std.ExtTreeMap.length_toList, hsize]
  have hnodup : (n.hash.toList.map (·.2)).Nodup := hperm.nodup_iff.mp n.nodup_gates
  intro k g
  constructor
  · intro hk
    have hmem := mem_hash_toList.mpr hk
    obtain ⟨a, b, hg⟩ := mem_gates.mp (hperm.mem_iff.mpr (List.mem_map.mpr ⟨_, hmem, rfl⟩))
    have heq := List.inj_on_of_nodup_map hnodup hmem (hentry hg) rfl
    exact hg.key_iff.mpr (congrArg Prod.fst heq)
  · exact fun hg => hgates g k.lhs k.rhs hg

/-! ### The check -/

lemma checkFanIn_eq_ok_iff : n.checkFanIn g s = .ok () ↔ n.isLive s.node = true := by
  rw [checkFanIn, isLive]
  cases n.slot? s.node with
  | none => simp
  | some slot => cases hdead : slot.dead <;> simp [hdead]

/-- A live gate passes if its fan-ins are live and in order and its key leads to it. -/
lemma checkGate_eq_ok_iff (hg : n.Gate g a b) : n.checkGate g = .ok () ↔
    n.isLive a.node = true ∧ n.isLive b.node = true ∧ a < b ∧
      n.hash[(⟨a, b⟩ : AndKey)]? = some g := by
  rw [checkGate, hg.fanIns?]
  simp only [check_bind_eq_except_ok, checkFanIn_eq_ok_iff, guard_eq_except_ok,
    refuse_eq_except_ok, ne_eq, not_not]

lemma checkOutput_eq_ok_iff {index : Nat} :
    n.checkOutput index s = .ok () ↔ n.isLive s.node = true := by
  rw [checkOutput]
  split
  · next hs => exact iff_of_true rfl hs
  · next hs => exact iff_of_false nofun hs

/-- The check passes if the gates and the outputs do and the two counts are right. -/
lemma checkInvariants_eq_ok_iff_forall : n.checkInvariants = .ok () ↔
    (∀ g ∈ n.gates, n.checkGate g = .ok ()) ∧ n.gates.length = n.liveGates ∧
      n.hash.size = n.gates.length ∧ ∀ s ∈ n.outputs, n.isLive s.node = true := by
  have houtputs : (∀ x ∈ n.outputs.toList.zipIdx, n.checkOutput x.2 x.1 = .ok ()) ↔
      ∀ s ∈ n.outputs, n.isLive s.node = true := by
    simp only [checkOutput_eq_ok_iff, ← Array.mem_toList_iff]
    conv_rhs => rw [← List.zipIdx_map_fst 0 n.outputs.toList]
    rw [List.forall_mem_map]
  rw [checkInvariants]
  simp only [check_bind_eq_except_ok, forM_eq_except_ok, guard_eq_except_ok, ne_eq, not_not,
    houtputs]

/-- **A coherent network**: what live gates and outputs refer to is there and live, fan-ins are in
strict order, the counter says how many live gates there are, and the structural hash is exact. -/
structure Coherent (n : Network) : Prop where
  fanIns_live : ∀ g a b, n.Gate g a b → n.isLive a.node = true ∧ n.isLive b.node = true
  fanIns_lt : ∀ g a b, n.Gate g a b → a < b
  outputs_live : ∀ s ∈ n.outputs, n.isLive s.node = true
  liveGates_eq : n.liveGates = n.gates.length
  hash_exact : n.HashExact

/-- A well-formed network is coherent, and more. -/
lemma WellFormed.coherent (h : n.WellFormed) : n.Coherent where
  fanIns_live := h.fanIns_live
  fanIns_lt g a b hg := by
    have hord := (h.ordered g a b hg).2
    rw [Signal.lt_iff_code_lt]
    simp only [← Signal.code_div_two] at hord
    omega
  outputs_live := h.outputs_live
  liveGates_eq := h.liveGates_eq
  hash_exact := h.hash_iff

/-- The check finds nothing wrong in a coherent network. -/
lemma Coherent.checkInvariants_eq_ok (h : n.Coherent) : n.checkInvariants = .ok () := by
  refine checkInvariants_eq_ok_iff_forall.mpr
    ⟨?_, h.liveGates_eq.symm, h.hash_exact.size, h.outputs_live⟩
  intro g hg
  obtain ⟨a, b, hg⟩ := mem_gates.mp hg
  obtain ⟨hla, hlb⟩ := h.fanIns_live g a b hg
  exact (checkGate_eq_ok_iff hg).mpr ⟨hla, hlb, h.fanIns_lt g a b hg, (h.hash_exact _ _).mpr hg⟩

/-- **The check of consistency passes** in a well-formed network. -/
theorem checkInvariants_eq_ok (h : n.WellFormed) : n.checkInvariants = .ok () :=
  h.coherent.checkInvariants_eq_ok

/-- **The check of consistency passes exactly in the coherent networks**, whatever the nodes, the
structural hash, the outputs and the counters of a network are.  It only looks up the keys of the
live gates and counts the entries, and that is enough to find every entry that does not belong. -/
theorem checkInvariants_passes_iff (n : Network) : n.checkInvariants = .ok () ↔ n.Coherent := by
  refine ⟨?_, Coherent.checkInvariants_eq_ok⟩
  intro h
  obtain ⟨hchecked, hcount, hsize, houtputs⟩ := checkInvariants_eq_ok_iff_forall.mp h
  have hgates : ∀ g a b, n.Gate g a b → n.isLive a.node = true ∧ n.isLive b.node = true ∧
      a < b ∧ n.hash[(⟨a, b⟩ : AndKey)]? = some g := fun g a b hg =>
    (checkGate_eq_ok_iff hg).mp (hchecked g (mem_gates.mpr ⟨a, b, hg⟩))
  constructor
  case fanIns_live => exact fun g a b hg => ⟨(hgates g a b hg).1, (hgates g a b hg).2.1⟩
  case fanIns_lt => exact fun g a b hg => (hgates g a b hg).2.2.1
  case outputs_live => exact houtputs
  case liveGates_eq => exact hcount.symm
  case hash_exact =>
    exact hashExact_of_forall (fun g a b hg => (hgates g a b hg).2.2.2) hsize

end Network

end AndInverter
