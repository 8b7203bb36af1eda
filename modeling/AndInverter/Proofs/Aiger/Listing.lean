import AndInverter.Proofs.Aiger.Load
import AndInverter.Proofs.Aiger.Parse
import AndInverter.Proofs.Aiger.Write

/-!
The file of a network is dense: fan-ins have lower places than their gates, and distinct gates
have distinct fan-ins.

* `Network.place_injOn`, `Network.Gate.place_lt`: the places of nodes;
* `listing_references`: a file refers to variables as the network refers to nodes;
* `listing_dense`: the file is dense, and `listing_pairwise`: its definitions stand in the
  order in which their literals become known;
* `Document.Dense.legible`: a dense file with few enough variables is legible.
-/

namespace AndInverter

open Aiger

namespace Network

variable {n : Network} {g u v : Nat} {a b s t : Signal}

/-! ### Places -/

lemma place_zero (hn : n.WellFormed) (hinputs : n.inputs.toList.Pairwise (· < ·)) :
    n.place 0 = 0 := by
  rw [place, topology_eq hn hinputs, List.cons_append, List.idxOf_cons_self]

section Places

variable (hn : n.WellFormed) (hacyclic : n.Acyclic)

include hn hacyclic

lemma place_injOn (hu : n.isLive u = true) (h : n.place u = n.place v) : u = v :=
  (List.idxOf_inj ((mem_topology hn hacyclic).mpr hu)).mp h

/-- A fan-in has a lower place than its gate. -/
lemma Gate.place_lt (hg : n.Gate g a b) :
    n.place a.node < n.place g ∧ n.place b.node < n.place g := by
  obtain ⟨horder, -⟩ := n.topology_spec
  have hmem := (mem_topology hn hacyclic).mpr hg.isLive
  exact ⟨horder.idxOf_lt hmem hg.reads_left, horder.idxOf_lt hmem hg.reads_right⟩

lemma renumber_injOn (hs : n.isLive s.node = true)
    (h : (s.renumber n.place).code = (t.renumber n.place).code) : s = t := by
  have heq := Signal.code_inj h
  simp only [Signal.renumber, Signal.mk.injEq] at heq
  obtain ⟨hnode, hcomplemented⟩ := heq
  cases s
  cases t
  exact congr (congrArg Signal.mk (place_injOn hn hacyclic hs hnode)) hcomplemented

variable (hinputs : n.inputs.toList.Pairwise (· < ·))

include hinputs

lemma length_topology : n.topology.order.toList.length = 1 + n.inputs.size + n.liveGates := by
  rw [topology_eq hn hinputs, List.length_append, List.length_cons, List.length_map,
    length_listedGates hn hacyclic, Array.length_toList]
  omega

lemma place_lt (hv : n.isLive v = true) : n.place v < 1 + n.inputs.size + n.liveGates := by
  rw [← length_topology hn hacyclic hinputs]
  exact List.idxOf_lt_length_of_mem ((mem_topology hn hacyclic).mpr hv)

lemma place_pos (hv : n.isLive v = true) (hne : v ≠ 0) : 0 < n.place v := by
  refine Nat.pos_of_ne_zero fun h0 => hne ?_
  exact place_injOn hn hacyclic hv (h0.trans (place_zero hn hinputs).symm)

lemma map_place_listedGates :
    n.listedGates.map (fun p => n.place p.1) = List.range' (1 + n.inputs.size) n.liveGates := by
  rw [place_eq_varOf hn hinputs]
  exact map_varOf_listedGates hn hacyclic

lemma map_place_inputs : n.inputs.toList.map n.place = List.range' 1 n.inputs.size := by
  refine List.ext_getElem (by simp) fun i hi hi' => ?_
  have hlt : i + 1 < n.topology.order.toList.length := by
    rw [length_topology hn hacyclic hinputs]
    simp only [List.length_range'] at hi'
    omega
  have hi'' : i < n.inputs.toList.length := by simpa using hi
  have hat : n.topology.order.toList[i + 1] = n.inputs.toList[i] := by
    simp only [topology_eq hn hinputs, List.cons_append, List.getElem_cons_succ]
    exact List.getElem_append_left hi''
  rw [List.getElem_map, List.getElem_range', place, ← hat,
    n.topology_spec.1.nodup.idxOf_getElem _ hlt]
  omega

/-- The gates are the nodes with the higher places. -/
lemma isLiveGate_iff_place (hv : n.isLive v = true) :
    n.isLiveGate v = true ↔ 1 + n.inputs.size ≤ n.place v := by
  constructor
  · intro hgate
    obtain ⟨a, b, hg⟩ := isLiveGate_iff.mp hgate
    have hmem := List.mem_map_of_mem (f := fun p => n.place p.1)
      ((mem_listedGates hn hacyclic (p := (v, a, b))).mpr hg)
    rw [map_place_listedGates hn hacyclic hinputs, List.mem_range'_1] at hmem
    exact hmem.1
  · intro hle
    by_contra hgate
    rcases hn.mem_sources_iff.mp (mem_sources.mpr ⟨hv, hgate⟩) with rfl | hinput
    · rw [place_zero hn hinputs] at hle
      omega
    · have hmem := List.mem_map_of_mem (f := n.place) (Array.mem_toList_iff.mpr hinput)
      rw [map_place_inputs hn hacyclic hinputs, List.mem_range'_1] at hmem
      omega

end Places

/-! ### The definitions -/

/-- The larger literal of a definition is the fan-in with the higher place. -/
lemma gateDefinition_rhs₀ (n : Network) (g : Nat) (a b : Signal) :
    (n.gateDefinition (g, a, b)).rhs₀ / 2 = max (n.place a.node) (n.place b.node) := by
  have hca := (a.renumber n.place).code_div_two
  have hcb := (b.renumber n.place).code_div_two
  simp only [gateDefinition, Signal.renumber] at hca hcb ⊢
  omega

lemma gateDefinition_rhs₁ (n : Network) (g : Nat) (a b : Signal) :
    (n.gateDefinition (g, a, b)).rhs₁ / 2 = min (n.place a.node) (n.place b.node) := by
  have hca := (a.renumber n.place).code_div_two
  have hcb := (b.renumber n.place).code_div_two
  simp only [gateDefinition, Signal.renumber] at hca hcb ⊢
  omega

section Definitions

variable (hn : n.WellFormed) (hacyclic : n.Acyclic)

include hn hacyclic

lemma mem_listing {e : Definition} : e ∈ n.listing.definitions ↔
    ∃ g a b, n.Gate g a b ∧ e = n.gateDefinition (g, a, b) := by
  simp only [listing, List.mem_map, mem_listedGates hn hacyclic]
  constructor
  · rintro ⟨p, hp, rfl⟩
    exact ⟨p.1, p.2.1, p.2.2, hp, rfl⟩
  · rintro ⟨g, a, b, hg, rfl⟩
    exact ⟨(g, a, b), hg, rfl⟩

/-- Distinct gates ask for distinct keys. -/
lemma gateDefinition_injective {g' : Nat} {a' b' : Signal} (hg : n.Gate g a b)
    (hg' : n.Gate g' a' b')
    (hkey : (n.gateDefinition (g, a, b)).key = (n.gateDefinition (g', a', b')).key) : g = g' := by
  obtain ⟨hla, hlb⟩ := hn.fanIns_live g a b hg
  have hmin := congrArg (Signal.code ∘ AndKey.lhs) hkey
  have hmax := congrArg (Signal.code ∘ AndKey.rhs) hkey
  simp only [Function.comp_apply, Definition.key, code_ofLiteral, gateDefinition] at hmin hmax
  have hpairs : ((a.renumber n.place).code = (a'.renumber n.place).code ∧
      (b.renumber n.place).code = (b'.renumber n.place).code) ∨
        ((a.renumber n.place).code = (b'.renumber n.place).code ∧
          (b.renumber n.place).code = (a'.renumber n.place).code) := by
    omega
  rcases hpairs with ⟨ha, hb⟩ | ⟨ha, hb⟩
  · obtain rfl := renumber_injOn hn hacyclic hla ha
    obtain rfl := renumber_injOn hn hacyclic hlb hb
    exact hn.gate_injective hg hg'
  · -- the fan-ins of both gates are in canonical order
    obtain rfl := renumber_injOn hn hacyclic hla ha
    obtain rfl := renumber_injOn hn hacyclic hlb hb
    exact absurd (hn.ordered g a b hg).2 (Nat.lt_asymm (hn.ordered g' b a hg').2)

lemma listing_keys_nodup : (n.listing.definitions.map (·.key)).Nodup := by
  have hnodup : n.listedGates.Nodup :=
    ((listedGates_perm hn hacyclic).nodup_iff.mpr n.nodup_gates).of_map _
  rw [listing, List.map_map]
  refine hnodup.map_on ?_
  intro p hp q hq hkey
  have hgp := (mem_listedGates hn hacyclic).mp hp
  have hgq := (mem_listedGates hn hacyclic).mp hq
  have hfst := gateDefinition_injective hn hacyclic hgp hgq hkey
  rw [hfst] at hgp
  obtain ⟨ha, hb⟩ := hgp.unique hgq
  exact Prod.ext hfst (Prod.ext ha hb)

/-- The nodes to which a network refers, along the list of its gates. -/
lemma references_perm : n.references.Perm
    (n.listedGates.flatMap (fun p => [p.2.1.node, p.2.2.node]) ++
      n.outputs.toList.map (·.node)) := by
  refine List.Perm.append ?_ (.refl _)
  refine ((listedGates_perm hn hacyclic).symm.flatMap_right _).trans (.of_eq ?_)
  rw [List.flatMap_map]
  refine List.flatMap_congr fun p hp => ?_
  rw [((mem_listedGates hn hacyclic).mp hp).fanIns?]

/-- **A file refers to variables** as the network refers to nodes. -/
lemma listing_references : n.listing.references.Perm (n.references.map n.place) := by
  refine .trans ?_ ((references_perm hn hacyclic).symm.map n.place)
  rw [Document.references, listing, List.flatMap_map, List.map_map, List.map_append,
    List.map_flatMap, List.map_map]
  refine List.Perm.append (List.Perm.flatMap_left _ fun p _ => ?_) (.of_eq ?_)
  · rw [gateDefinition_rhs₀ n p.1 p.2.1 p.2.2, gateDefinition_rhs₁ n p.1 p.2.1 p.2.2]
    rcases le_total (n.place p.2.1.node) (n.place p.2.2.node) with hle | hle
    · rw [max_eq_right hle, min_eq_left hle]
      exact .swap _ _ _
    · rw [max_eq_left hle, min_eq_right hle]
      exact .refl _
  · exact List.map_congr_left fun s _ => (s.renumber n.place).code_div_two

/-- A file refers to a variable as often as its node is in use. -/
lemma listing_count_le {limit : Nat} (hfanout : ∀ v, n.fanout v ≤ limit) (w : Nat) :
    n.listing.references.count w ≤ limit := by
  rw [(listing_references hn hacyclic).count_eq]
  by_cases hw : w ∈ n.references.map n.place
  · obtain ⟨u, hu, rfl⟩ := List.mem_map.mp hw
    have hcount : (n.references.map n.place).count (n.place u) = n.references.count u :=
      count_map_of_injOn fun v hv => place_injOn hn hacyclic (hn.isLive_of_mem_references hv)
    have huses := hn.fanout_eq u (hn.isLive_of_mem_references hu)
    rw [hcount, count_references]
    exact (Nat.le_of_eq huses.symm).trans (hfanout u)
  · rw [List.count_eq_zero_of_not_mem hw]
    exact Nat.zero_le limit

variable (hinputs : n.inputs.toList.Pairwise (· < ·))

include hinputs

lemma listing_operands {e : Definition} (he : e ∈ n.listing.definitions) :
    0 < e.rhs₁ / 2 ∧ e.rhs₁ / 2 < e.rhs₀ / 2 ∧ e.rhs₀ / 2 < e.var := by
  obtain ⟨g, a, b, hg, rfl⟩ := (mem_listing hn hacyclic).mp he
  obtain ⟨hla, hlb⟩ := hn.fanIns_live g a b hg
  obtain ⟨hpos, hlt⟩ := hn.ordered g a b hg
  obtain ⟨hga, hgb⟩ := hg.place_lt hn hacyclic
  have ha := place_pos hn hacyclic hinputs hla (Nat.ne_of_gt hpos)
  have hb := place_pos hn hacyclic hinputs hlb (by omega)
  have hne : n.place a.node ≠ n.place b.node := fun heq =>
    hn.fanIns_ne hg (place_injOn hn hacyclic hla heq)
  rw [gateDefinition_rhs₀, gateDefinition_rhs₁]
  change _ ∧ _ ∧ _ < n.place g
  omega

/-! ### The file -/

/-- **The file of a network is dense.** -/
theorem listing_dense (hfanout : ∀ v, n.fanout v ≤ counterLimit) : n.listing.Dense where
  maxVar_eq := by
    simp only [listing, List.length_range', List.length_map, length_listedGates hn hacyclic]
  inputs_eq := by simp only [listing, List.length_range']
  vars_eq := by
    simp only [listing, List.map_map, List.length_range', List.length_map,
      length_listedGates hn hacyclic]
    exact map_place_listedGates hn hacyclic hinputs
  operands _ he := listing_operands hn hacyclic hinputs he
  keys_nodup := listing_keys_nodup hn hacyclic
  outputs l hl := by
    obtain ⟨s, hs, rfl⟩ := List.mem_map.mp hl
    have hlt := place_lt hn hacyclic hinputs (hn.outputs_live s (Array.mem_toList_iff.mp hs))
    rw [Signal.code_div_two]
    change n.place s.node ≤ n.inputs.size + n.liveGates
    omega
  count_le := listing_count_le hn hacyclic hfanout

/-- **The definitions of a file** stand in the order in which their literals become known. -/
theorem listing_pairwise :
    n.listing.definitions.Pairwise fun e e' => e.rhs₀ / 2 ≤ e'.rhs₀ / 2 := by
  have hready : (n.listedGates.map (·.1)).Pairwise (n.Precedes n.topology.order.toList) := by
    refine List.Pairwise.sublist ?_ n.topology_breadthFirst.1
    rw [topology_eq hn hinputs]
    exact List.sublist_append_right _ _
  rw [List.pairwise_map] at hready
  rw [listing, List.pairwise_map]
  refine hready.imp_of_mem ?_
  intro p q hp hq hpq
  have hgp := (mem_listedGates hn hacyclic).mp hp
  have hgq := (mem_listedGates hn hacyclic).mp hq
  rw [Precedes, hgp.readyAt, hgq.readyAt] at hpq
  rw [gateDefinition_rhs₀ n p.1 p.2.1 p.2.2, gateDefinition_rhs₀ n q.1 q.2.1 q.2.2]
  simp only [place]
  omega

end Definitions

end Network

/-- **A dense file is legible** if its numbers are small enough. -/
theorem Aiger.Document.Dense.legible {d : Document} (hd : d.Dense)
    (hvars : 2 * d.maxVar + 1 ≤ numberLimit) (houtputs : d.outputs.length ≤ numberLimit) :
    d.Legible where
  count_le := hd.maxVar_eq.ge
  maxVar_le := by omega
  outputs_length_le := houtputs
  inputs v hv := by
    rw [hd.inputs_eq, List.mem_range'_1] at hv
    have := hd.maxVar_eq
    omega
  outputs l hl := by
    have := hd.outputs l hl
    omega
  definitions e he := by
    have hvar : e.var ∈ d.definitions.map (·.var) := List.mem_map_of_mem he
    rw [hd.vars_eq, List.mem_range'_1] at hvar
    have hoperands := hd.operands e he
    have := hd.maxVar_eq
    refine ⟨by omega, ?_⟩
    simp only [Definition.numbers, List.forall_mem_cons]
    refine ⟨by omega, by omega, by omega, fun _ h => absurd h List.not_mem_nil⟩
  nodup := by
    rw [hd.inputs_eq, hd.vars_eq, List.range'_append_1]
    exact List.nodup_range' 1

end AndInverter
