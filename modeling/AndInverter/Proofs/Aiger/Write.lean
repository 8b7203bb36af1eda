import AndInverter.Aiger.Write
import AndInverter.Proofs.Network.Breadth
import AndInverter.Proofs.Network.Isomorphism
import AndInverter.Proofs.Run

/-!
The circuit file of an acyclic network, written out.  The variable of a node is its place in
the roster of the network; where the inputs stand in the order of their positions, this is its
place in the order of the network.

* `Network.roster_isOrder`: the constant, the inputs and then the gates are an order;
* `numbering_getD`: the variables are the places in it;
* `document_eq_layout`: a file is written, and it is laid out by the variables;
* `document_eq_ok`: with inputs in order it is `Network.listing`.
-/

namespace AndInverter

open Aiger

namespace Network

variable {n : Network} {v : Nat} {s : Signal}

/-! ### The order -/

/-- **The place of a node** in the order of its network. -/
def place (n : Network) (v : Nat) : Nat := n.topology.order.toList.idxOf v

/-- The live gates with their fan-ins, in the order of their network. -/
def listedGates (n : Network) : List (Nat × Signal × Signal) := gatesInOrder n n.topology.order

/-- In an acyclic network the order has all live nodes. -/
lemma mem_topology (hn : n.WellFormed) (hacyclic : n.Acyclic) :
    v ∈ n.topology.order.toList ↔ n.isLive v = true := by
  obtain ⟨horder, -⟩ := n.topology_spec
  exact ⟨horder.isLive v, horder.mem_of_acyclic hacyclic hn.fanIns_live⟩

lemma unvisited_eq_nil (hn : n.WellFormed) (hacyclic : n.Acyclic) :
    n.topology.unvisited = [] := by
  obtain ⟨-, hunvisited⟩ := n.topology_spec
  refine List.eq_nil_iff_forall_not_mem.mpr ?_
  intro v hv
  obtain ⟨hl, hnot⟩ := (hunvisited v).mp hv
  exact hnot (Array.mem_toList_iff.mp ((mem_topology hn hacyclic).mpr hl))

lemma mem_listedGates (hn : n.WellFormed) (hacyclic : n.Acyclic) {p : Nat × Signal × Signal} :
    p ∈ n.listedGates ↔ n.Gate p.1 p.2.1 p.2.2 := by
  rw [listedGates, gatesInOrder, List.mem_filterMap]
  constructor
  · rintro ⟨v, hv, hp⟩
    obtain ⟨q, hq, rfl⟩ := Option.map_eq_some_iff.mp hp
    exact gate_of_fanIns? hq ((mem_topology hn hacyclic).mp hv)
  · intro hg
    refine ⟨p.1, (mem_topology hn hacyclic).mpr hg.isLive, ?_⟩
    rw [hg.fanIns?]
    rfl

lemma map_fst_gatesInOrder (nodes : Array Nat) : (gatesInOrder n nodes).map (·.1)
    = nodes.toList.filter fun v => (n.fanIns? v).isSome := by
  rw [gatesInOrder, List.map_filterMap, ← List.filterMap_eq_filter]
  refine List.filterMap_congr fun v _ => ?_
  cases hop : n.fanIns? v <;> simp [Option.guard, hop]

/-- The order starts with the sources; all gates come behind them. -/
lemma topology_eq_append (n : Network) :
    n.topology.order.toList = n.sources.toList ++ n.listedGates.map (·.1) := by
  obtain ⟨rest, hrest⟩ := n.topology_breadthFirst.2
  obtain ⟨horder, -⟩ := n.topology_spec
  have hnodup := hrest ▸ horder.nodup
  have hgate : ∀ v ∈ rest, (n.fanIns? v).isSome = true := by
    intro v hv
    have hl := horder.isLive v (hrest ▸ List.mem_append_right _ hv)
    by_contra hnone
    have hsource : v ∈ n.sources := by
      refine mem_sources.mpr ⟨hl, fun hg => hnone ?_⟩
      obtain ⟨a, b, hg⟩ := isLiveGate_iff.mp hg
      rw [hg.fanIns?]
      rfl
    exact (List.nodup_append.mp hnodup).2.2 v (Array.mem_toList_iff.mpr hsource) v hv rfl
  have hsource : ∀ v ∈ n.sources.toList, ¬ (n.fanIns? v).isSome = true := by
    intro v hv hsome
    obtain ⟨hl, hnot⟩ := mem_sources.mp (Array.mem_toList_iff.mp hv)
    obtain ⟨p, hp⟩ := Option.isSome_iff_exists.mp hsome
    exact hnot (isLiveGate_iff.mpr ⟨p.1, p.2, gate_of_fanIns? hp hl⟩)
  rw [listedGates, map_fst_gatesInOrder, ← hrest, List.filter_append,
    List.filter_eq_nil_iff.mpr hsource, List.filter_eq_self.mpr hgate]
  rfl

/-! ### The roster -/

/-- **The roster of a network**: the constant, the inputs, and then the gates. -/
def roster (n : Network) : List Nat := 0 :: n.inputs.toList ++ n.listedGates.map (·.1)

lemma WellFormed.ne_zero_of_input (hn : n.WellFormed) (hv : v ∈ n.inputs.toList) : v ≠ 0 := by
  obtain ⟨i, hi⟩ := Array.mem_iff_getElem?.mp (Array.mem_toList_iff.mp hv)
  have hkind := (hn.input_iff i v).mp hi
  rintro rfl
  rw [(hn.constant_iff 0).mpr rfl] at hkind
  cases hkind

/-- The sources are the constant and the inputs, each of them once. -/
lemma sources_perm (hn : n.WellFormed) : n.sources.toList.Perm (0 :: n.inputs.toList) := by
  have hnodup : (0 :: n.inputs.toList).Nodup :=
    List.nodup_cons.mpr ⟨fun h0 => hn.ne_zero_of_input h0 rfl, hn.inputs_nodup⟩
  refine (List.perm_ext_iff_of_nodup (n.sources_pairwise.imp Nat.ne_of_lt) hnodup).mpr ?_
  intro v
  rw [Array.mem_toList_iff, hn.mem_sources_iff, List.mem_cons, Array.mem_toList_iff]

lemma roster_perm (hn : n.WellFormed) : n.topology.order.toList.Perm n.roster := by
  rw [topology_eq_append]
  exact (sources_perm hn).append_right _

/-- What reads nothing may stand in front in any order. -/
lemma FanInsFirst.of_perm_front {front front' rest : List Nat}
    (h : n.FanInsFirst (front ++ rest)) (hperm : front.Perm front')
    (hfront : ∀ v ∈ front, ¬ n.isLiveGate v = true) : n.FanInsFirst (front' ++ rest) := by
  intro before g after heq v hread
  have hg : g ∉ front' := fun hmem => hfront g (hperm.mem_iff.mpr hmem) hread.isLiveGate
  rcases List.append_eq_append_iff.mp heq with ⟨more, rfl, hrest⟩ | ⟨more, hfront', hmore⟩
  · have hv := h (front ++ more) g after (by rw [hrest, List.append_assoc]) v hread
    exact ((hperm.append_right more).mem_iff).mp hv
  · cases more with
    | nil =>
        rw [List.append_nil] at hfront'
        rw [List.nil_append] at hmore
        have hv := h front g after (by rw [hmore]) v hread
        rw [← hfront']
        exact hperm.mem_iff.mp hv
    | cons x more =>
        obtain ⟨rfl, -⟩ := List.cons.inj hmore
        exact absurd (hfront' ▸ List.mem_append_right before List.mem_cons_self) hg

/-- **The roster is an order**: the fan-ins of a gate stand before it. -/
theorem roster_isOrder (hn : n.WellFormed) : n.IsOrder n.roster := by
  obtain ⟨horder, -⟩ := n.topology_spec
  have hperm := roster_perm hn
  refine ⟨hperm.nodup_iff.mp horder.nodup, fun v hv => horder.isLive v (hperm.mem_iff.mpr hv),
    ?_, fun v hv hreads => ?_⟩
  · refine FanInsFirst.of_perm_front (topology_eq_append n ▸ horder.fanInsFirst)
      (sources_perm hn) ?_
    exact fun v hv => (mem_sources.mp (Array.mem_toList_iff.mp hv)).2
  · exact hperm.mem_iff.mp
      (horder.complete v hv fun u hread => hperm.mem_iff.mpr (hreads u hread))

lemma mem_roster (hn : n.WellFormed) (hacyclic : n.Acyclic) :
    v ∈ n.roster ↔ n.isLive v = true := by
  rw [← (roster_perm hn).mem_iff, mem_topology hn hacyclic]

/-- **The variable of a node** in the file of its network. -/
def varOf (n : Network) (v : Nat) : Nat := n.roster.idxOf v

/-! ### Variables and literals -/

/-- Numbers some nodes one after the other. -/
lemma foldl_zipIdx_getD {nodes : List Nat} {vars : Variables} {k : Nat} (hnodup : nodes.Nodup)
    (hlt : ∀ v ∈ nodes, v < vars.size) (v : Nat) :
    ((nodes.zipIdx k).foldl (fun vars p => vars.setIfInBounds p.1 (some p.2)) vars).getD v none
      = if v ∈ nodes then some (k + nodes.idxOf v) else vars.getD v none := by
  induction nodes generalizing vars k with
  | nil => simp
  | cons u nodes ih =>
      obtain ⟨hu, hnodup⟩ := List.nodup_cons.mp hnodup
      obtain ⟨hlt_u, hlt⟩ := List.forall_mem_cons.mp hlt
      rw [List.zipIdx_cons, List.foldl_cons, ih hnodup (by simpa using hlt)]
      by_cases hv : v = u
      · subst hv
        rw [if_neg hu, if_pos List.mem_cons_self, List.idxOf_cons_self, getD_setIfInBounds,
          if_pos ⟨rfl, hlt_u⟩]
        rfl
      · have hmem : v ∈ u :: nodes ↔ v ∈ nodes := by simp [hv]
        have hkept : ¬ (u = v ∧ u < vars.size) := fun h => hv h.1.symm
        rw [getD_setIfInBounds, if_neg hkept]
        simp only [hmem, List.idxOf_cons_ne _ (Ne.symm hv)]
        refine if_congr Iff.rfl (congrArg some ?_) rfl
        omega

/-- **The variable of a live node** is its place in the roster. -/
lemma numbering_getD (hn : n.WellFormed) (hacyclic : n.Acyclic) (hv : n.isLive v = true) :
    (numbering n n.listedGates).getD v none = some (n.varOf v) := by
  have hlt : ∀ u ∈ n.roster, u < (Array.replicate n.size (none : Option Nat)).size := by
    intro u hu
    rw [Array.size_replicate]
    exact lt_size_of_isLive ((roster_isOrder hn).isLive u hu)
  have hvars := foldl_zipIdx_getD (k := 0) (roster_isOrder hn).nodup hlt v
  rw [if_pos ((mem_roster hn hacyclic).mpr hv), Nat.zero_add] at hvars
  exact hvars

lemma literalOf_eq_ok (hn : n.WellFormed) (hacyclic : n.Acyclic)
    (hs : n.isLive s.node = true) :
    literalOf (numbering n n.listedGates) s = .ok (s.renumber n.varOf).code := by
  rw [literalOf, numbering_getD hn hacyclic hs]
  rfl

/-- Every live gate is listed once. -/
lemma listedGates_perm (hn : n.WellFormed) (hacyclic : n.Acyclic) :
    (n.listedGates.map (·.1)).Perm n.gates := by
  have hnodup : (n.listedGates.map (·.1)).Nodup := by
    rw [listedGates, map_fst_gatesInOrder]
    exact n.topology_spec.1.nodup.filter _
  refine (List.perm_ext_iff_of_nodup hnodup n.nodup_gates).mpr ?_
  intro g
  rw [List.mem_map, mem_gates]
  constructor
  · rintro ⟨p, hp, rfl⟩
    exact ⟨p.2.1, p.2.2, (mem_listedGates hn hacyclic).mp hp⟩
  · rintro ⟨a, b, hg⟩
    exact ⟨(g, a, b), (mem_listedGates hn hacyclic).mpr hg, rfl⟩

lemma length_listedGates (hn : n.WellFormed) (hacyclic : n.Acyclic) :
    n.listedGates.length = n.liveGates := by
  rw [hn.liveGates_eq, ← (listedGates_perm hn hacyclic).length_eq, List.length_map]

/-- The gate at some place of the list has its variable from there. -/
lemma varOf_of_mem_zipIdx (hn : n.WellFormed) {x : (Nat × Signal × Signal) × Nat}
    (hx : x ∈ n.listedGates.zipIdx) : n.varOf x.1.1 = n.inputs.size + 1 + x.2 := by
  obtain ⟨-, hlt, hget⟩ := List.mem_zipIdx (x := x.1) (i := x.2) hx
  simp only [Nat.sub_zero, Nat.zero_add] at hlt hget
  have hlen : n.inputs.size + 1 + x.2 < n.roster.length := by
    simp only [roster, List.length_append, List.length_cons, Array.length_toList,
      List.length_map]
    omega
  have hat : n.roster[n.inputs.size + 1 + x.2] = x.1.1 := by
    simp only [roster]
    rw [List.getElem_append_right (by simp)]
    simp [hget]
  rw [varOf, ← hat]
  exact (roster_isOrder hn).nodup.idxOf_getElem _ hlen

/-- The gates have the variables behind those of the inputs. -/
lemma map_varOf_listedGates (hn : n.WellFormed) (hacyclic : n.Acyclic) :
    n.listedGates.map (fun p => n.varOf p.1) = List.range' (1 + n.inputs.size) n.liveGates := by
  calc n.listedGates.map (fun p => n.varOf p.1)
      = n.listedGates.zipIdx.map (fun x => n.varOf x.1.1) := by
        rw [← Function.comp_def (fun p : Nat × Signal × Signal => n.varOf p.1) Prod.fst,
          ← List.map_map, List.zipIdx_map_fst]
    _ = n.listedGates.zipIdx.map (fun x => 1 + n.inputs.size + x.2) := by
        refine List.map_congr_left fun x hx => ?_
        rw [varOf_of_mem_zipIdx hn hx, Nat.add_comm n.inputs.size 1]
    _ = (List.range' 0 n.listedGates.length).map (1 + n.inputs.size + ·) := by
        rw [← List.zipIdx_map_snd, List.map_map]
        rfl
    _ = List.range' (1 + n.inputs.size) n.liveGates := by
        rw [List.map_add_range', length_listedGates hn hacyclic]
        rfl

/-! ### The file -/

/-- The definition of a gate when nodes go by other numbers. -/
def definitionBy (f : Nat → Nat) (p : Nat × Signal × Signal) : Definition :=
  ⟨f p.1, max (p.2.1.renumber f).code (p.2.2.renumber f).code,
    min (p.2.1.renumber f).code (p.2.2.renumber f).code⟩

/-- **What a network is written as** when nodes go by other numbers. -/
def layout (n : Network) (f : Nat → Nat) : Document where
  maxVar := n.inputs.size + n.liveGates
  inputs := List.range' 1 n.inputs.size
  outputs := n.outputs.toList.map fun s => (s.renumber f).code
  definitions := n.listedGates.map (definitionBy f)

/-- **A circuit file is written** for every acyclic network, and its numbers are the variables
of the nodes. -/
theorem document_eq_layout (hn : n.WellFormed) (hacyclic : n.Acyclic) :
    n.document = .ok (n.layout n.varOf) := by
  have hliteral := fun {s : Signal} => literalOf_eq_ok (s := s) hn hacyclic
  have houtputs : n.outputs.toList.mapM (literalOf (numbering n n.listedGates))
      = .ok (n.outputs.toList.map fun s => (s.renumber n.varOf).code) :=
    mapM_eq_except_ok fun s hs => hliteral (hn.outputs_live s (Array.mem_toList_iff.mp hs))
  have hdefinitions : n.listedGates.zipIdx.mapM (fun x => definitionOfGate
      (numbering n n.listedGates) (n.inputs.size + 1 + x.2) x.1.2.1 x.1.2.2)
        = .ok (n.listedGates.zipIdx.map fun x => definitionBy n.varOf x.1) := by
    refine mapM_eq_except_ok fun x hx => ?_
    have hg := (mem_listedGates hn hacyclic).mp (List.fst_mem_of_mem_zipIdx hx)
    obtain ⟨ha, hb⟩ := hn.fanIns_live _ _ _ hg
    rw [definitionOfGate, hliteral ha, except_ok_bind, hliteral hb, except_ok_bind,
      ← varOf_of_mem_zipIdx hn hx]
    rfl
  have hmap : n.listedGates.zipIdx.map (fun x => definitionBy n.varOf x.1)
      = n.listedGates.map (definitionBy n.varOf) := by
    rw [← Function.comp_def (definitionBy n.varOf) Prod.fst, ← List.map_map,
      List.zipIdx_map_fst]
  have hrange : (List.range n.inputs.size).map (· + 1) = List.range' 1 n.inputs.size := by
    rw [List.range'_eq_map_range]
    exact List.map_congr_left fun i _ => Nat.add_comm i 1
  rw [document]
  split
  · next order htop =>
      obtain rfl : n.topology.order = order := by rw [htop]
      refine bind_eq_except_ok.mpr ⟨_, houtputs, bind_eq_except_ok.mpr ⟨_, hdefinitions, ?_⟩⟩
      change Except.ok (Document.mk (n.inputs.size + n.listedGates.length) _ _ _) = _
      rw [length_listedGates hn hacyclic, hrange, hmap]
      rfl
  · next order unvisited hne htop =>
      have hnil : n.topology.unvisited = [] := unvisited_eq_nil hn hacyclic
      rw [htop] at hnil
      exact absurd hnil hne

/-! ### Inputs in order -/

lemma sources_eq (hn : n.WellFormed) (hinputs : n.inputs.toList.Pairwise (· < ·)) :
    n.sources.toList = 0 :: n.inputs.toList := by
  have hsorted : (0 :: n.inputs.toList).Pairwise (· < ·) :=
    List.pairwise_cons.mpr ⟨fun v hv => Nat.pos_of_ne_zero (hn.ne_zero_of_input hv), hinputs⟩
  exact List.Perm.eq_of_pairwise (fun u v _ _ huv hvu => absurd huv (Nat.lt_asymm hvu))
    n.sources_pairwise hsorted (sources_perm hn)

/-- **The order of a network** whose inputs are in order: the constant, the inputs, and then
the gates. -/
theorem topology_eq (hn : n.WellFormed) (hinputs : n.inputs.toList.Pairwise (· < ·)) :
    n.topology.order.toList = 0 :: n.inputs.toList ++ n.listedGates.map (·.1) := by
  rw [topology_eq_append, sources_eq hn hinputs]

lemma place_eq_varOf (hn : n.WellFormed) (hinputs : n.inputs.toList.Pairwise (· < ·)) :
    n.place = n.varOf := by
  funext v
  rw [place, topology_eq hn hinputs]
  rfl

/-- The definition of a gate in the file of its network. -/
def gateDefinition (n : Network) (p : Nat × Signal × Signal) : Definition :=
  ⟨n.place p.1, max (p.2.1.renumber n.place).code (p.2.2.renumber n.place).code,
    min (p.2.1.renumber n.place).code (p.2.2.renumber n.place).code⟩

/-- **What a network is written as.** -/
def listing (n : Network) : Document where
  maxVar := n.inputs.size + n.liveGates
  inputs := List.range' 1 n.inputs.size
  outputs := n.outputs.toList.map fun s => (s.renumber n.place).code
  definitions := n.listedGates.map n.gateDefinition

/-- **A circuit file is written** for every acyclic network whose inputs are in order. -/
theorem document_eq_ok (hn : n.WellFormed) (hacyclic : n.Acyclic)
    (hinputs : n.inputs.toList.Pairwise (· < ·)) : n.document = .ok n.listing := by
  rw [document_eq_layout hn hacyclic, ← place_eq_varOf hn hinputs]
  rfl

end Network

end AndInverter
