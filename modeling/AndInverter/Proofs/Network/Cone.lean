import AndInverter.Proofs.Network.Ordering
import AndInverter.Proofs.Run

/-!
The cone of the outputs.  A walk marks nodes and puts the fan-ins of each on its worklist, so a
marked node has its fan-ins marked or waiting, and when nothing waits the marks are closed.

* `Network.Marking`: the invariant of the walk, and `markCone_iff`: what it marks in the end;
* `outputCone_iff`: the outputs depend on what is marked, and on nothing else;
* `coneOrder_spec`: the cone of an acyclic network has an order, fan-ins first.
-/

namespace AndInverter

namespace Network

variable {n : Network} {v u node : Nat} {work rest order : List Nat} {seen : Array Bool}

/-- **A walk under way**: marks on live nodes, and the nodes that wait to be marked. -/
structure Marking (n : Network) (work : List Nat) (seen : Array Bool) : Prop where
  size : seen.size = n.size
  isLive : ∀ v, seen.getD v false = true ∨ v ∈ work → n.isLive v = true
  closed : ∀ v u, seen.getD v false = true → n.Reads v u → seen.getD u false = true ∨ u ∈ work

lemma getD_setIfInBounds_true (seen : Array Bool) (hlt : node < seen.size) (v : Nat) :
    (seen.setIfInBounds node true).getD v false = true ↔ v = node ∨ seen.getD v false = true := by
  rw [getD_setIfInBounds]
  by_cases hv : node = v
  · simp [← hv, hlt]
  · simp [hv, Ne.symm hv]

/-- To mark a node leaves one less without a mark. -/
lemma count_setIfInBounds_true (hlt : node < seen.size) (hnot : ¬ seen.getD node false = true) :
    (seen.setIfInBounds node true).count false + 1 = seen.count false := by
  have hfalse : seen[node] = false := by simpa [Array.getD_eq_getD_getElem?, hlt] using hnot
  have hmem : 0 < seen.count false :=
    Array.count_pos_iff.mpr (hfalse ▸ Array.getElem_mem hlt)
  rw [Array.setIfInBounds, dif_pos hlt, Array.count_set hlt, hfalse]
  simp only [beq_self_eq_true, if_true, beq_iff_eq, Bool.true_eq_false, if_false]
  omega

namespace Marking

/-- What a marked node depends on is marked or behind a waiting node. -/
lemma of_dependsOn (h : n.Marking work seen) (hv : seen.getD v false = true)
    (hdep : n.DependsOn v u) : seen.getD u false = true ∨ ∃ w ∈ work, n.DependsOn w u := by
  induction hdep using Relation.ReflTransGen.head_induction_on with
  | refl => exact .inl hv
  | head hread hdep ih =>
      rcases h.closed _ _ hv hread with hmarked | hwaits
      · exact ih hmarked
      · exact .inr ⟨_, hwaits, hdep⟩

/-- A waiting node that is marked already is dropped. -/
lemma drop (h : n.Marking (node :: rest) seen) (hnode : seen.getD node false = true) :
    n.Marking rest seen where
  size := h.size
  isLive v hv := h.isLive v (hv.imp_right (List.mem_cons_of_mem node))
  closed v u hv hread := by
    rcases h.closed v u hv hread with hu | hu
    · exact .inl hu
    · rcases List.mem_cons.mp hu with rfl | hu
      · exact .inl hnode
      · exact .inr hu

/-- A waiting node is marked, and then its fan-ins wait. -/
lemma mark {fanIns : List Nat} (h : n.Marking (node :: rest) seen)
    (hfanIns : ∀ u, n.Reads node u ↔ u ∈ fanIns)
    (hlive : ∀ u ∈ fanIns, n.isLive u = true) :
    n.Marking (fanIns ++ rest) (seen.setIfInBounds node true) := by
  have hlt : node < seen.size := by
    rw [h.size]
    exact lt_size_of_isLive (h.isLive node (.inr List.mem_cons_self))
  constructor
  case size => rw [Array.size_setIfInBounds, h.size]
  case isLive =>
    intro v hv
    rw [getD_setIfInBounds_true seen hlt, List.mem_append] at hv
    rcases hv with (rfl | hv) | hv | hv
    · exact h.isLive v (.inr List.mem_cons_self)
    · exact h.isLive v (.inl hv)
    · exact hlive v hv
    · exact h.isLive v (.inr (List.mem_cons_of_mem node hv))
  case closed =>
    intro v u hv hread
    rw [getD_setIfInBounds_true seen hlt, List.mem_append]
    rcases (getD_setIfInBounds_true seen hlt v).mp hv with rfl | hv
    · exact .inr (.inl ((hfanIns u).mp hread))
    · rcases h.closed v u hv hread with hu | hu
      · exact .inl (.inr hu)
      · rcases List.mem_cons.mp hu with rfl | hu
        · exact .inl (.inl rfl)
        · exact .inr (.inr hu)

end Marking

/-- What a node depends on is the node, or what its fan-ins depend on. -/
lemma dependsOn_iff_of_reads {fanIns : List Nat} (h : ∀ u, n.Reads node u ↔ u ∈ fanIns) :
    n.DependsOn node v ↔ v = node ∨ ∃ u ∈ fanIns, n.DependsOn u v := by
  rw [DependsOn, Relation.ReflTransGen.cases_head_iff]
  simp only [h, eq_comm (a := node)]

/-- **One step of a walk**: a node that is marked is dropped, another one is marked, and its
fan-ins wait in its place. -/
lemma markCone_step (hn : n.WellFormed) (hnode : n.isLive node = true) (hsize : seen.size = n.size)
    (bound : Nat) (rest : List Nat) : ∃ fanIns : List Nat, fanIns.length ≤ 2 ∧
      (∀ u, n.Reads node u ↔ u ∈ fanIns) ∧ (∀ u ∈ fanIns, n.isLive u = true) ∧
      n.markCone (bound + 1) (node :: rest) seen =
        if seen.getD node false = true then n.markCone bound rest seen
        else n.markCone bound (fanIns ++ rest) (seen.setIfInBounds node true) := by
  have hlt : node < seen.size := hsize ▸ lt_size_of_isLive hnode
  have hdefault : seen.getD node true = seen.getD node false := by
    simp [Array.getD_eq_getD_getElem?, hlt]
  rw [markCone, hdefault]
  cases hfanIns : n.fanIns? node with
  | some p =>
      have hg : n.Gate node p.1 p.2 := gate_of_fanIns? hfanIns hnode
      obtain ⟨hla, hlb⟩ := hn.fanIns_live _ _ _ hg
      have hreads : ∀ u, n.Reads node u ↔ u ∈ [p.2.node, p.1.node] := by
        intro u
        rw [List.mem_pair, or_comm, eq_comm, eq_comm (a := u)]
        constructor
        · rintro ⟨a, b, hg', hu⟩
          obtain ⟨rfl, rfl⟩ := hg'.unique hg
          exact hu
        · exact fun hu => ⟨p.1, p.2, hg, hu⟩
      refine ⟨[p.2.node, p.1.node], le_rfl, hreads, ?_, rfl⟩
      exact List.forall_mem_cons.mpr ⟨hlb, List.forall_mem_singleton.mpr hla⟩
  | none =>
      refine ⟨[], Nat.zero_le 2, ?_, nofun, rfl⟩
      intro u
      refine iff_of_false ?_ List.not_mem_nil
      rintro ⟨a, b, hg, -⟩
      rw [hg.fanIns?] at hfanIns
      cases hfanIns

/-- **What a walk marks**: the nodes that were marked, and all that the waiting ones depend on.
Each step either drops a waiting node or marks one and adds two at most. -/
lemma markCone_iff (hn : n.WellFormed) {bound : Nat} (h : n.Marking work seen)
    (hbound : work.length + 2 * seen.count false ≤ bound) (v : Nat) :
    (n.markCone bound work seen).getD v false = true ↔
      seen.getD v false = true ∨ ∃ u ∈ work, n.DependsOn u v := by
  induction bound generalizing work seen with
  | zero =>
      obtain rfl : work = [] := List.eq_nil_of_length_eq_zero (by omega)
      simp [markCone]
  | succ bound ih =>
      cases work with
      | nil => simp [markCone]
      | cons node rest =>
          have hnode : n.isLive node = true := h.isLive node (.inr List.mem_cons_self)
          obtain ⟨fanIns, hlength, hreads, hlive, hstep⟩ :=
            markCone_step hn hnode h.size bound rest
          rw [List.length_cons] at hbound
          rw [hstep]
          by_cases hmarked : seen.getD node false = true
          · rw [if_pos hmarked, ih (h.drop hmarked) (by omega)]
            simp only [List.exists_mem_cons_iff]
            constructor
            · exact Or.imp_right .inr
            · rintro (hv | hdep | hrest)
              · exact .inl hv
              · exact (h.drop hmarked).of_dependsOn hmarked hdep
              · exact .inr hrest
          · have hlt : node < seen.size := h.size ▸ lt_size_of_isLive hnode
            have hcount := count_setIfInBounds_true hlt hmarked
            rw [if_neg hmarked, ih (h.mark hreads hlive) (by rw [List.length_append]; omega),
              getD_setIfInBounds_true seen hlt]
            simp only [List.exists_mem_cons_iff, List.mem_append, or_and_right, exists_or]
            rw [dependsOn_iff_of_reads hreads, or_comm (a := v = node), or_assoc, or_assoc]

/-- **The cone of the outputs** is what they depend on. -/
theorem outputCone_iff (hn : n.WellFormed) (v : Nat) :
    n.outputCone.getD v false = true ↔ ∃ s ∈ n.outputs, n.DependsOn s.node v := by
  have hunmarked : ∀ v, ¬ (Array.replicate n.size false).getD v false = true := by
    intro v
    rw [Array.getD_eq_getD_getElem?, Array.getElem?_replicate]
    split_ifs <;> simp
  have hstart : n.Marking (n.outputs.toList.map (·.node)) (Array.replicate n.size false) := by
    refine ⟨Array.size_replicate, ?_, fun v u hv => absurd hv (hunmarked v)⟩
    rintro v (hv | hv)
    · exact absurd hv (hunmarked v)
    · obtain ⟨s, hs, rfl⟩ := List.mem_map.mp hv
      exact hn.outputs_live s (Array.mem_toList_iff.mp hs)
  have hbound : (n.outputs.toList.map (·.node)).length
      + 2 * (Array.replicate n.size false).count false ≤ n.outputs.size + 2 * n.size := by
    rw [List.length_map, Array.length_toList, Array.count_replicate_self]
  rw [outputCone, markCone_iff hn hstart hbound, or_iff_right (hunmarked v)]
  simp only [List.mem_map, Array.mem_toList_iff, exists_exists_and_eq_and]

/-- In a part that contains the fan-ins of its gates, fan-ins still stand first. -/
lemma FanInsFirst.filter {p : Nat → Bool} (h : n.FanInsFirst order)
    (hclosed : ∀ g v, p g = true → n.Reads g v → p v = true) :
    n.FanInsFirst (order.filter p) := by
  intro before g after heq v hread
  obtain ⟨before', rest, rfl, rfl, hrest⟩ := List.filter_eq_append_iff.mp heq
  obtain ⟨between, after', rfl, hbetween, hg, rfl⟩ := List.filter_eq_cons_iff.mp hrest
  have hv := h (before' ++ between) g after' (by simp) v hread
  have hpv := hclosed g v hg hread
  rcases List.mem_append.mp hv with hv | hv
  · exact List.mem_filter.mpr ⟨hv, hpv⟩
  · exact absurd hpv (hbetween v hv)

/-- **The cone of an acyclic network** has an order, fan-ins first. -/
theorem coneOrder_spec (hn : n.WellFormed) (h : n.Acyclic) : ∃ cone, n.coneOrder = .ok cone ∧
    n.FanInsFirst cone.toList ∧ ∀ v, v ∈ cone ↔ ∃ s ∈ n.outputs, n.DependsOn s.node v := by
  cases horder : n.order with
  | error fault => exact absurd h (order_eq_error horder hn.fanIns_live).1
  | ok order =>
      obtain ⟨hfirst, hall, -⟩ := order_eq_ok horder
      refine ⟨order.filter fun node => n.outputCone.getD node false, ?_, ?_, ?_⟩
      · rw [coneOrder, horder]
        rfl
      · rw [Array.toList_filter]
        refine hfirst.fanInsFirst.filter ?_
        intro g v hg hread
        obtain ⟨s, hs, hdep⟩ := (outputCone_iff hn g).mp hg
        exact (outputCone_iff hn v).mpr ⟨s, hs, hdep.tail hread⟩
      · intro v
        rw [Array.mem_filter, outputCone_iff hn]
        refine and_iff_right_of_imp ?_
        rintro ⟨s, hs, hdep⟩
        exact Array.mem_toList_iff.mp
          (hall v (hn.isLive_of_dependsOn (hn.outputs_live s hs) hdep))

end Network

end AndInverter
