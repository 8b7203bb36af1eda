import AndInverter.Proofs.Network.Ordering

/-!
The order of a network is breadth-first.  A gate joins it when the later one of its two
fan-ins does its releases, and of the gates that join then the lower positions go first.

* `Network.readyAt`: when a node may join an order;
* `Network.BreadthFirst`: an order whose nodes joined as soon as they could;
* `topology_breadthFirst`: the order of a network is one;
* `eq_of_breadthFirst`: there is only one.
-/

namespace AndInverter.Network

variable {n : Network} {g u v : Nat} {a b : Signal} {order order' extra : List Nat}

/-- **When a node may join an order**: how many nodes of it have done their releases by
then. -/
def readyAt (n : Network) (order : List Nat) (v : Nat) : Nat :=
  ((n.operands? v).map fun p => max (order.idxOf p.1.node) (order.idxOf p.2.node) + 1).getD 0

/-- A node precedes another one if it may join sooner, or at the same time and it has the
lower position. -/
def Precedes (n : Network) (order : List Nat) (u v : Nat) : Prop :=
  n.readyAt order u < n.readyAt order v ∨ (n.readyAt order u = n.readyAt order v ∧ u < v)

/-- **A breadth-first order**: its nodes joined as soon as they could. -/
def BreadthFirst (n : Network) (order : List Nat) : Prop := order.Pairwise (n.Precedes order)

lemma Gate.readyAt (hg : n.Gate g a b) (order : List Nat) :
    n.readyAt order g = max (order.idxOf a.node) (order.idxOf b.node) + 1 := by
  rw [Network.readyAt, show n.operands? g = some (a, b) from hg]
  rfl

lemma readyAt_eq_zero (hv : ¬ n.isLiveGate v = true) (order : List Nat) :
    n.readyAt order v = 0 := by
  rw [readyAt]
  cases hop : n.operands? v with
  | none => rfl
  | some p => exact absurd (isLiveGate_iff.mpr ⟨p.1, p.2, hop⟩) hv

/-- More nodes do not change when those may join whose fan-ins are there. -/
lemma readyAt_append (h : ∀ u, n.Reads v u → u ∈ order) :
    n.readyAt (order ++ extra) v = n.readyAt order v := by
  rw [readyAt, readyAt]
  cases hop : n.operands? v with
  | none => rfl
  | some p =>
      have hg : n.Gate v p.1 p.2 := hop
      rw [Option.map_some, Option.map_some, List.idxOf_append_of_mem (h _ hg.reads_left),
        List.idxOf_append_of_mem (h _ hg.reads_right)]

lemma precedes_append (hu : ∀ w, n.Reads u w → w ∈ order) (hv : ∀ w, n.Reads v w → w ∈ order) :
    n.Precedes (order ++ extra) u v ↔ n.Precedes order u v := by
  rw [Precedes, Precedes, readyAt_append hu, readyAt_append hv]

/-! ### The lists of uses -/

/-- The lowest element may stand in front of any of the others. -/
lemma cons_pairwise_of_subset {x : Nat} {xs ys : List Nat} (h : (x :: xs).Pairwise (· < ·))
    (hys : ys ⊆ x :: xs ∧ ys.Pairwise (· ≤ ·)) :
    x :: ys ⊆ x :: xs ∧ (x :: ys).Pairwise (· ≤ ·) := by
  obtain ⟨hsub, hpair⟩ := hys
  refine ⟨List.cons_subset.mpr ⟨List.mem_cons_self, hsub⟩, List.pairwise_cons.mpr ⟨?_, hpair⟩⟩
  intro y hy
  rcases List.mem_cons.mp (hsub hy) with rfl | hmem
  · exact le_rfl
  · exact (List.rel_of_pairwise_cons h hmem).le

/-- A node lists the gates that read from it in the order of their positions. -/
lemma useLists_pairwise (hv : v < n.size) : (n.useLists.getD v []).Pairwise (· ≤ ·) := by
  suffices h : n.useLists.size = n.size ∧ (n.useLists.getD v []) ⊆ n.gates ∧
      (n.useLists.getD v []).Pairwise (· ≤ ·) from h.2.2
  have hsorted : n.gates.Pairwise (· < ·) := List.pairwise_lt_range.filter _
  rw [useLists]
  revert hsorted
  generalize n.gates = l
  induction l with
  | nil => exact fun _ => ⟨by simp, by simp [hv], by simp [hv]⟩
  | cons x l ih =>
      intro hsorted
      obtain ⟨hsize, hsub, hlisted⟩ := ih (List.pairwise_cons.mp hsorted).2
      rw [List.foldr_cons]
      generalize List.foldr _ (Array.replicate n.size []) l = lists at hsize hsub hlisted ⊢
      have hsame : lists.getD v [] ⊆ x :: l ∧ (lists.getD v []).Pairwise (· ≤ ·) :=
        ⟨List.subset_cons_of_subset x hsub, hlisted⟩
      cases n.fanIns? x with
      | none => exact ⟨hsize, hsame⟩
      | some p =>
          refine ⟨by simp [hsize], ?_⟩
          rw [getD_modify _ _ _ _ (by simp [hsize, hv]), getD_modify _ _ _ _ (by simp [hsize, hv])]
          generalize lists.getD v [] = listed at hsame
          -- the gate is put in front, and it is the lowest
          have hfront := cons_pairwise_of_subset hsorted hsame
          by_cases ha : p.1.node = v <;> by_cases hb : p.2.node = v
          · rw [if_pos ha, if_pos hb]
            exact cons_pairwise_of_subset hsorted hfront
          · rw [if_pos ha, if_neg hb]
            exact hfront
          · rw [if_neg ha, if_pos hb]
            exact hfront
          · rw [if_neg ha, if_neg hb]
            exact hsame

lemma reads_of_mem_useLists (hv : v < n.size) (hg : g ∈ n.useLists.getD v []) :
    n.Reads g v := by
  have hpos := List.count_pos_iff.mpr hg
  rw [useLists_count hv, releases] at hpos
  cases hop : n.operands? g with
  | none => simp [hop] at hpos
  | some p =>
      refine ⟨p.1, p.2, hop, ?_⟩
      rw [hop, Option.map_some, Option.getD_some, pairUses] at hpos
      by_contra hne
      rw [not_or] at hne
      simp [hne.1, hne.2] at hpos

/-! ### The sweep -/

/-- **Gates that may join now** follow those that joined before. -/
lemma BreadthFirst.append {next : Nat} (h : n.BreadthFirst order) (hfirst : n.FanInsFirst order)
    (hready : ∀ v ∈ order, n.readyAt order v ≤ next)
    (hextra : ∀ g ∈ extra, ∀ v, n.Reads g v → v ∈ order)
    (hnext : ∀ g ∈ extra, n.readyAt order g = next + 1) (hsorted : extra.Pairwise (· < ·)) :
    n.BreadthFirst (order ++ extra) ∧
      ∀ v ∈ order ++ extra, n.readyAt (order ++ extra) v ≤ next + 1 := by
  have hreads : ∀ v ∈ order ++ extra, ∀ u, n.Reads v u → u ∈ order := by
    intro v hv u hread
    rcases List.mem_append.mp hv with hv | hv
    · exact hfirst.mem hv hread
    · exact hextra v hv u hread
  have hsooner : ∀ {u v}, u ∈ order → v ∈ extra → n.Precedes order u v := by
    intro u v hu hv
    have := hready u hu
    have := hnext v hv
    exact .inl (by omega)
  have hsame : extra.Pairwise (n.Precedes order) := by
    refine hsorted.imp_of_mem ?_
    intro u v hu hv huv
    exact .inr ⟨(hnext u hu).trans (hnext v hv).symm, huv⟩
  refine ⟨?_, ?_⟩
  · refine (List.pairwise_append.mpr ⟨h, hsame, fun u hu v hv => hsooner hu hv⟩).imp_of_mem ?_
    intro u v hu hv huv
    exact (precedes_append (hreads u hu) (hreads v hv)).mpr huv
  · intro v hv
    rw [readyAt_append (hreads v hv)]
    rcases List.mem_append.mp hv with hv | hv
    · exact (hready v hv).trans (Nat.le_succ next)
    · exact (hnext v hv).le

/-- A gate that reads from a node may join when that node has done its releases, if its fan-ins
have done theirs by then. -/
lemma readyAt_of_reads {next : Nat} (hread : n.Reads g v) (hplace : order.idxOf v = next)
    (hdone : ∀ u, n.Reads g u → u ∈ order.take (next + 1)) : n.readyAt order g = next + 1 := by
  have hbefore : ∀ u, n.Reads g u → order.idxOf u < next + 1 := by
    intro u hu
    rw [← List.take_append_drop (next + 1) order, List.idxOf_append_of_mem (hdone u hu)]
    exact (List.idxOf_lt_length_of_mem (hdone u hu)).trans_le (List.length_take_le _ _)
  obtain ⟨a, b, hgate, hv⟩ := hread
  have ha := hbefore _ hgate.reads_left
  have hb := hbefore _ hgate.reads_right
  rw [hgate.readyAt]
  rcases hv with rfl | rfl <;> omega

/-- **The sweep goes breadth first**, and what it starts from stays in front. -/
lemma breadthFirst_run {bound next : Nat} {s : Sweep}
    (h : n.Swept (n.releasedBy (s.order.toList.take next)) s)
    (hfirst : n.FanInsFirst s.order.toList) (hbreadth : n.BreadthFirst s.order.toList)
    (hready : ∀ v ∈ s.order.toList, n.readyAt s.order.toList v ≤ next) :
    n.BreadthFirst (Sweep.run n.useLists bound next s).order.toList ∧
      s.order.toList <+: (Sweep.run n.useLists bound next s).order.toList := by
  induction bound generalizing next s with
  | zero => exact ⟨hbreadth, List.prefix_rfl⟩
  | succ bound ih =>
      rw [Sweep.run]
      cases hnode : s.order[next]? with
      | none => exact ⟨hbreadth, List.prefix_rfl⟩
      | some node =>
          obtain ⟨extra, horder, hsub, hextra, h'⟩ := h.step hnode
          obtain ⟨hnext, hget⟩ := Array.getElem?_eq_some_iff.mp hnode
          have hlt : node < n.size := h.lt_size (hget ▸ Array.getElem_mem_toList hnext)
          have hplace : s.order.toList.idxOf node = next := by
            rw [← hget, ← Array.getElem_toList]
            exact h.nodup.idxOf_getElem next (by simpa using hnext)
          have hmem : ∀ g ∈ extra, ∀ v, n.Reads g v → v ∈ s.order.toList :=
            fun g hg v hread => List.mem_of_mem_take (hextra g hg v hread)
          -- its fan-ins did their releases by now, and one of them only now
          have hat : ∀ g ∈ extra, n.readyAt s.order.toList g = next + 1 := fun g hg =>
            readyAt_of_reads (reads_of_mem_useLists hlt (hsub.subset hg)) hplace (hextra g hg)
          have hsorted : extra.Pairwise (· < ·) := by
            have hnodup : (s.order.toList ++ extra).Nodup := horder ▸ h'.nodup
            have hle := (useLists_pairwise hlt).sublist hsub
            exact (hle.and (List.nodup_append.mp hnodup).2.1).imp fun hpair =>
              Nat.lt_of_le_of_ne hpair.1 hpair.2
          obtain ⟨hbreadth', hready'⟩ := hbreadth.append hfirst hready hmem hat hsorted
          rw [← horder] at hbreadth' hready'
          obtain ⟨hrun, hprefix⟩ := ih h' (horder ▸ hfirst.append hmem) hbreadth' hready'
          exact ⟨hrun, (horder ▸ List.prefix_append _ _ : s.order.toList <+: _).trans hprefix⟩

lemma sources_pairwise (n : Network) : n.sources.toList.Pairwise (· < ·) := by
  rw [sources, List.toList_toArray]
  exact (List.pairwise_lt_range.filter _).filter _

/-- **The order of a network is breadth-first**, and the live nodes without fan-ins stand in
front. -/
theorem topology_breadthFirst (n : Network) : n.BreadthFirst n.topology.order.toList ∧
    n.sources.toList <+: n.topology.order.toList := by
  have hgate : ∀ v ∈ n.sources.toList, ¬ n.isLiveGate v = true :=
    fun v hv => (mem_sources.mp (Array.mem_toList_iff.mp hv)).2
  have hready : ∀ v ∈ n.sources.toList, n.readyAt n.sources.toList v = 0 :=
    fun v hv => readyAt_eq_zero (hgate v hv) _
  have hbreadth : n.BreadthFirst n.sources.toList := by
    refine n.sources_pairwise.imp_of_mem ?_
    intro u v hu hv huv
    exact .inr ⟨(hready u hu).trans (hready v hv).symm, huv⟩
  have hstart : n.Swept (n.releasedBy (n.sources.toList.take 0)) ⟨n.sources, n.fanInCounts⟩ :=
    swept_start n
  exact breadthFirst_run hstart n.fanInsFirst_sources hbreadth fun v hv => (hready v hv).le

/-! ### Only one order -/

/-- In a breadth-first order, a node whose fan-ins are there has not been put off. -/
lemma BreadthFirst.precedes {before rest : List Nat} {x y : Nat}
    (h : n.BreadthFirst (before ++ x :: rest)) (hfirst : n.FanInsFirst (before ++ x :: rest))
    (hy : y ∈ rest) (hready : ∀ v, n.Reads y v → v ∈ before) : n.Precedes before x y := by
  have hxy := List.rel_of_pairwise_cons (List.pairwise_append.mp h).2.1 hy
  exact (precedes_append (hfirst before x rest rfl) hready).mp hxy

/-- An element that is not among the first ones and is not the next one follows later. -/
lemma mem_of_mem_append_cons {before l l' : List Nat} {x y : Nat} (hne : x ≠ y)
    (hy : y ∈ before ++ x :: l) (hnodup : (before ++ y :: l').Nodup) : y ∈ l := by
  rcases List.mem_append.mp hy with hy | hy
  · exact absurd rfl ((List.nodup_append.mp hnodup).2.2 y hy y List.mem_cons_self)
  · exact (List.mem_cons.mp hy).resolve_left (Ne.symm hne)

/-- **There is only one breadth-first order** of the same nodes: where two of them would part,
each would have to go on with the node that may join first. -/
theorem eq_of_breadthFirst (hmem : ∀ v, v ∈ order ↔ v ∈ order') (hnodup : order.Nodup)
    (hnodup' : order'.Nodup) (hfirst : n.FanInsFirst order) (hfirst' : n.FanInsFirst order')
    (hbreadth : n.BreadthFirst order) (hbreadth' : n.BreadthFirst order') : order = order' := by
  suffices h : ∀ before rest rest', order = before ++ rest → order' = before ++ rest' →
      rest = rest' from h [] order order' rfl rfl
  intro before rest
  induction rest generalizing before with
  | nil =>
      intro rest' horder horder'
      refine (List.eq_nil_iff_forall_not_mem.mpr fun v hv => ?_).symm
      have hv' : v ∈ before := by
        rw [← List.append_nil before, ← horder, hmem, horder']
        exact List.mem_append_right before hv
      exact (List.nodup_append.mp (horder' ▸ hnodup')).2.2 v hv' v hv rfl
  | cons x rest ih =>
      intro rest' horder horder'
      cases rest' with
      | nil =>
          have hx : x ∈ before := by
            rw [← List.append_nil before, ← horder', ← hmem, horder]
            exact List.mem_append_right before List.mem_cons_self
          exact absurd rfl
            ((List.nodup_append.mp (horder ▸ hnodup)).2.2 x hx x List.mem_cons_self)
      | cons y rest' =>
          obtain rfl | hxy := eq_or_ne x y
          · rw [ih (before ++ [x]) rest' (by simpa using horder) (by simpa using horder')]
          exfalso
          subst horder horder'
          -- each of the two follows somewhere in the other order
          have hy : y ∈ rest := mem_of_mem_append_cons hxy ((hmem y).mpr (by simp)) hnodup'
          have hx : x ∈ rest' :=
            mem_of_mem_append_cons (Ne.symm hxy) ((hmem x).mp (by simp)) hnodup
          have hpair := hbreadth.precedes hfirst hy (hfirst' before y rest' rfl)
          have hpair' := hbreadth'.precedes hfirst' hx (hfirst before x rest rfl)
          rw [Precedes] at hpair hpair'
          omega

end AndInverter.Network
