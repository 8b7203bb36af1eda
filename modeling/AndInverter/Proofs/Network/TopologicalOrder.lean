import AndInverter.Proofs.Network.Ordering

/-!
The sweep through a network that may be cyclic: it comes to an end on its own, and what it leaves
out are the nodes above a cycle.

* `Sweep.RunsTo` is the sweep without a bound, which goes on as long as the order grows, and
  `Network.Swept.runsTo`: no node has its turn too late, and no counter goes below zero;
* `Topology.Sorts`: an order of the nodes without a cycle in their cone, and all the others;
* `topology_exact`: that is what a network is given.
-/

namespace AndInverter

/-! ### The sweep without a bound -/

namespace Sweep

/-- **Gates that wait**: each gate of the list has a counter, which is not zero when the turn of
the gate comes. -/
def Awaits : Sweep → List Nat → Prop
  | _, [] => True
  | s, g :: gates => (∃ left, s.waiting[g]? = some (left + 1)) ∧ (s.release g).Awaits gates

/-- **The sweep runs to its end**: node after node of the order releases the gates on its list,
which wait for it, until all nodes had their turn. -/
inductive RunsTo (uses : Array (List Nat)) : Nat → Sweep → Sweep → Prop
  | done {next : Nat} {s : Sweep} (h : s.order[next]? = none) : RunsTo uses next s s
  | turn {next node : Nat} {gates : List Nat} {s t : Sweep} (hnode : s.order[next]? = some node)
    (hgates : uses[node]? = some gates) (hwait : s.Awaits gates)
    (rest : RunsTo uses (next + 1) (gates.foldl release s) t) : RunsTo uses next s t

end Sweep

namespace Network

variable {n : Network} {g u v : Nat} {order : List Nat}

lemma size_useLists (n : Network) : n.useLists.size = n.size := by
  rw [useLists]
  induction n.gates with
  | nil => exact Array.size_replicate
  | cons g gates ih =>
      rw [List.foldr_cons]
      split
      · rw [Array.size_modify, Array.size_modify, ih]
      · exact ih

/-- Gates that were not released too often wait. -/
lemma Swept.awaits {released : List Nat} {s : Sweep} (gates : List Nat) (h : n.Swept released s)
    (hgates : ∀ g ∈ gates, n.isLiveGate g = true)
    (hcount : ∀ g, (released ++ gates).count g ≤ 2) : s.Awaits gates := by
  induction gates generalizing released s with
  | nil => trivial
  | cons g gates ih =>
      obtain ⟨hg, hgates⟩ := List.forall_mem_cons.mp hgates
      have hlt := count_lt_two (hcount g)
      have hsize := h.lt_waiting hg
      have hwait := h.waiting g hg
      rw [Array.getD_eq_getD_getElem?, Array.getElem?_eq_getElem hsize, Option.getD_some] at hwait
      refine ⟨⟨s.waiting[g] - 1, ?_⟩, ih (h.release hg hlt).1 hgates ?_⟩
      · rw [Array.getElem?_eq_getElem hsize, Nat.sub_add_cancel (by omega)]
      · rwa [List.append_assoc]

/-- **The bound of the sweep is never felt**: every node of the order has its turn within it. -/
lemma Swept.runsTo {bound next : Nat} {s : Sweep}
    (h : n.Swept (n.releasedBy (s.order.toList.take next)) s) (hbound : n.size ≤ next + bound) :
    Sweep.RunsTo n.useLists next s (Sweep.run n.useLists bound next s) := by
  induction bound generalizing next s with
  | zero =>
      refine .done (Array.getElem?_eq_none ?_)
      have := h.length_le
      rw [Array.length_toList] at this
      exact this.trans hbound
  | succ bound ih =>
      rw [Sweep.run]
      cases hnode : s.order[next]? with
      | none => exact .done hnode
      | some node =>
          obtain ⟨-, hgates, hcount⟩ := h.turn hnode
          obtain ⟨extra, -, -, -, h'⟩ := h.step hnode
          have hlt : node < n.useLists.size := by
            rw [size_useLists]
            exact h.lt_size (Array.mem_toList_iff.mpr (Array.mem_of_getElem? hnode))
          have hlist : n.useLists[node]? = some (n.useLists.getD node []) := by
            rw [Array.getD_eq_getD_getElem?, Array.getElem?_eq_getElem hlt, Option.getD_some]
          exact .turn hnode hlist (h.awaits _ hgates hcount) (ih h' (by omega))

/-! ### Cycles -/

namespace IsOrder

variable (h : n.IsOrder order)

include h

/-- An order holds the cones of its nodes. -/
lemma mem_of_dependsOn (hu : u ∈ order) (hdep : n.DependsOn u v) : v ∈ order := by
  induction hdep with
  | refl => exact hu
  | tail _ hread ih => exact h.fanInsFirst.mem ih hread

/-- In an order, a node has a higher place than what it depends on. -/
lemma idxOf_lt_of_transGen (hu : u ∈ order) (hway : Relation.TransGen n.Reads u v) :
    order.idxOf v < order.idxOf u := by
  induction hway with
  | single hread => exact h.idxOf_lt hu hread
  | tail hway hread ih =>
      exact (h.idxOf_lt (h.mem_of_dependsOn hu hway.to_reflTransGen) hread).trans ih

/-- **The nodes with a place** are those without a cycle in their cone. -/
lemma mem_iff (hlive : ∀ g a b, n.Gate g a b → n.isLive a.node = true ∧ n.isLive b.node = true) :
    v ∈ order ↔ n.isLive v = true ∧ ¬ n.ReachesCycle v := by
  constructor
  · intro hv
    refine ⟨h.isLive v hv, ?_⟩
    rintro ⟨u, hdep, hcycle⟩
    exact lt_irrefl _ (h.idxOf_lt_of_transGen (h.mem_of_dependsOn hv hdep) hcycle)
  · rintro ⟨hv, hno⟩
    by_contra hnot
    exact hno (reachesCycle_of_not_shallow fun hshallow =>
      hnot (h.mem_of_shallow hlive hshallow hv))

end IsOrder

lemma unvisited_pairwise (n : Network) : n.topology.unvisited.Pairwise (· < ·) :=
  (List.pairwise_lt_range.filter _).filter _

/-- Every live node is listed, and once. -/
lemma topology_perm (n : Network) :
    (n.topology.order.toList ++ n.topology.unvisited).Perm n.liveNodes := by
  obtain ⟨horder, hunvisited⟩ := n.topology_spec
  have hnodup : (n.topology.order.toList ++ n.topology.unvisited).Nodup := by
    refine horder.nodup.append (n.unvisited_pairwise.imp Nat.ne_of_lt) ?_
    intro v hv hv'
    exact ((hunvisited v).mp hv').2 (Array.mem_toList_iff.mp hv)
  refine (List.perm_ext_iff_of_nodup hnodup (List.nodup_range.filter _)).mpr ?_
  intro v
  rw [List.mem_append, hunvisited, List.mem_filter, List.mem_range]
  constructor
  · rintro (hv | ⟨hv, -⟩)
    · exact ⟨lt_size_of_isLive (horder.isLive v hv), horder.isLive v hv⟩
    · exact ⟨lt_size_of_isLive hv, hv⟩
  · rintro ⟨-, hv⟩
    by_cases hin : v ∈ n.topology.order
    · exact .inl (Array.mem_toList_iff.mpr hin)
    · exact .inr ⟨hv, hin⟩

end Network

/-- **A network is sorted**: the live nodes without a cycle in their cone are ordered, fan-ins
first, and the live nodes that reach a cycle are listed by their positions. -/
structure Topology.Sorts (t : Topology) (n : Network) : Prop where
  fanInsFirst : n.FanInsFirst t.order.toList
  nodup : t.order.toList.Nodup
  mem_order : ∀ v, v ∈ t.order ↔ n.isLive v = true ∧ ¬ n.ReachesCycle v
  increasing : t.unvisited.Pairwise (· < ·)
  mem_unvisited : ∀ v, v ∈ t.unvisited ↔ n.isLive v = true ∧ n.ReachesCycle v
  /-- Every live node is listed, and once. -/
  perm : (t.order.toList ++ t.unvisited).Perm n.liveNodes
  /-- Nothing is left out in acyclic networks, and in no others. -/
  acyclic_iff : t.unvisited = [] ↔ n.Acyclic

open Network

variable {n : Network}

/-- **Every network is sorted** whose gates read from live nodes, however cyclic it is, by a
sweep that comes to its end. -/
theorem topology_exact
    (hlive : ∀ g a b, n.Gate g a b → n.isLive a.node = true ∧ n.isLive b.node = true) :
    n.topology.Sorts n ∧ ∃ s, Sweep.RunsTo n.useLists 0 ⟨n.sources, n.fanInCounts⟩ s ∧
      s.order = n.topology.order := by
  obtain ⟨horder, hunvisited⟩ := n.topology_spec
  have hmem : ∀ v, v ∈ n.topology.order ↔ n.isLive v = true ∧ ¬ n.ReachesCycle v :=
    fun v => Array.mem_toList_iff.symm.trans (horder.mem_iff hlive)
  have hrest : ∀ v, v ∈ n.topology.unvisited ↔ n.isLive v = true ∧ n.ReachesCycle v := by
    intro v
    rw [hunvisited, hmem]
    tauto
  refine ⟨⟨horder.fanInsFirst, horder.nodup, hmem, n.unvisited_pairwise, hrest,
    n.topology_perm, ?_⟩, ?_⟩
  · rw [List.eq_nil_iff_forall_not_mem, acyclic_iff]
    simp only [hrest, not_and]
  · exact ⟨_, Swept.runsTo n.swept_start (Nat.le_add_left n.size 0), rfl⟩

/-- Two gates read from each other, a third one from one of them, and a fourth one twice from
itself; only the last gate has a place in the order. -/
theorem topology_exact_of_cycles : ∃ n : Network, n.topology = ⟨#[0, 1, 6], [2, 3, 4, 5]⟩ ∧
    n.topology.Sorts n ∧ ∃ s, Sweep.RunsTo n.useLists 0 ⟨n.sources, n.fanInCounts⟩ s ∧
      s.order = n.topology.order := by
  let n : Network := { Network.empty with
    nodes := #[{ kind := .constant }, { kind := .input 0 },
      { kind := .gate ⟨1, false⟩ ⟨3, false⟩ }, { kind := .gate ⟨1, true⟩ ⟨2, false⟩ },
      { kind := .gate ⟨1, false⟩ ⟨3, true⟩ }, { kind := .gate ⟨5, false⟩ ⟨5, false⟩ },
      { kind := .gate ⟨0, true⟩ ⟨1, false⟩ }] }
  have htop : n.topology = ⟨#[0, 1, 6], [2, 3, 4, 5]⟩ := by decide +kernel
  have hall : ∀ g < n.size, ∀ p ∈ n.operands? g,
      n.isLive p.1.node = true ∧ n.isLive p.2.node = true := by decide +kernel
  exact ⟨n, htop, topology_exact fun g a b hg => hall g hg.lt_size (a, b) hg⟩

end AndInverter
