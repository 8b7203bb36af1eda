import AndInverter.Network.Topology
import AndInverter.Proofs.Network.Consistent

/-!
Orders of the live nodes, fan-ins first.  The sweep releases a gate once for each of its
fan-ins that joined the order, and the gate joins when it was released twice.

* `Network.useLists_count`: how often a node releases a gate;
* `Network.Swept` is the invariant of the sweep, and `swept_run`: it holds at the end;
* `topology_spec`: the order has no duplicates, fan-ins stand first, and nothing is missing
  whose fan-ins are there;
* `checkAcyclic_iff`: the check against cycles is right.
-/

namespace AndInverter

namespace Network

variable {n : Network} {g v : Nat} {a b : Signal} {order extra : List Nat}

/-- In a list of nodes, fan-ins stand before the gates that read from them. -/
def FanInsFirst (n : Network) (order : List Nat) : Prop :=
  ∀ before g after, order = before ++ g :: after → ∀ v, n.Reads g v → v ∈ before

lemma fanInsFirst_nil : n.FanInsFirst [] := fun before g after h => by simp at h

/-- Gates whose fan-ins are there may follow. -/
lemma FanInsFirst.append (h : n.FanInsFirst order)
    (hextra : ∀ g ∈ extra, ∀ v, n.Reads g v → v ∈ order) :
    n.FanInsFirst (order ++ extra) := by
  intro before g after heq v hread
  rcases List.append_eq_append_iff.mp heq with ⟨more, hbefore, hextra'⟩ | ⟨more, horder, hmore⟩
  · rw [hbefore]
    refine List.mem_append_left more (hextra g ?_ v hread)
    rw [hextra']
    exact List.mem_append_right more List.mem_cons_self
  · cases more with
    | nil =>
        rw [List.append_nil] at horder
        rw [← horder]
        refine hextra g ?_ v hread
        rw [← List.nil_append extra, ← hmore]
        exact List.mem_cons_self
    | cons x more =>
        obtain ⟨rfl, rfl⟩ := List.cons.inj hmore
        exact h before g more horder v hread

lemma FanInsFirst.mem (h : n.FanInsFirst order) (hg : g ∈ order) (hread : n.Reads g v) :
    v ∈ order := by
  obtain ⟨before, after, horder⟩ := List.append_of_mem hg
  rw [horder]
  exact List.mem_append_left _ (h before g after horder v hread)

/-! ### What the sweep starts from -/

/-- The releases of a gate by a node. -/
def releases (n : Network) (g v : Nat) : Nat := ((n.operands? g).map (pairUses v)).getD 0

lemma getD_setIfInBounds {α : Type} (xs : Array α) (i v : Nat) (a d : α) :
    (xs.setIfInBounds i a).getD v d = if i = v ∧ i < xs.size then a else xs.getD v d := by
  simp only [Array.getD_eq_getD_getElem?, Array.getElem?_setIfInBounds]
  by_cases hv : i = v
  · subst hv
    by_cases hlt : i < xs.size <;> simp [hlt]
  · simp [hv]

lemma getD_modify {α : Type} (xs : Array (List α)) (i v : Nat) (f : List α → List α)
    (hv : v < xs.size) :
    (xs.modify i f).getD v [] = if i = v then f (xs.getD v []) else xs.getD v [] := by
  simp only [Array.getD_eq_getD_getElem?, Array.getElem?_modify, Array.getElem?_eq_getElem hv]
  split_ifs <;> simp

/-- **A node lists a gate** once for each of its fan-ins that is the node. -/
lemma useLists_count (hv : v < n.size) (g : Nat) :
    (n.useLists.getD v []).count g = n.releases g v := by
  suffices h : n.useLists.size = n.size ∧
      (n.useLists.getD v []).count g = if g ∈ n.gates then n.releases g v else 0 by
    rw [h.2]
    split_ifs with hg
    · rfl
    · cases hop : n.operands? g with
      | none => rw [releases, hop]; rfl
      | some p => exact absurd (mem_gates.mpr ⟨p.1, p.2, hop⟩) hg
  have hnodup := n.nodup_gates
  have hlive : ∀ i ∈ n.gates, ∃ a b, n.Gate i a b := fun i hi => mem_gates.mp hi
  rw [useLists]
  revert hnodup hlive
  generalize n.gates = l
  induction l with
  | nil => exact fun _ _ => ⟨by simp, by simp [hv]⟩
  | cons x l ih =>
      intro hnodup hlive
      obtain ⟨hx, hnodup⟩ := List.nodup_cons.mp hnodup
      obtain ⟨hsize, hcount⟩ := ih hnodup fun i hi => hlive i (List.mem_cons_of_mem x hi)
      obtain ⟨a, b, hxab⟩ := hlive x List.mem_cons_self
      rw [List.foldr_cons, hxab.fanIns?]
      generalize List.foldr _ (Array.replicate n.size []) l = lists at hsize hcount ⊢
      refine ⟨by simp [hsize], ?_⟩
      rw [getD_modify _ _ _ _ (by simp [hsize, hv]), getD_modify _ _ _ _ (by simp [hsize, hv])]
      generalize lists.getD v [] = listed at hcount ⊢
      by_cases hgx : g = x
      · subst hgx
        rw [if_pos List.mem_cons_self, releases, show n.operands? g = some (a, b) from hxab]
        rw [if_neg hx] at hcount
        by_cases ha : a.node = v <;> by_cases hb : b.node = v <;>
          simp [ha, hb, pairUses, hcount]
      · have hmem : g ∈ x :: l ↔ g ∈ l := by simp [hgx]
        simp only [hmem, ← hcount]
        by_cases ha : a.node = v <;> by_cases hb : b.node = v <;>
          simp [ha, hb, List.count_cons_of_ne (Ne.symm hgx)]

lemma fanInCounts_getD (n : Network) (g : Nat) :
    n.fanInCounts.getD g 0 = if n.isLiveGate g then 2 else 0 := by
  rw [fanInCounts, Array.getD_eq_getD_getElem?, Array.getElem?_map, isLiveGate, slot?]
  cases n.nodes[g]? with
  | none => rfl
  | some s =>
      simp only [Option.map_some, Option.getD_some, Option.any_some, Slot.isLiveGate,
        Slot.fanInCount]
      rcases Bool.eq_false_or_eq_true s.dead with hd | hd <;> simp [hd]

/-! ### The sweep -/

/-- **The invariant of the sweep**, with the gates released so far: a gate waits for two
releases, and the order consists of the sources and the gates that had both. -/
structure Swept (n : Network) (released : List Nat) (s : Sweep) : Prop where
  size : s.waiting.size = n.size
  waiting : ∀ g, n.isLiveGate g = true → s.waiting.getD g 0 + released.count g = 2
  mem_iff : ∀ v, v ∈ s.order ↔ v ∈ n.sources ∨ (n.isLiveGate v = true ∧ released.count v = 2)
  nodup : s.order.toList.Nodup

lemma mem_sources : v ∈ n.sources ↔ n.isLive v = true ∧ ¬ n.isLiveGate v = true := by
  rw [sources, List.mem_toArray, List.mem_filter, liveNodes, List.mem_filter, List.mem_range]
  simp only [isLive, isLiveGate, isGate]
  constructor
  · rintro ⟨⟨-, hl⟩, hg⟩
    cases hs : n.slot? v with
    | none => simp [hs] at hl
    | some s => simp_all [Slot.isLiveGate]
  · rintro ⟨hl, hg⟩
    refine ⟨⟨lt_size_of_isLive hl, hl⟩, ?_⟩
    cases hs : n.slot? v with
    | none => simp [hs] at hl
    | some s => simp_all [Slot.isLiveGate]

/-- The live nodes without fan-ins are the constant and the inputs. -/
lemma WellFormed.mem_sources_iff (hn : n.WellFormed) :
    v ∈ n.sources ↔ v = 0 ∨ v ∈ n.inputs := by
  rw [mem_sources, isLiveGate_iff]
  constructor
  · rintro ⟨hl, hgate⟩
    obtain ⟨k, hk⟩ := isLive_iff.mp hl
    have hkind : n.kind? v = some k := by rw [kind?, hk, Option.map_some]
    cases k with
    | constant => exact .inl ((hn.constant_iff v).mp hkind)
    | input i => exact .inr (Array.mem_of_getElem? ((hn.input_iff i v).mpr hkind))
    | gate a b => exact absurd ⟨a, b, gate_iff.mpr hk⟩ hgate
  · rintro (rfl | hv)
    · refine ⟨hn.isLive_zero, ?_⟩
      rintro ⟨a, b, hg⟩
      exact hn.ne_zero_of_gate hg rfl
    · obtain ⟨i, hi⟩ := Array.mem_iff_getElem?.mp hv
      have hkind := (hn.input_iff i v).mp hi
      rw [kind?, Option.map_eq_some_iff] at hkind
      obtain ⟨⟨k, dead⟩, hk, rfl⟩ := hkind
      cases dead with
      | true => exact absurd rfl (hn.permanent v _ hk)
      | false =>
          refine ⟨isLive_iff.mpr ⟨_, hk⟩, ?_⟩
          rintro ⟨a, b, hg⟩
          rw [gate_iff, hk] at hg
          cases hg

lemma WellFormed.isLive_of_mem_inputs (hn : n.WellFormed) (hv : v ∈ n.inputs) :
    n.isLive v = true :=
  (mem_sources.mp (hn.mem_sources_iff.mpr (.inr hv))).1

/-- Where the sweep starts, nothing was released. -/
lemma swept_start (n : Network) : n.Swept [] ⟨n.sources, n.fanInCounts⟩ where
  size := by simp [fanInCounts, Network.size]
  waiting g hg := by rw [fanInCounts_getD, if_pos hg]; rfl
  mem_iff v := by simp
  nodup := by
    rw [sources, List.toList_toArray]
    exact (List.nodup_range.filter _).filter _

/-- Every live gate has a counter. -/
lemma Swept.lt_waiting {released : List Nat} {s : Sweep} (h : n.Swept released s)
    (hg : n.isLiveGate g = true) : g < s.waiting.size := by
  obtain ⟨a, b, hgate⟩ := isLiveGate_iff.mp hg
  exact h.size ▸ hgate.lt_size

/-- **A release** of a gate that had less than two. -/
lemma Swept.release {released : List Nat} {s : Sweep} (h : n.Swept released s)
    (hg : n.isLiveGate g = true) (hlt : released.count g < 2) :
    n.Swept (released ++ [g]) (s.release g) ∧ ∃ extra, (s.release g).order.toList
      = s.order.toList ++ extra ∧ extra.Sublist [g] ∧
        ∀ i ∈ extra, (released ++ [g]).count i = 2 := by
  have hwait := h.waiting g hg
  have hsize := h.lt_waiting hg
  have hcount : ∀ i, (released ++ [g]).count i = released.count i + if i = g then 1 else 0 := by
    intro i
    rw [List.count_append, List.count_singleton]
    simp only [beq_iff_eq, eq_comm (a := g)]
  have hnot : g ∉ s.order := by
    rw [h.mem_iff, mem_sources]
    rintro (⟨-, hn⟩ | ⟨-, h2⟩)
    · exact hn hg
    · omega
  have hwaiting : ∀ i, n.isLiveGate i = true → (s.release g).waiting.getD i 0
      + (released ++ [g]).count i = 2 := by
    intro i hi
    have hwi := h.waiting i hi
    rw [hcount, Sweep.release]
    simp only [Array.getD_eq_getD_getElem?] at hwi hwait ⊢
    rw [Array.getElem?_setIfInBounds]
    by_cases hig : g = i
    · subst hig
      rw [if_pos rfl, if_pos hsize, if_pos rfl, Option.getD_some]
      omega
    · rw [if_neg hig, if_neg (Ne.symm hig)]
      omega
  -- the gate joins the order with its second release
  have horder : (s.release g).order = if released.count g = 1 then s.order.push g
      else s.order := by
    rw [Sweep.release]
    simp only
    refine if_congr ?_ rfl rfl
    omega
  refine ⟨⟨by simp [Sweep.release, h.size], hwaiting, ?_, ?_⟩, ?_⟩
  · intro v
    rw [horder, hcount]
    by_cases hvg : v = g
    · subst hvg
      rw [if_pos rfl]
      split_ifs with h1
      · simp [hg, h1]
      · have hns : v ∉ n.sources := fun hs => (mem_sources.mp hs).2 hg
        have hne : ¬ released.count v + 1 = 2 := by omega
        simp [hnot, hns, hne]
    · rw [if_neg hvg, Nat.add_zero, ← h.mem_iff]
      split_ifs <;> simp [hvg]
  · rw [horder]
    split_ifs
    · rw [Array.toList_push]
      exact List.nodup_append.mpr ⟨h.nodup, List.nodup_singleton g, fun x hx y hy => by
        rintro rfl
        exact hnot (by simpa [List.mem_singleton.mp hy] using hx)⟩
    · exact h.nodup
  · rw [horder]
    split_ifs with h1
    · refine ⟨[g], Array.toList_push, .refl _, ?_⟩
      intro i hi
      rw [List.mem_singleton.mp hi, hcount, if_pos rfl, h1]
    · exact ⟨[], (List.append_nil _).symm, List.nil_sublist _, nofun⟩

/-- A gate that is to be released was released less than twice. -/
lemma count_lt_two {released gates : List Nat} (h : (released ++ g :: gates).count g ≤ 2) :
    released.count g < 2 := by
  rw [List.count_append, List.count_cons_self] at h
  omega

/-- **A node releases the gates on its list.** -/
lemma Swept.foldl_release {released : List Nat} {s : Sweep} (gates : List Nat)
    (h : n.Swept released s) (hgates : ∀ g ∈ gates, n.isLiveGate g = true)
    (hcount : ∀ g, (released ++ gates).count g ≤ 2) :
    n.Swept (released ++ gates) (gates.foldl Sweep.release s) ∧ ∃ extra,
      (gates.foldl Sweep.release s).order.toList = s.order.toList ++ extra ∧
        extra.Sublist gates ∧ ∀ i ∈ extra, (released ++ gates).count i = 2 := by
  induction gates generalizing released s with
  | nil => exact ⟨by rwa [List.append_nil], [], (List.append_nil _).symm, .refl _, nofun⟩
  | cons g gates ih =>
      have hlt := count_lt_two (hcount g)
      have hsplit : released ++ g :: gates = (released ++ [g]) ++ gates := by simp
      obtain ⟨h₁, extra₁, horder₁, hsub₁, hextra₁⟩ := h.release (hgates g List.mem_cons_self) hlt
      rw [hsplit] at hcount ⊢
      obtain ⟨h₂, extra₂, horder₂, hsub₂, hextra₂⟩ :=
        ih h₁ (fun i hi => hgates i (List.mem_cons_of_mem g hi)) hcount
      refine ⟨h₂, extra₁ ++ extra₂, ?_, hsub₁.append hsub₂, ?_⟩
      · rw [List.foldl_cons, horder₂, horder₁, List.append_assoc]
      · intro i hi
        rcases List.mem_append.mp hi with hi | hi
        · have hle := hcount i
          have heq := hextra₁ i hi
          rw [List.count_append] at hle ⊢
          omega
        · exact hextra₂ i hi

/-- The gates released by some nodes. -/
def releasedBy (n : Network) (nodes : List Nat) : List Nat :=
  nodes.flatMap fun v => n.useLists.getD v []

/-- Distinct nodes release a gate once for each of its fan-ins among them. -/
lemma count_releasedBy {nodes : List Nat} (hg : n.Gate g a b) (hnodup : nodes.Nodup)
    (hlt : ∀ v ∈ nodes, v < n.size) : (n.releasedBy nodes).count g
      = (if a.node ∈ nodes then 1 else 0) + if b.node ∈ nodes then 1 else 0 := by
  induction nodes with
  | nil => rfl
  | cons v nodes ih =>
      obtain ⟨hv, hnodup⟩ := List.nodup_cons.mp hnodup
      have ih := ih hnodup fun u hu => hlt u (List.mem_cons_of_mem v hu)
      rw [releasedBy, List.flatMap_cons, List.count_append,
        useLists_count (hlt v List.mem_cons_self), ← releasedBy, ih, releases,
        show n.operands? g = some (a, b) from hg, Option.map_some, Option.getD_some, pairUses]
      have hone : ∀ u, (if u = v then 1 else 0) + (if u ∈ nodes then 1 else 0)
          = if u ∈ v :: nodes then 1 else 0 := by
        intro u
        by_cases huv : u = v
        · simp [huv, hv]
        · simp [huv]
      rw [← hone, ← hone]
      simp only
      omega

/-- Distinct nodes release a gate twice exactly if both of its fan-ins are among them. -/
lemma count_releasedBy_eq_two {nodes : List Nat} (hg : n.Gate g a b) (hnodup : nodes.Nodup)
    (hlt : ∀ v ∈ nodes, v < n.size) :
    (n.releasedBy nodes).count g = 2 ↔ a.node ∈ nodes ∧ b.node ∈ nodes := by
  rw [count_releasedBy hg hnodup hlt]
  by_cases ha : a.node ∈ nodes <;> by_cases hb : b.node ∈ nodes <;> simp [ha, hb]

lemma releasedBy_isLiveGate {nodes : List Nat} (hlt : ∀ v ∈ nodes, v < n.size)
    (hg : g ∈ n.releasedBy nodes) : n.isLiveGate g = true := by
  obtain ⟨v, hv, hgv⟩ := List.mem_flatMap.mp hg
  have hpos := List.count_pos_iff.mpr hgv
  rw [useLists_count (hlt v hv), releases] at hpos
  cases hop : n.operands? g with
  | none => simp [hop] at hpos
  | some p => exact isLiveGate_iff.mpr ⟨p.1, p.2, hop⟩

/-- Nobody is released more than twice. -/
lemma count_releasedBy_le {nodes : List Nat} (hnodup : nodes.Nodup)
    (hlt : ∀ v ∈ nodes, v < n.size) (g : Nat) : (n.releasedBy nodes).count g ≤ 2 := by
  by_cases hg : g ∈ n.releasedBy nodes
  · obtain ⟨a, b, hgate⟩ := isLiveGate_iff.mp (releasedBy_isLiveGate hlt hg)
    rw [count_releasedBy hgate hnodup hlt]
    split_ifs <;> omega
  · rw [List.count_eq_zero_of_not_mem hg]
    omega

lemma Swept.lt_size {released : List Nat} {s : Sweep} (h : n.Swept released s)
    (hv : v ∈ s.order.toList) : v < n.size := by
  rcases (h.mem_iff v).mp (Array.mem_toList_iff.mp hv) with hsource | ⟨hgate, -⟩
  · exact lt_size_of_isLive (mem_sources.mp hsource).1
  · obtain ⟨a, b, hgate⟩ := isLiveGate_iff.mp hgate
    exact hgate.lt_size

lemma Swept.length_le {released : List Nat} {s : Sweep} (h : n.Swept released s) :
    s.order.toList.length ≤ n.size := by
  have hsub : s.order.toList ⊆ List.range n.size := fun v hv => List.mem_range.mpr (h.lt_size hv)
  simpa using (h.nodup.subperm hsub).length_le

/-- The node whose turn it is lists live gates, and none of them is released too often. -/
lemma Swept.turn {next node : Nat} {s : Sweep}
    (h : n.Swept (n.releasedBy (s.order.toList.take next)) s) (hnode : s.order[next]? = some node) :
    n.releasedBy (s.order.toList.take (next + 1))
        = n.releasedBy (s.order.toList.take next) ++ n.useLists.getD node [] ∧
      (∀ g ∈ n.useLists.getD node [], n.isLiveGate g = true) ∧
      ∀ g, (n.releasedBy (s.order.toList.take next) ++ n.useLists.getD node []).count g ≤ 2 := by
  have htake : s.order.toList.take (next + 1) = s.order.toList.take next ++ [node] := by
    rw [List.take_add_one]
    simp [hnode]
  have hsplit : n.releasedBy (s.order.toList.take (next + 1))
      = n.releasedBy (s.order.toList.take next) ++ n.useLists.getD node [] := by
    rw [htake, releasedBy, List.flatMap_append]
    simp [releasedBy]
  have hlt : ∀ v ∈ s.order.toList.take (next + 1), v < n.size :=
    fun v hv => h.lt_size (List.mem_of_mem_take hv)
  refine ⟨hsplit, ?_, ?_⟩
  · intro g hg
    refine releasedBy_isLiveGate hlt (hsplit ▸ ?_)
    exact List.mem_append_right _ hg
  · intro g
    rw [← hsplit]
    exact count_releasedBy_le (h.nodup.sublist (List.take_sublist _ _)) hlt g

/-- **The next node does its releases**, and gates join the order whose fan-ins are there by
now. -/
lemma Swept.step {next node : Nat} {s : Sweep}
    (h : n.Swept (n.releasedBy (s.order.toList.take next)) s) (hnode : s.order[next]? = some node) :
    ∃ extra, ((n.useLists.getD node []).foldl Sweep.release s).order.toList
        = s.order.toList ++ extra ∧ extra.Sublist (n.useLists.getD node []) ∧
      (∀ g ∈ extra, ∀ v, n.Reads g v → v ∈ s.order.toList.take (next + 1)) ∧
      n.Swept (n.releasedBy
          (((n.useLists.getD node []).foldl Sweep.release s).order.toList.take (next + 1)))
        ((n.useLists.getD node []).foldl Sweep.release s) := by
  obtain ⟨hnext, -⟩ := Array.getElem?_eq_some_iff.mp hnode
  have hlt : ∀ v ∈ s.order.toList.take (next + 1), v < n.size :=
    fun v hv => h.lt_size (List.mem_of_mem_take hv)
  have hnodup : (s.order.toList.take (next + 1)).Nodup := h.nodup.sublist (List.take_sublist _ _)
  obtain ⟨hsplit, hgates, hcount⟩ := h.turn hnode
  obtain ⟨h', extra, horder, hsub, hextra⟩ := h.foldl_release _ hgates hcount
  rw [← hsplit] at h' hextra
  refine ⟨extra, horder, hsub, ?_, ?_⟩
  · rintro g hg v ⟨a, b, hgate, hv⟩
    obtain ⟨ha, hb⟩ := (count_releasedBy_eq_two hgate hnodup hlt).mp (hextra g hg)
    rcases hv with rfl | rfl
    · exact ha
    · exact hb
  · -- the nodes that did their releases are the same in the longer order
    rw [horder, List.take_append_of_le_length (by simpa using hnext)]
    exact h'

/-- **The sweep keeps its invariant** until every node of the order did its releases. -/
lemma swept_run {bound next : Nat} {s : Sweep}
    (h : n.Swept (n.releasedBy (s.order.toList.take next)) s)
    (hfirst : n.FanInsFirst s.order.toList) (hbound : n.size ≤ next + bound) :
    n.Swept (n.releasedBy (Sweep.run n.useLists bound next s).order.toList)
        (Sweep.run n.useLists bound next s) ∧
      n.FanInsFirst (Sweep.run n.useLists bound next s).order.toList := by
  have hlength := h.length_le
  have hdone : s.order.toList.length ≤ next → s.order.toList.take next = s.order.toList :=
    List.take_of_length_le
  induction bound generalizing next s with
  | zero =>
      rw [hdone (by omega)] at h
      exact ⟨h, hfirst⟩
  | succ bound ih =>
      rw [Sweep.run]
      cases hnode : s.order[next]? with
      | none =>
          rw [hdone (by simpa using hnode)] at h
          exact ⟨h, hfirst⟩
      | some node =>
          obtain ⟨extra, horder, -, hextra, h'⟩ := h.step hnode
          refine ih h' ?_ (by omega) h'.length_le List.take_of_length_le
          rw [horder]
          exact hfirst.append fun g hg v hread => List.mem_of_mem_take (hextra g hg v hread)

/-! ### The order -/

/-- A list of nodes is an order of the live ones as far as there is one. -/
structure IsOrder (n : Network) (order : List Nat) : Prop where
  nodup : order.Nodup
  isLive : ∀ v ∈ order, n.isLive v = true
  fanInsFirst : n.FanInsFirst order
  complete : ∀ v, n.isLive v = true → (∀ u, n.Reads v u → u ∈ order) → v ∈ order

lemma marks_getD (n : Network) (nodes : Array Nat) (v : Nat) :
    (n.marks nodes).getD v false = true ↔ v ∈ nodes ∧ v < n.size := by
  have key : ∀ (l : List Nat) (seen : Array Bool), seen.size = n.size →
      ((l.foldl (fun seen node => seen.setIfInBounds node true) seen).getD v false = true ↔
        (v ∈ l ∧ v < n.size) ∨ seen.getD v false = true) := by
    intro l
    induction l with
    | nil => intro seen _; simp
    | cons x l ih =>
        intro seen hsize
        rw [List.foldl_cons, ih _ (by simp [hsize]), getD_setIfInBounds, List.mem_cons, hsize]
        by_cases hxv : x = v
        · subst hxv
          by_cases hx : x < n.size <;> simp [hx]
        · simp [hxv, Ne.symm hxv]
  rw [marks, ← Array.foldl_toList, key _ _ (by simp)]
  simp only [Array.getD_eq_getD_getElem?, Array.getElem?_replicate, Array.mem_toList_iff]
  split_ifs <;> simp

lemma size_marks (n : Network) (nodes : Array Nat) : (n.marks nodes).size = n.size := by
  have key : ∀ (l : List Nat) (seen : Array Bool),
      (l.foldl (fun seen node => seen.setIfInBounds node true) seen).size = seen.size := by
    intro l
    induction l with
    | nil => exact fun _ => rfl
    | cons x l ih => exact fun seen => (ih _).trans Array.size_setIfInBounds
  rw [marks, ← Array.foldl_toList, key, Array.size_replicate]

/-- The sources read nothing. -/
lemma fanInsFirst_sources (n : Network) : n.FanInsFirst n.sources.toList := by
  have hsources : ∀ g ∈ n.sources.toList, ∀ v, n.Reads g v → v ∈ [] := by
    intro g hg v hread
    exact absurd hread.isLiveGate (mem_sources.mp (Array.mem_toList_iff.mp hg)).2
  exact fanInsFirst_nil.append hsources

/-- **The order of a network** and the live nodes without a place in it. -/
theorem topology_spec (n : Network) : n.IsOrder n.topology.order.toList ∧
    ∀ v, v ∈ n.topology.unvisited ↔ n.isLive v = true ∧ v ∉ n.topology.order := by
  have hstart : n.Swept (n.releasedBy (n.sources.toList.take 0)) ⟨n.sources, n.fanInCounts⟩ :=
    swept_start n
  obtain ⟨hswept, hfirst⟩ := swept_run hstart n.fanInsFirst_sources (Nat.le_add_left n.size 0)
  have hmem : ∀ v, v ∈ n.topology.order ↔ v ∈ n.sources ∨ (n.isLiveGate v = true ∧
      (n.releasedBy n.topology.order.toList).count v = 2) := hswept.mem_iff
  have hlt : ∀ v ∈ n.topology.order.toList, v < n.size := fun v hv => hswept.lt_size hv
  refine ⟨⟨hswept.nodup, ?_, hfirst, ?_⟩, ?_⟩
  · intro v hv
    rcases (hmem v).mp (Array.mem_toList_iff.mp hv) with hsource | ⟨hgate, -⟩
    · exact (mem_sources.mp hsource).1
    · obtain ⟨a, b, hgate⟩ := isLiveGate_iff.mp hgate
      exact hgate.isLive
  · intro v hv hall
    refine Array.mem_toList_iff.mpr ((hmem v).mpr ?_)
    by_cases hgate : n.isLiveGate v = true
    · obtain ⟨a, b, hg⟩ := isLiveGate_iff.mp hgate
      exact .inr ⟨hgate, (count_releasedBy_eq_two hg hswept.nodup hlt).mpr
        ⟨hall _ hg.reads_left, hall _ hg.reads_right⟩⟩
    · exact .inl (mem_sources.mpr ⟨hv, hgate⟩)
  · intro v
    rw [topology, List.mem_filter, liveNodes, List.mem_filter, List.mem_range,
      Bool.not_eq_true', ← Bool.not_eq_true, marks_getD]
    constructor
    · rintro ⟨⟨hlt, hl⟩, hnot⟩
      exact ⟨hl, fun hin => hnot ⟨hin, hlt⟩⟩
    · rintro ⟨hl, hnot⟩
      exact ⟨⟨lt_size_of_isLive hl, hl⟩, fun hin => hnot hin.1⟩

/-- In an order, a gate has a higher place than its fan-ins. -/
lemma IsOrder.idxOf_lt (h : n.IsOrder order) (hg : g ∈ order) (hread : n.Reads g v) :
    order.idxOf v < order.idxOf g := by
  obtain ⟨before, after, horder⟩ := List.append_of_mem hg
  have hv := h.fanInsFirst before g after horder v hread
  have hnodup := horder ▸ h.nodup
  have hg' : g ∉ before := fun hmem =>
    (List.nodup_append.mp hnodup).2.2 g hmem g List.mem_cons_self rfl
  rw [horder, List.idxOf_append_of_mem hv, List.idxOf_append_of_notMem hg', List.idxOf_cons_self]
  have := List.idxOf_lt_length_of_mem hv
  omega

/-- An order is not longer than the network. -/
lemma IsOrder.length_le (h : n.IsOrder order) : order.length ≤ n.size := by
  have hsub : order ⊆ List.range n.size := fun v hv =>
    List.mem_range.mpr (lt_size_of_isLive (h.isLive v hv))
  simpa using (h.nodup.subperm hsub).length_le

/-- **An order of all live nodes** exists in acyclic networks only. -/
theorem IsOrder.acyclic (h : n.IsOrder order) (hall : ∀ v, n.isLive v = true → v ∈ order) :
    n.Acyclic := by
  refine acyclic_of_rank order.idxOf ?_
  intro g v hread _
  exact h.idxOf_lt (hall g hread.isLive) hread

/-- Where fan-ins are live, a live node that no long way leaves has a place. -/
lemma IsOrder.mem_of_shallow {bound : Nat} (h : n.IsOrder order)
    (hlive : ∀ g a b, n.Gate g a b → n.isLive a.node = true ∧ n.isLive b.node = true)
    (hshallow : n.Shallow bound v) (hv : n.isLive v = true) : v ∈ order := by
  induction bound generalizing v with
  | zero => exact hshallow.elim
  | succ bound ih =>
      refine h.complete v hv fun u hread => ih (hshallow u hread) ?_
      obtain ⟨a, b, hg, hu⟩ := hread
      obtain ⟨hla, hlb⟩ := hlive v a b hg
      rcases hu with rfl | rfl <;> assumption

/-- In an acyclic network whose fan-ins are live, every live node has a place. -/
theorem IsOrder.mem_of_acyclic (h : n.IsOrder order) (hn : n.Acyclic)
    (hlive : ∀ g a b, n.Gate g a b → n.isLive a.node = true ∧ n.isLive b.node = true)
    (hv : n.isLive v = true) : v ∈ order :=
  h.mem_of_shallow hlive (hn.shallow v) hv

/-- The order that a network hands out. -/
lemma order_eq_ok {nodes : Array Nat} (h : n.order = .ok nodes) :
    n.IsOrder nodes.toList ∧ (∀ v, n.isLive v = true → v ∈ nodes.toList) ∧ n.Acyclic := by
  obtain ⟨horder, hunvisited⟩ := n.topology_spec
  rw [Network.order] at h
  split at h
  · next nodes' htop =>
      cases h
      rw [htop] at horder hunvisited
      have hall : ∀ v, n.isLive v = true → v ∈ nodes.toList := by
        intro v hv
        by_contra hnot
        exact List.not_mem_nil
          ((hunvisited v).mpr ⟨hv, fun hin => hnot (Array.mem_toList_iff.mpr hin)⟩)
      exact ⟨horder, hall, horder.acyclic hall⟩
  · cases h

/-- A network that has no order is cyclic. -/
lemma order_eq_error {f : Fault} (h : n.order = .error f)
    (hlive : ∀ g a b, n.Gate g a b → n.isLive a.node = true ∧ n.isLive b.node = true) :
    ¬ n.Acyclic ∧ ∃ visited unvisited, f = .noOrder visited unvisited := by
  obtain ⟨horder, hunvisited⟩ := n.topology_spec
  rw [Network.order] at h
  split at h
  · cases h
  · next nodes unvisited hne htop =>
      cases h
      refine ⟨fun hn => hne ?_, nodes.size, unvisited, rfl⟩
      rw [htop] at horder hunvisited
      refine List.eq_nil_iff_forall_not_mem.mpr ?_
      intro v hv
      obtain ⟨hl, hnot⟩ := (hunvisited v).mp hv
      exact hnot (Array.mem_toList_iff.mp (horder.mem_of_acyclic hn hlive hl))

/-- **The check against cycles is right.** -/
theorem checkAcyclic_iff {context : String}
    (hlive : ∀ g a b, n.Gate g a b → n.isLive a.node = true ∧ n.isLive b.node = true) :
    n.checkAcyclic context = .ok () ↔ n.Acyclic := by
  obtain ⟨horder, hunvisited⟩ := n.topology_spec
  have hnil : n.checkAcyclic context = .ok () ↔ n.topology.unvisited = [] := by
    rw [checkAcyclic]
    split
    · next htop => simp [htop]
    · next htop => simp_all
  rw [hnil]
  constructor
  · intro hempty
    refine horder.acyclic ?_
    intro v hv
    by_contra hnot
    have := (hunvisited v).mpr ⟨hv, fun hin => hnot (Array.mem_toList_iff.mpr hin)⟩
    rw [hempty] at this
    exact List.not_mem_nil this
  · intro hn
    refine List.eq_nil_iff_forall_not_mem.mpr ?_
    intro v hv
    obtain ⟨hl, hnot⟩ := (hunvisited v).mp hv
    exact hnot (Array.mem_toList_iff.mp (horder.mem_of_acyclic hn hlive hl))

/-! ### Networks with the same gates -/

lemma fanIns?_eq_bind (n : Network) (v : Nat) :
    n.fanIns? v = (n.shape v).bind fun p => p.1.fanIns? := by
  rw [fanIns?, shape, Option.bind_map]
  rfl

lemma isGate_eq_any (n : Network) (v : Nat) :
    n.isGate v = (n.shape v).any fun p => p.1.fanIns?.isSome := by
  rw [isGate, shape, Option.any_map]
  rfl

lemma getElem?_fanInCounts (n : Network) (v : Nat) : n.fanInCounts[v]? =
    (n.shape v).map fun p => if p.2 then 0 else if p.1.fanIns?.isSome then 2 else 0 := by
  rw [fanInCounts, Array.getElem?_map, shape, Option.map_map]
  rfl

section SameGates

variable {m : Network} (h : SameGates n m)

include h

lemma SameGates.fanIns? : m.fanIns? = n.fanIns? := by
  funext v
  rw [fanIns?_eq_bind, fanIns?_eq_bind, h.shape]

lemma SameGates.gates : m.gates = n.gates := by
  have hlive : m.isLiveGate = n.isLiveGate := by
    funext v
    rw [Bool.eq_iff_iff, isLiveGate_iff, isLiveGate_iff]
    simp only [h.gate]
  rw [Network.gates, Network.gates, h.size, hlive]

lemma SameGates.topology : m.topology = n.topology := by
  have hnodes : m.liveNodes = n.liveNodes := by
    rw [liveNodes, liveNodes, h.size, funext h.isLive]
  have hsources : m.sources = n.sources := by
    simp only [sources, hnodes, isGate_eq_any, h.shape]
  have hcounts : m.fanInCounts = n.fanInCounts := by
    refine Array.ext_getElem? fun v => ?_
    rw [getElem?_fanInCounts, getElem?_fanInCounts, h.shape]
  have huses : m.useLists = n.useLists := by
    rw [useLists, useLists, h.gates, h.fanIns?, h.size]
  simp only [Network.topology, marks, huses, hsources, hcounts, hnodes, h.size]

/-- **The order is read off the gates.** -/
lemma SameGates.order_eq : m.order = n.order := by
  rw [Network.order, Network.order, h.topology]

end SameGates

end Network

end AndInverter
