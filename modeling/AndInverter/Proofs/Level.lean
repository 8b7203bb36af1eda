import AndInverter.Depth
import AndInverter.Proofs.Interpretation
import AndInverter.Proofs.Network.Ordering
import AndInverter.Proofs.Run

/-!
Levels, as an interpretation: a gate is one level above the higher of its fan-ins.

* `Network.level` and `Network.depth` say what the levels and the depth are;
* `DepthView.Describes`: a view that says so too;
* `describes_ofNetwork`: a view that was just taken does;
* `ofNetwork_congr`: the same view is taken as long as the graph is the same.
-/

namespace AndInverter

/-- The connectives that count levels. -/
def Connectives.levels : Connectives Nat := ⟨0, id, fun x y => 1 + max x y⟩

namespace Network

variable {n m : Network} {g v d : Nat} {a b s : Signal} {pins : Multiset Nat}

/-- **The level of a node**: the number of gates on a longest way down from it. -/
def level (n : Network) (v : Nat) : Nat := n.interpret .levels (fun _ => 0) v

/-- **The depth of a network**: the largest level of a node behind an output. -/
def depth (n : Network) : Nat := n.outputs.foldl (fun depth s => max depth (n.level s.node)) 0

lemma read_levels (φ : Nat → Nat) (s : Signal) : Connectives.levels.read φ s = φ s.node := by
  rw [Connectives.read]
  exact ite_self _

lemma level_gate (h : n.Acyclic) (hg : n.Gate g a b) :
    n.level g = 1 + max (n.level a.node) (n.level b.node) := by
  rw [level, interpret_gate h hg, read_levels, read_levels]
  rfl

/-- What is no live gate is at the bottom. -/
lemma level_of_not_gate (h : ¬ n.isLiveGate v = true) : n.level v = 0 := by
  rw [level, interpret, interpretWithin]
  split
  · rfl
  · next a b hs => exact absurd (isLiveGate_iff.mpr ⟨a, b, gate_iff.mpr hs⟩) h
  · rfl

lemma Consistent.level_zero (hn : n.Consistent pins) : n.level 0 = 0 := by
  refine level_of_not_gate ?_
  intro hgate
  obtain ⟨a, b, hg⟩ := isLiveGate_iff.mp hgate
  exact hn.ne_zero_of_gate hg rfl

lemma Reads.level_lt (h : n.Acyclic) (hg : n.Reads g v) : n.level v < n.level g := by
  obtain ⟨a, b, hg, hv⟩ := hg
  rw [level_gate h hg]
  rcases hv with rfl | rfl <;> omega

/-- A node in the cone of another is not above it. -/
lemma DependsOn.level_le (h : n.Acyclic) (hdep : n.DependsOn g v) : n.level v ≤ n.level g := by
  induction hdep with
  | refl => exact le_rfl
  | tail _ hread ih => exact (hread.level_lt h).le.trans ih

/-- A node as deep as another depends on it only if it is the same. -/
lemma DependsOn.eq_of_level_le (h : n.Acyclic) (hdep : n.DependsOn g v)
    (hle : n.level g ≤ n.level v) : g = v := by
  rcases hdep.cases_head with heq | ⟨c, hread, hrest⟩
  · exact heq
  · have h₁ := hread.level_lt h
    have h₂ := DependsOn.level_le h hrest
    omega

lemma depth_le_iff : n.depth ≤ d ↔ ∀ s ∈ n.outputs, n.level s.node ≤ d := by
  have key : ∀ (l : List Signal) (x : Nat),
      l.foldl (fun depth s => max depth (n.level s.node)) x ≤ d
        ↔ x ≤ d ∧ ∀ s ∈ l, n.level s.node ≤ d := by
    intro l
    induction l with
    | nil => intro x; simp
    | cons t l ih =>
        intro x
        rw [List.foldl_cons, ih, List.forall_mem_cons, max_le_iff, and_assoc]
  rw [depth, ← Array.foldl_toList, key]
  simp

lemma level_le_depth (hs : s ∈ n.outputs) : n.level s.node ≤ n.depth :=
  depth_le_iff.mp le_rfl s hs

/-! ### Computed levels -/

/-- Levels along an order are right as far as the order goes, and 0 beyond. -/
lemma levelsAlong_spec {order : List Nat} (h : n.Acyclic) (hnodup : order.Nodup)
    (hlive : ∀ v ∈ order, n.isLive v = true) (hfirst : n.FanInsFirst order) :
    (n.levelsAlong order.toArray).size = n.size ∧
      ∀ v, (n.levelsAlong order.toArray).getD v 0 = if v ∈ order then n.level v else 0 := by
  simp only [levelsAlong, List.foldl_toArray']
  induction order using List.reverseRecOn with
  | nil =>
      refine ⟨by simp, ?_⟩
      intro v
      simp only [List.foldl_nil, Array.getD_eq_getD_getElem?, Array.getElem?_replicate]
      split_ifs <;> simp_all
  | append_singleton order x ih =>
      obtain ⟨hnodup, -, hx⟩ := List.nodup_append.mp hnodup
      have hx : x ∉ order := fun hmem => hx x hmem x List.mem_cons_self rfl
      have hreads : ∀ v, n.Reads x v → v ∈ order := hfirst order x [] rfl
      have hfirst : n.FanInsFirst order := by
        intro before g after heq v hread
        refine hfirst before g (after ++ [x]) ?_ v hread
        rw [heq, List.append_assoc, List.cons_append]
      obtain ⟨hsize, hget⟩ :=
        ih hnodup (fun v hv => hlive v (List.mem_append_left _ hv)) hfirst
      have hxlive := hlive x (List.mem_append_right _ List.mem_cons_self)
      rw [List.foldl_append, List.foldl_cons, List.foldl_nil]
      generalize List.foldl _ (Array.replicate n.size 0) order = levels at hsize hget ⊢
      cases hfan : n.fanIns? x with
      | none =>
          have hlevel : n.level x = 0 := by
            refine level_of_not_gate ?_
            intro hgate
            obtain ⟨a, b, hg⟩ := isLiveGate_iff.mp hgate
            rw [hg.fanIns?] at hfan
            cases hfan
          refine ⟨hsize, ?_⟩
          intro v
          rw [hget v]
          by_cases hv : v = x
          · simp [hv, hx, hlevel]
          · simp [hv]
      | some p =>
          obtain ⟨a, b⟩ := p
          have hg : n.Gate x a b := gate_of_fanIns? hfan hxlive
          have ha := hget a.node
          have hb := hget b.node
          rw [if_pos (hreads _ hg.reads_left)] at ha
          rw [if_pos (hreads _ hg.reads_right)] at hb
          refine ⟨by simpa using hsize, ?_⟩
          intro v
          simp only [ha, hb, ← level_gate h hg]
          by_cases hv : x = v
          · subst hv
            simp [Array.getD_eq_getD_getElem?, hsize, hg.lt_size]
          · have hgetv := hget v
            simp only [Array.getD_eq_getD_getElem?] at hgetv ⊢
            rw [Array.getElem?_setIfInBounds_ne hv, hgetv]
            simp [Ne.symm hv]

/-- **The computed levels** are the levels. -/
theorem levelsAlong_getD {order : Array Nat} (horder : n.order = .ok order) :
    (n.levelsAlong order).size = n.size ∧
      ∀ v, (n.levelsAlong order).getD v 0 = n.level v := by
  obtain ⟨his, hall, hacyclic⟩ := order_eq_ok horder
  obtain ⟨hsize, hget⟩ := levelsAlong_spec hacyclic his.nodup his.isLive his.fanInsFirst
  rw [Array.toArray_toList] at hsize hget
  refine ⟨hsize, ?_⟩
  intro v
  rw [hget v]
  split_ifs with hv
  · rfl
  · refine (level_of_not_gate fun hgate => hv (hall v ?_)).symm
    obtain ⟨a, b, hg⟩ := isLiveGate_iff.mp hgate
    exact hg.isLive

end Network

namespace DepthView

open Network

variable {n m : Network} {view : DepthView} {v level : Nat}

/-- **A view that describes a network**: taken at its generation, with its levels and depth. -/
structure Describes (view : DepthView) (n : Network) : Prop where
  generation : view.generation = n.generation
  levels : ∀ v, view.levels[v]? = if v < n.size then some (n.level v) else none
  critical : view.critical.size = n.size
  depth : view.depth = n.depth

/-- **A view that was just taken describes the network**, which is acyclic. -/
theorem describes_ofNetwork (h : ofNetwork n = .ok view) : view.Describes n ∧ n.Acyclic := by
  obtain ⟨order, horder, hview⟩ := bind_eq_except_ok.mp h
  obtain rfl := pure_eq_except_ok.mp hview
  obtain ⟨hsize, hget⟩ := levelsAlong_getD horder
  refine ⟨⟨rfl, ?_, n.size_marks _, ?_⟩, (order_eq_ok horder).2.2⟩
  · intro v
    rw [← hget v, Array.getD_eq_getD_getElem?, ← hsize]
    split_ifs with hv
    · rw [Array.getElem?_eq_getElem hv, Option.getD_some]
    · exact Array.getElem?_eq_none (Nat.le_of_not_lt hv)
  · rw [outputDepth, Network.depth]
    simp only [hget]

/-- **A view is read off the graph** and the generation. -/
theorem ofNetwork_congr (hsame : SameGraph n m) (hgeneration : m.generation = n.generation) :
    ofNetwork m = ofNetwork n := by
  simp only [ofNetwork, levelsAlong, outputDepth, heightsAlong, marks, hsame.order_eq,
    hsame.fanIns?, hsame.size, hsame.outputs, hgeneration]

/-- A view describes a network as long as neither its generation nor its graph changes. -/
lemma Describes.congr (h : view.Describes n) (hsame : SameGraph n m)
    (hgeneration : m.generation = n.generation) : view.Describes m := by
  have hlevel : m.level = n.level := hsame.toSameGates.interpret
  refine ⟨h.generation.trans hgeneration.symm, ?_, h.critical.trans hsame.size.symm, ?_⟩
  · intro v
    rw [h.levels, hsame.size, hlevel]
  · rw [h.depth, Network.depth, Network.depth, hsame.outputs, hlevel]

/-- A view that describes a network answers with its levels. -/
lemma Describes.levelOf_eq_ok (h : view.Describes n) :
    view.levelOf n v = .ok level ↔ v < n.size ∧ n.level v = level := by
  have hfresh : view.requireFresh n .level = .ok () := by
    simp [requireFresh, isStale, h.generation]
  have hlevel := h.levels v
  simp only [levelOf, bind_eq_except_ok, hfresh]
  split_ifs at hlevel with hv
  · simp [hlevel, hv, pure_eq_except_ok]
  · simp [hlevel, hv]

/-- A view that describes a network knows of each node whether it is critical. -/
lemma Describes.exists_criticalAt (h : view.Describes n) (hv : v < n.size) :
    ∃ critical, view.criticalAt n v = .ok critical := by
  have hfresh : view.requireFresh n .critical = .ok () := by
    simp [requireFresh, isStale, h.generation]
  have hlt : v < view.critical.size := h.critical.symm ▸ hv
  refine ⟨view.critical[v], ?_⟩
  simp only [criticalAt, hfresh, Array.getElem?_eq_getElem hlt]
  rfl

lemma Describes.currentDepth_eq_ok (h : view.Describes n) :
    view.currentDepth n = .ok level ↔ n.depth = level := by
  have hfresh : view.requireFresh n .depth = .ok () := by
    simp [requireFresh, isStale, h.generation]
  rw [currentDepth, hfresh, ← h.depth]
  exact pure_eq_except_ok

end DepthView

end AndInverter
