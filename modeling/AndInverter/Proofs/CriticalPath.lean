import Mathlib.Order.Bounds.Basic
import AndInverter.Proofs.Level
import AndInverter.Proofs.Network.Assembly

/-!
Longest ways.  A view computes its levels upwards and its heights downwards along one order of
the live nodes; here both are lengths of ways in the graph.

* `Network.Way`: a way down from a node, by a number of reads;
* `Way.level_le`, `exists_way`: the level of a node is the length of a longest way down;
* `Network.Descends` is a way down from an output through listed gates, and `Heights.Measures`
  is the invariant of the heights: they are the longest of these;
* `criticalAt_iff`: a node is critical if a way from an output to it is as long as the depth
  leaves room for;
* `exists_view_of_longest_ways`: levels, depth and critical nodes of a view, all as ways.
-/

namespace AndInverter

namespace Network

variable {n : Network} {g i j k u v x d : Nat} {a b s : Signal} {pins : Multiset Nat}
  {listed before : List Nat}

/-! ### Ways down -/

/-- **A way down** from a gate, by a number of reads. -/
inductive Way (n : Network) (g : Nat) : Nat → Nat → Prop
  | refl : Way n g 0 g
  | tail {k u v : Nat} (hway : Way n g k u) (hread : n.Reads u v) : Way n g (k + 1) v

lemma Way.head (hread : n.Reads g u) (h : n.Way u k v) : n.Way g (k + 1) v := by
  induction h with
  | refl => exact .tail .refl hread
  | tail _ hlast ih => exact ih.tail hlast

lemma Way.dependsOn (h : n.Way g k v) : n.DependsOn g v := by
  induction h with
  | refl => exact .refl
  | tail _ hlast ih => exact ih.tail hlast

/-- Each step of a way leads at least one level down. -/
lemma Way.level_le (h : n.Way g k v) (hn : n.Acyclic) : n.level v + k ≤ n.level g := by
  induction h with
  | refl => exact le_rfl
  | tail _ hlast ih =>
      have := hlast.level_lt hn
      omega

/-- **A longest way**: some way down from a node takes a step on each level. -/
lemma exists_way (hn : n.Acyclic) (v : Nat) :
    ∃ u, n.Way v (n.level v) u ∧ ¬ n.isLiveGate u = true := by
  refine hn.induction (P := fun v => ∃ u, n.Way v (n.level v) u ∧ ¬ n.isLiveGate u = true) ?_ v
  intro v ih
  by_cases hv : n.isLiveGate v = true
  · obtain ⟨a, b, hg⟩ := isLiveGate_iff.mp hv
    obtain ⟨c, hread, hc⟩ : ∃ c, n.Reads v c ∧ n.level v = n.level c + 1 := by
      have hlevel := level_gate hn hg
      rcases le_total (n.level a.node) (n.level b.node) with hle | hle
      · exact ⟨b.node, hg.reads_right, by omega⟩
      · exact ⟨a.node, hg.reads_left, by omega⟩
    obtain ⟨u, hway, hu⟩ := ih c hread
    exact ⟨u, hc ▸ .head hread hway, hu⟩
  · exact ⟨v, level_of_not_gate hv ▸ .refl, hv⟩

/-- A live node that is no gate is the constant or an input. -/
lemma Consistent.constant_or_input (hn : n.Consistent pins) (hl : n.isLive v = true)
    (hv : ¬ n.isLiveGate v = true) : v = 0 ∨ n.isInput v = true := by
  obtain ⟨kind, hk⟩ := isLive_iff.mp hl
  cases kind with
  | constant => exact .inl ((hn.constant_iff v).mp (by rw [kind?, hk]; rfl))
  | input i =>
      obtain ⟨slot, hs, hslot⟩ := Option.map_eq_some_iff.mp hk
      rw [Prod.mk.injEq] at hslot
      exact .inr (by simp [isInput, hs, Slot.isInput, hslot.1])
  | gate a b => exact absurd (isLiveGate_iff.mpr ⟨a, b, gate_iff.mpr hk⟩) hv

/-- The constant, the inputs and dead nodes are at the bottom. -/
lemma Consistent.level_of_source (hn : n.Consistent pins)
    (hv : v = 0 ∨ n.isInput v = true ∨ n.isDead v = true) : n.level v = 0 := by
  refine level_of_not_gate fun hgate => ?_
  obtain ⟨a, b, hg⟩ := isLiveGate_iff.mp hgate
  rcases hv with rfl | hinput | hdead
  · exact hn.ne_zero_of_gate hg rfl
  · obtain ⟨slot, hs, hslot⟩ := Option.map_eq_some_iff.mp (gate_iff.mp hg)
    rw [Prod.mk.injEq] at hslot
    simp [isInput, hs, Slot.isInput, hslot.1] at hinput
  · exact not_isLive_of_isDead hdead hg.isLive

/-! ### Ways from the outputs -/

/-- **A way down from an output** that passes listed gates only, by a number of reads. -/
inductive Descends (n : Network) (listed : List Nat) : Nat → Nat → Prop
  | output {s : Signal} (hs : s ∈ n.outputs) : Descends n listed 0 s.node
  | read {k g v : Nat} (hway : Descends n listed k g) (hlisted : g ∈ listed)
      (hread : n.Reads g v) : Descends n listed (k + 1) v

lemma Descends.mono (h : n.Descends listed k v) : n.Descends (x :: listed) k v := by
  induction h with
  | output hs => exact .output hs
  | read _ hlisted hread ih => exact ih.read (List.mem_cons_of_mem x hlisted) hread

/-- One more gate, whose fan-ins are not listed, can only be the last one on a way. -/
lemma descends_cons_iff (hx : ∀ u, n.Reads x u → u ∉ x :: listed) :
    n.Descends (x :: listed) k v ↔
      n.Descends listed k v ∨ ∃ j, k = j + 1 ∧ n.Descends listed j x ∧ n.Reads x v := by
  constructor
  · intro h
    induction h with
    | output hs => exact .inl (.output hs)
    | @read k g v _ hlisted hread ih =>
        rcases ih with hway | ⟨j, -, -, hxg⟩
        · rcases List.mem_cons.mp hlisted with rfl | hlisted
          · exact .inr ⟨k, rfl, hway, hread⟩
          · exact .inl (hway.read hlisted hread)
        · exact absurd hlisted (hx g hxg)
  · rintro (h | ⟨j, rfl, h, hread⟩)
    · exact h.mono
    · exact h.mono.read List.mem_cons_self hread

/-- Without a bound on the gates these are the ways from the outputs. -/
lemma descends_iff (hall : ∀ v, n.isLive v = true → v ∈ listed) :
    n.Descends listed k v ↔ ∃ s ∈ n.outputs, n.Way s.node k v := by
  constructor
  · intro h
    induction h with
    | output hs => exact ⟨_, hs, .refl⟩
    | read _ _ hread ih =>
        obtain ⟨s, hs, hway⟩ := ih
        exact ⟨s, hs, hway.tail hread⟩
  · rintro ⟨s, hs, hway⟩
    induction hway with
    | refl => exact .output hs
    | tail _ hread ih => exact ih.read (hall _ hread.isLive) hread

/-- In an order, the fan-ins of a node are not listed from the node on. -/
lemma IsOrder.not_mem_of_reads (h : n.IsOrder (before ++ x :: listed)) (hread : n.Reads x u) :
    u ∉ x :: listed := by
  intro hu
  exact (List.nodup_append.mp h.nodup).2.2 u (h.fanInsFirst before x listed rfl u hread) u hu rfl

end Network

open Network

variable {n : Network} {g k u v x d : Nat} {a b s : Signal} {listed : List Nat}

/-! ### Computed heights -/

/-- A least upper bound of some numbers is one of them, if there are any. -/
lemma mem_of_le_iff {p : Nat → Prop} {m k : Nat} (h : ∀ d, m ≤ d ↔ ∀ j, p j → j ≤ d)
    (hk : p k) : p m := by
  cases m with
  | zero =>
      obtain rfl : k = 0 := Nat.eq_zero_of_le_zero ((h 0).mp le_rfl k hk)
      exact hk
  | succ m =>
      by_contra hno
      refine Nat.not_succ_le_self m ((h m).mpr fun j hj => ?_)
      have hne : j ≠ m + 1 := by
        rintro rfl
        exact hno hj
      have hle := (h (m + 1)).mp le_rfl j hj
      omega

/-- **What heights measure**, given the gates that were passed: the nodes that ways from the
outputs reach, and the length of a longest one. -/
structure Heights.Measures (hs : Heights) (n : Network) (listed : List Nat) : Prop where
  size_height : hs.height.size = n.size
  size_reaches : hs.reaches.size = n.size
  reaches : ∀ v, v < n.size → (hs.reaches.getD v false = true ↔ ∃ k, n.Descends listed k v)
  height_le_iff : ∀ v d, v < n.size →
    (hs.height.getD v 0 ≤ d ↔ ∀ k, n.Descends listed k v → k ≤ d)

namespace Heights

variable {hs : Heights} {h : Nat}

lemma reaches_raise (hv : v < hs.reaches.size) :
    (hs.raise h s).reaches.getD v false = true ↔ v = s.node ∨ hs.reaches.getD v false = true := by
  rw [raise, getD_setIfInBounds]
  split_ifs with hsv
  · simp [hsv.1]
  · have hne : v ≠ s.node := by
      rintro rfl
      exact hsv ⟨rfl, hv⟩
    simp [hne]

lemma height_raise_le_iff (hv : v < hs.height.size) :
    (hs.raise h s).height.getD v 0 ≤ d ↔
      hs.height.getD v 0 ≤ d ∧ (v = s.node → h + 1 ≤ d) := by
  simp only [raise, Array.getD_eq_getD_getElem?, Array.getElem?_modify,
    Array.getElem?_eq_getElem hv, eq_comm (a := v)]
  split_ifs with hsv
  · simp [hsv]
  · simp [hsv]

lemma size_raise : (hs.raise h s).height.size = hs.height.size ∧
    (hs.raise h s).reaches.size = hs.reaches.size := by
  simp [raise]

/-- Before any gate is passed, the outputs themselves are reached. -/
lemma measures_start (n : Network) :
    Measures ⟨Array.replicate n.size 0, n.marks (n.outputs.map (·.node))⟩ n [] where
  size_height := Array.size_replicate
  size_reaches := n.size_marks _
  reaches v hv := by
    simp only [n.marks_getD, hv, and_true, Array.mem_map]
    constructor
    · rintro ⟨s, hs, rfl⟩
      exact ⟨0, .output hs⟩
    · rintro ⟨k, hk⟩
      cases hk with
      | output hs => exact ⟨_, hs, rfl⟩
      | read _ hlisted => exact absurd hlisted List.not_mem_nil
  height_le_iff v d hv := by
    simp only [Array.getD_eq_getD_getElem?, Array.getElem?_replicate, hv, if_true,
      Option.getD_some, Nat.zero_le, true_iff]
    intro k hk
    cases hk with
    | output => exact Nat.zero_le d
    | read _ hlisted => exact absurd hlisted List.not_mem_nil

/-- A node that no way reaches, or that reads nothing, adds no way. -/
lemma Measures.skip (hs' : hs.Measures n listed) (hx : ∀ u, n.Reads x u → u ∉ x :: listed)
    (hno : ∀ j v, n.Descends listed j x → ¬ n.Reads x v) : hs.Measures n (x :: listed) := by
  have hsame : ∀ k v, n.Descends (x :: listed) k v ↔ n.Descends listed k v := by
    intro k v
    rw [descends_cons_iff hx]
    refine or_iff_left ?_
    rintro ⟨j, -, hway, hread⟩
    exact hno j v hway hread
  refine ⟨hs'.size_height, hs'.size_reaches, ?_, ?_⟩
  · simpa only [hsame] using hs'.reaches
  · simpa only [hsame] using hs'.height_le_iff

/-- **A gate is passed** that some way reaches: its fan-ins are a step further. -/
lemma Measures.pass (hs' : hs.Measures n listed) (hx : ∀ u, n.Reads x u → u ∉ x :: listed)
    (hg : n.Gate x a b) (hreach : ∃ j, n.Descends listed j x) :
    ((hs.raise (hs.height.getD x 0) a).raise (hs.height.getD x 0) b).Measures n (x :: listed) := by
  have hreads : ∀ v, n.Reads x v ↔ v = a.node ∨ v = b.node := by
    intro v
    constructor
    · rintro ⟨c, d, hcd, hv⟩
      obtain ⟨rfl, rfl⟩ := hcd.unique hg
      exact hv.imp Eq.symm Eq.symm
    · rintro (rfl | rfl)
      · exact hg.reads_left
      · exact hg.reads_right
  obtain ⟨j₀, hj₀⟩ := hreach
  have hstep : ∀ d, hs.height.getD x 0 + 1 ≤ d ↔ ∀ j, n.Descends listed j x → j + 1 ≤ d := by
    intro d
    cases d with
    | zero =>
        refine iff_of_false (Nat.not_succ_le_zero _) fun hall => ?_
        exact Nat.not_succ_le_zero _ (hall j₀ hj₀)
    | succ d => simpa only [Nat.succ_le_succ_iff] using hs'.height_le_iff x d hg.lt_size
  constructor
  case size_height => rw [size_raise.1, size_raise.1, hs'.size_height]
  case size_reaches => rw [size_raise.2, size_raise.2, hs'.size_reaches]
  case reaches =>
    intro v hv
    have hv' : v < hs.reaches.size := hs'.size_reaches ▸ hv
    rw [reaches_raise (hv'.trans_eq size_raise.2.symm), reaches_raise hv', hs'.reaches v hv]
    constructor
    · rintro (rfl | rfl | ⟨k, hk⟩)
      · exact ⟨j₀ + 1, hj₀.mono.read List.mem_cons_self hg.reads_right⟩
      · exact ⟨j₀ + 1, hj₀.mono.read List.mem_cons_self hg.reads_left⟩
      · exact ⟨k, hk.mono⟩
    · rintro ⟨k, hk⟩
      rcases (descends_cons_iff hx).mp hk with hk | ⟨j, -, -, hread⟩
      · exact .inr (.inr ⟨k, hk⟩)
      · rcases (hreads v).mp hread with hva | hvb
        · exact .inr (.inl hva)
        · exact .inl hvb
  case height_le_iff =>
    intro v d hv
    have hv' : v < hs.height.size := hs'.size_height ▸ hv
    rw [height_raise_le_iff (hv'.trans_eq size_raise.1.symm), height_raise_le_iff hv',
      hs'.height_le_iff v d hv]
    constructor
    · rintro ⟨⟨hold, ha⟩, hb⟩ k hk
      rcases (descends_cons_iff hx).mp hk with hk | ⟨j, rfl, hj, hread⟩
      · exact hold k hk
      · rcases (hreads v).mp hread with hva | hvb
        · exact (hstep d).mp (ha hva) j hj
        · exact (hstep d).mp (hb hvb) j hj
    · intro hall
      have hnew : n.Reads x v → hs.height.getD x 0 + 1 ≤ d := fun hread =>
        (hstep d).mpr fun j hj => hall _ (hj.mono.read List.mem_cons_self hread)
      exact ⟨⟨fun k hk => hall k hk.mono, fun hva => hnew ((hreads v).mpr (.inl hva))⟩,
        fun hvb => hnew ((hreads v).mpr (.inr hvb))⟩

end Heights

/-- **The computed heights** are the lengths of the longest ways from the outputs.  The order is
gone through from its end, so that a gate is passed after everything that reads from it. -/
theorem Network.heightsAlong_measures {order : Array Nat} (horder : n.order = .ok order) :
    (n.heightsAlong order).Measures n order.toList := by
  obtain ⟨his, -, -⟩ := order_eq_ok horder
  rw [heightsAlong, ← Array.foldr_toList]
  -- the induction is on what is listed so far, an end of the whole order
  obtain ⟨all, hall⟩ : ∃ all, all = order.toList := ⟨_, rfl⟩
  rw [← hall] at his
  have hsuffix : order.toList <:+ all := hall ▸ List.suffix_rfl
  clear hall
  generalize order.toList = listed at hsuffix ⊢
  induction listed with
  | nil => exact Heights.measures_start n
  | cons x listed ih =>
      have hmeasures := ih ((List.suffix_cons x listed).trans hsuffix)
      obtain ⟨before, rfl⟩ := hsuffix
      have hx : ∀ u, n.Reads x u → u ∉ x :: listed := fun u hread => his.not_mem_of_reads hread
      have hlive : n.isLive x = true := his.isLive x (by simp)
      rw [List.foldr_cons]
      split_ifs with hreach
      · have hreach := (hmeasures.reaches x (lt_size_of_isLive hlive)).mp hreach
        split
        · next a b hfan => exact hmeasures.pass hx (gate_of_fanIns? hfan hlive) hreach
        · next hfan =>
            refine hmeasures.skip hx ?_
            rintro - v - ⟨a, b, hg, -⟩
            rw [hg.fanIns?] at hfan
            cases hfan
      · refine hmeasures.skip hx fun j v hj _ => hreach ?_
        exact (hmeasures.reaches x (lt_size_of_isLive hlive)).mpr ⟨j, hj⟩

/-- A longest way from the outputs has the length of the height. -/
lemma Heights.Measures.descends_height {hs : Heights} (h : hs.Measures n listed)
    (hv : v < n.size) (hk : n.Descends listed k v) : n.Descends listed (hs.height.getD v 0) v :=
  mem_of_le_iff (p := fun j => n.Descends listed j v) (fun d => h.height_le_iff v d hv) hk

/-! ### Critical nodes -/

/-- **A critical node**: some way from an output down to it leaves as many levels as the node
has. -/
def Network.Critical (n : Network) (v : Nat) : Prop :=
  ∃ s ∈ n.outputs, ∃ k, n.Way s.node k v ∧ n.level v + k = n.depth

/-- No way from an output is longer than the depth leaves room for. -/
lemma Network.Way.level_le_depth (hway : n.Way s.node k v) (hs : s ∈ n.outputs)
    (hn : n.Acyclic) : n.level v + k ≤ n.depth :=
  (hway.level_le hn).trans (Network.level_le_depth hs)

/-- **The level is the length of a longest way down**, to the constant or to an input. -/
lemma Network.isGreatest_level (hn : n.WellFormed) (hacyclic : n.Acyclic) (hv : n.isLive v = true) :
    IsGreatest {k | ∃ u, n.Way v k u ∧ (u = 0 ∨ n.isInput u = true)} (n.level v) := by
  constructor
  · obtain ⟨u, hway, hu⟩ := exists_way hacyclic v
    exact ⟨u, hway, hn.constant_or_input (hn.isLive_of_dependsOn hv hway.dependsOn) hu⟩
  · rintro k ⟨u, hway, -⟩
    exact (Nat.le_add_left k _).trans (hway.level_le hacyclic)

/-- The depth is the largest level behind an output. -/
lemma Network.isGreatest_depth (houtputs : n.outputs ≠ #[]) :
    IsGreatest {level | ∃ s ∈ n.outputs, n.level s.node = level} n.depth := by
  obtain ⟨t, ht⟩ := Array.exists_mem_of_ne_empty n.outputs houtputs
  have hle : ∀ d, n.depth ≤ d ↔
      ∀ level, (∃ s ∈ n.outputs, n.level s.node = level) → level ≤ d := by
    intro d
    rw [depth_le_iff]
    constructor
    · rintro hall level ⟨s, hs, rfl⟩
      exact hall s hs
    · exact fun hall s hs => hall _ ⟨s, hs, rfl⟩
  exact ⟨mem_of_le_iff hle ⟨t, ht, rfl⟩, fun level hlevel => (hle n.depth).mp le_rfl level hlevel⟩

/-- A node is critical if a way from an output to the bottom that is as long as the depth passes
through it. -/
lemma Network.critical_iff (hacyclic : n.Acyclic) : n.Critical v ↔ ∃ s ∈ n.outputs, ∃ i j u,
    n.Way s.node i v ∧ n.Way v j u ∧ n.level u = 0 ∧ i + j = n.depth := by
  constructor
  · rintro ⟨s, hs, i, hway, hsum⟩
    obtain ⟨u, hdown, hu⟩ := exists_way hacyclic v
    exact ⟨s, hs, i, _, u, hway, hdown, level_of_not_gate hu, by omega⟩
  · rintro ⟨s, hs, i, j, u, hway, hdown, hu, hsum⟩
    have hdown' := hdown.level_le hacyclic
    have hroom := hway.level_le_depth hs hacyclic
    exact ⟨s, hs, i, hway, by omega⟩

/-- A critical node hands its way on to a fan-in that is a single level below it. -/
lemma Network.Critical.of_reads (h : n.Critical g) (hread : n.Reads g v)
    (hlevel : n.level v + 1 = n.level g) : n.Critical v := by
  obtain ⟨s, hs, k, hway, hsum⟩ := h
  exact ⟨s, hs, k + 1, hway.tail hread, by omega⟩

namespace DepthView

variable {view : DepthView}

/-- A view that describes a network answers with its marks. -/
lemma Describes.criticalAt_eq_ok {critical : Bool} (h : view.Describes n) :
    view.criticalAt n v = .ok critical ↔ view.critical[v]? = some critical := by
  have hfresh : view.requireFresh n .critical = .ok () := by
    simp [requireFresh, isStale, h.generation]
  simp only [criticalAt, bind_eq_except_ok, hfresh]
  cases view.critical[v]? <;> simp [pure_eq_except_ok]

/-- A node is marked if it is one of those to be marked. -/
lemma getElem?_marks {nodes : Array Nat} :
    (n.marks nodes)[v]? = some true ↔ v < n.size ∧ v ∈ nodes := by
  rw [and_comm, ← n.marks_getD nodes v, Array.getD_eq_getD_getElem?]
  cases (n.marks nodes)[v]? <;> simp

/-- **A view finds the critical nodes.** -/
theorem criticalAt_iff (hn : n.WellFormed) (h : ofNetwork n = .ok view) :
    view.criticalAt n v = .ok true ↔ v < n.size ∧ n.Critical v := by
  obtain ⟨hdescribes, hacyclic⟩ := describes_ofNetwork h
  obtain ⟨order, horder, hview⟩ := bind_eq_except_ok.mp h
  obtain rfl := pure_eq_except_ok.mp hview
  obtain ⟨-, hall, -⟩ := order_eq_ok horder
  have hdepth : n.outputDepth (n.levelsAlong order) = n.depth := hdescribes.depth
  have hlevel := (levelsAlong_getD horder).2 v
  have hmeasures := heightsAlong_measures horder
  rw [hdescribes.criticalAt_eq_ok, getElem?_marks]
  refine and_congr_right fun hv => ?_
  simp only [Array.mem_filter, isCritical, Bool.and_eq_true, beq_iff_eq, hdepth, hlevel,
    hmeasures.reaches v hv]
  constructor
  · rintro ⟨-, ⟨k, hk⟩, hsum⟩
    obtain ⟨s, hs, hway⟩ := (descends_iff hall).mp (hmeasures.descends_height hv hk)
    exact ⟨s, hs, _, hway, hsum⟩
  · rintro ⟨s, hs, k, hway, hsum⟩
    have hk := (descends_iff hall).mpr ⟨s, hs, hway⟩
    obtain ⟨t, ht, hlongest⟩ := (descends_iff hall).mp (hmeasures.descends_height hv hk)
    -- the height is no shorter than this way, and the depth leaves no room for a longer one
    have hle : k ≤ (n.heightsAlong order).height.getD v 0 :=
      (hmeasures.height_le_iff v _ hv).mp le_rfl k hk
    have hroom := hlongest.level_le_depth ht hacyclic
    have hlive := hall v (hn.isLive_of_dependsOn (hn.outputs_live s hs) hway.dependsOn)
    exact ⟨Array.mem_toList_iff.mp hlive, ⟨k, hk⟩, by omega⟩

/-- A view of an acyclic network is to be had. -/
lemma exists_ofNetwork (hn : n.WellFormed) (hacyclic : n.Acyclic) :
    ∃ view, ofNetwork n = .ok view := by
  cases horder : n.order with
  | ok order => exact ⟨_, by rw [ofNetwork, horder]; rfl⟩
  | error fault => exact absurd hacyclic (order_eq_error horder hn.fanIns_live).1

/-- **A view measures longest ways.**  A well-formed and acyclic network has a view, and it tells
for each live node the length of a longest way down to the constant or an input, and 0 for the
constant, the inputs and dead nodes; the largest level behind an output, and 0 without outputs;
and which nodes lie on a way as long as that, from an output down to a node of level 0. -/
theorem exists_view_of_longest_ways (hn : n.WellFormed) (hacyclic : n.Acyclic) :
    ∃ view depth, ofNetwork n = .ok view ∧ view.currentDepth n = .ok depth ∧
      (∀ v, n.isLive v = true → ∃ level, view.levelOf n v = .ok level ∧
        IsGreatest {k | ∃ u, n.Way v k u ∧ (u = 0 ∨ n.isInput u = true)} level) ∧
      (∀ v, v < n.size → (v = 0 ∨ n.isInput v = true ∨ n.isDead v = true) →
        view.levelOf n v = .ok 0) ∧
      (n.outputs = #[] → depth = 0) ∧
      (n.outputs ≠ #[] →
        IsGreatest {level | ∃ s ∈ n.outputs, view.levelOf n s.node = .ok level} depth) ∧
      ∀ v, v < n.size → ∃ critical, view.criticalAt n v = .ok critical ∧
        (critical = true ↔ ∃ s ∈ n.outputs, ∃ i j u, n.Way s.node i v ∧ n.Way v j u ∧
          view.levelOf n u = .ok 0 ∧ i + j = depth) := by
  obtain ⟨view, hview⟩ := exists_ofNetwork hn hacyclic
  obtain ⟨hdescribes, -⟩ := describes_ofNetwork hview
  refine ⟨view, n.depth, hview, hdescribes.currentDepth_eq_ok.mpr rfl, ?_, ?_, ?_, ?_, ?_⟩
  · intro v hv
    exact ⟨n.level v, hdescribes.levelOf_eq_ok.mpr ⟨lt_size_of_isLive hv, rfl⟩,
      isGreatest_level hn hacyclic hv⟩
  · intro v hv hsource
    exact hdescribes.levelOf_eq_ok.mpr ⟨hv, hn.level_of_source hsource⟩
  · intro hnone
    refine Nat.eq_zero_of_le_zero (depth_le_iff.mpr ?_)
    simp [hnone]
  · intro houtputs
    have hlevels : ∀ s ∈ n.outputs, ∀ level, view.levelOf n s.node = .ok level ↔
        n.level s.node = level := by
      intro s hs level
      rw [hdescribes.levelOf_eq_ok, and_iff_right (lt_size_of_isLive (hn.outputs_live s hs))]
    have heq : {level | ∃ s ∈ n.outputs, view.levelOf n s.node = .ok level}
        = {level | ∃ s ∈ n.outputs, n.level s.node = level} := by
      ext level
      exact exists_congr fun s => and_congr_right fun hs => hlevels s hs level
    rw [heq]
    exact isGreatest_depth houtputs
  · intro v hv
    obtain ⟨critical, hcritical⟩ := hdescribes.exists_criticalAt hv
    refine ⟨critical, hcritical, ?_⟩
    have hanswer : critical = true ↔ view.criticalAt n v = .ok true := by
      rw [hcritical, Except.ok.injEq]
    rw [hanswer, criticalAt_iff hn hview, and_iff_right hv, critical_iff hacyclic]
    -- the bottom of a way from an output is a node of the network, so the view knows its level
    refine exists_congr fun s => and_congr_right fun hs => exists₃_congr fun i j u =>
      and_congr_right fun hway => and_congr_right fun hdown => and_congr_left' ?_
    have hu : n.isLive u = true := hn.isLive_of_dependsOn (hn.outputs_live s hs)
      (hway.dependsOn.trans hdown.dependsOn)
    rw [hdescribes.levelOf_eq_ok, and_iff_right (lt_size_of_isLive hu)]

/-- A network of depth 2 with a gate of level 3 that no output depends on: the way down from that
gate is the longest one, but it is not critical. -/
theorem exists_view_of_longest_ways_of_unused : ∃ n view, ofNetwork n = .ok view ∧
    n.isLive 7 = true ∧
      IsGreatest {k | ∃ u, n.Way 7 k u ∧ (u = 0 ∨ n.isInput u = true)} 3 ∧
        (∃ s ∈ n.outputs, ∃ i j u, n.Way s.node i 4 ∧ n.Way 4 j u ∧ view.levelOf n u = .ok 0 ∧
          i + j = 2) ∧
        ¬ ∃ s ∈ n.outputs, ∃ i j u, n.Way s.node i 7 ∧ n.Way 7 j u ∧ view.levelOf n u = .ok 0 ∧
          i + j = 2 := by
  let n := Network.empty.assemble [.input, .input, .input, .gate 2 4, .gate 8 6, .gate 2 6,
    .gate 10 12, .output 10, .output 12]
  obtain ⟨hn, hacyclic⟩ : n.Sound := Network.Sound.assemble wellFormed_empty _
  obtain ⟨view, depth, hview, hdepth, hlevel, -, -, -, hcritical⟩ :=
    exists_view_of_longest_ways hn hacyclic
  have hlive : n.isLive 7 = true := by decide +kernel
  obtain ⟨level, hlevel7, hgreatest⟩ := hlevel 7 hlive
  obtain ⟨critical4, h4, hiff4⟩ := hcritical 4 (by decide +kernel)
  obtain ⟨critical7, h7, hiff7⟩ := hcritical 7 (by decide +kernel)
  have hanswers : (match ofNetwork n with
    | .ok view => (match view.currentDepth n, view.levelOf n 7, view.criticalAt n 4,
        view.criticalAt n 7 with
      | .ok depth, .ok level, .ok critical4, .ok critical7 =>
        depth == 2 && level == 3 && critical4 && !critical7
      | _, _, _, _ => false)
    | .error _ => false) = true := by decide +kernel
  simp only [hview, hdepth, hlevel7, h4, h7, Bool.and_eq_true, beq_iff_eq, Bool.not_eq_true']
    at hanswers
  obtain ⟨⟨⟨rfl, rfl⟩, rfl⟩, rfl⟩ := hanswers
  exact ⟨n, view, hview, hlive, hgreatest, hiff4.mp rfl, fun hway =>
    Bool.false_ne_true (hiff7.mpr hway)⟩

end DepthView

end AndInverter
