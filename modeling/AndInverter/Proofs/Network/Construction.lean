import AndInverter.Network.Construct
import AndInverter.Proofs.Network.Rewiring

/-!
Building a network keeps it consistent and acyclic.

* `Network.Appends`: a node is appended, and `Consistent.appended`: with which counters;
* `Network.Extends` is what conjunctions do to a network: new gates above what there is;
* `addAnd_spec`: the conjunction of two signals is what its canonical form says;
* `Network.usesForAnd`: the uses that it adds, and `addAnd_fanout`: the counters count them;
* `exists_addAnd_of_room` and `addAnd_eq_error`: it is made unless a counter is full.
-/

namespace AndInverter

namespace Network

variable {n m l : Network} {g u v : Nat} {a b s : Signal} {key : AndKey} {kind : NodeKind}
  {pins : Multiset Nat}

lemma shape_eq_none (h : n.size ≤ v) : n.shape v = none := by
  rw [shape, (n.slot?_eq_none_iff v).mpr h]
  rfl

lemma fanout_eq_zero (h : n.size ≤ v) : n.fanout v = 0 := by
  rw [fanout, (n.slot?_eq_none_iff v).mpr h]
  rfl

/-! ### Appending a node -/

/-- A new node has no uses. -/
lemma fanout_pushNode (n : Network) (kind : NodeKind) (v : Nat) :
    (n.pushNode kind).fanout v = n.fanout v := by
  rw [fanout, slot?_pushNode, fanout]
  split_ifs with hv
  · rw [hv, (n.slot?_eq_none_iff _).mpr le_rfl]
    rfl
  · rfl

/-- A live node is appended. -/
structure Appends (n m : Network) (kind : NodeKind) : Prop where
  size : m.size = n.size + 1
  old : ∀ v, v ≠ n.size → m.shape v = n.shape v
  new : m.shape n.size = some (kind, false)
  outputs : m.outputs = n.outputs

lemma Appends.kind? (h : Appends n m kind) (hne : v ≠ n.size) : m.kind? v = n.kind? v := by
  rw [Network.kind?, Network.kind?, h.old v hne]

lemma Appends.operands? (h : Appends n m kind) (hne : v ≠ n.size) :
    m.operands? v = n.operands? v := by
  rw [Network.operands?, Network.operands?, h.old v hne]

lemma Appends.operands?_size (h : Appends n m kind) : m.operands? n.size = kind.fanIns? := by
  rw [Network.operands?, h.new]
  rfl

lemma Appends.gate (h : Appends n m kind) (hne : v ≠ n.size) :
    m.Gate v a b ↔ n.Gate v a b := by
  rw [Gate, Gate, h.operands? hne]

lemma Appends.isLive (h : Appends n m kind) (hv : n.isLive v = true) : m.isLive v = true := by
  have hne : v ≠ n.size := Nat.ne_of_lt (lt_size_of_isLive hv)
  obtain ⟨k, hk⟩ := isLive_iff.mp hv
  exact isLive_iff.mpr ⟨k, (h.old v hne).trans hk⟩

/-- Where no node is dead, none is after one more was appended. -/
lemma Appends.isLive_of_lt (h : Appends n m kind) (hall : ∀ v, v < n.size → n.isLive v = true)
    (hv : v < m.size) : m.isLive v = true := by
  obtain rfl | hne := eq_or_ne v n.size
  · exact isLive_iff.mpr ⟨kind, h.new⟩
  · exact h.isLive (hall v (by rw [h.size] at hv; omega))

/-- What is appended without fan-ins is no gate. -/
lemma Appends.gate_of_source (h : Appends n m kind) (hkind : kind.fanIns? = none) :
    m.Gate g a b ↔ n.Gate g a b := by
  obtain rfl | hne := eq_or_ne g n.size
  · refine ⟨fun hg => ?_, fun hg => absurd hg.lt_size (Nat.lt_irrefl _)⟩
    rw [Gate, h.operands?_size, hkind] at hg
    cases hg
  · exact h.gate hne

lemma Appends.uses (h : Appends n m kind) (v : Nat) :
    m.uses v = n.uses v + (kind.fanIns?.map (pairUses v)).getD 0 := by
  have hsum := gateSum_of_size_succ (pairUses v) h.size fun i hi => h.operands? hi
  rw [h.operands?_size] at hsum
  rw [Network.uses, Network.uses, outputUses, outputUses, h.outputs]
  omega

lemma Appends.length_gates (h : Appends n m kind) :
    m.gates.length = n.gates.length + (kind.fanIns?.map fun _ => 1).getD 0 := by
  rw [Network.length_gates, Network.length_gates, ← h.operands?_size]
  exact gateSum_of_size_succ _ h.size fun i hi => h.operands? hi

/-- A gate is appended, and no other gate reads anything new. -/
lemma Appends.reads {i : Nat} (h : Appends n m (.gate a b)) (hread : m.Reads i v) :
    n.Reads i v ∨ i = n.size ∧ (v = a.node ∨ v = b.node) := by
  obtain ⟨c, d, hg, hv⟩ := hread
  by_cases hi : i = n.size
  · subst hi
    obtain ⟨rfl, rfl⟩ := hg.unique (gate_iff.mpr h.new)
    exact .inr ⟨rfl, hv.imp Eq.symm Eq.symm⟩
  · exact .inl ⟨c, d, (h.gate hi).mp hg, hv⟩

/-- **A node is appended**, with the counters that belong to it. -/
lemma Consistent.appended (h : n.Consistent pins) (ha : Appends n m kind)
    (hconstant : kind ≠ .constant)
    (hinputs : ∀ i v, m.inputs[i]? = some v ↔ m.kind? v = some (.input i))
    (hfanIns : ∀ a b, kind.fanIns? = some (a, b) → (0 < a.node ∧ a.node < b.node) ∧
      n.isLive a.node = true ∧ n.isLive b.node = true)
    (hhash : ∀ (k : AndKey) (g : Nat), m.hash[k]? = some g ↔ m.Gate g k.lhs k.rhs)
    (hgates : m.liveGates = n.liveGates + (kind.fanIns?.map fun _ => 1).getD 0)
    (hfanout : ∀ v, m.fanout v = n.fanout v + (kind.fanIns?.map (pairUses v)).getD 0) :
    m.Consistent pins := by
  have hkind : m.kind? n.size = some kind := by rw [Network.kind?, ha.new, Option.map_some]
  have hnone : n.shape n.size = none := shape_eq_none le_rfl
  have hgate : ∀ {g a b}, m.Gate g a b → n.Gate g a b ∨ kind.fanIns? = some (a, b) := by
    intro g a b hg
    by_cases hgn : g = n.size
    · rw [Gate, hgn, ha.operands?_size] at hg
      exact .inr hg
    · exact .inl ((ha.gate hgn).mp hg)
  constructor
  case constant_iff =>
    intro v
    by_cases hvn : v = n.size
    · have hpos : n.size ≠ 0 := Nat.ne_of_gt (lt_size_of_isLive h.isLive_zero)
      simp [hvn, hkind, hconstant, hpos]
    · rw [ha.kind? hvn, h.constant_iff]
  case input_iff => exact hinputs
  case permanent =>
    intro v k hv
    by_cases hvn : v = n.size
    · rw [hvn, ha.new] at hv
      cases hv
    · exact h.permanent v k (ha.old v hvn ▸ hv)
  case ordered =>
    intro g a b hg
    exact (hgate hg).elim (h.ordered g a b) fun hk => (hfanIns a b hk).1
  case fanIns_live =>
    intro g a b hg
    have hlive : n.isLive a.node = true ∧ n.isLive b.node = true :=
      (hgate hg).elim (h.fanIns_live g a b) fun hk => (hfanIns a b hk).2
    exact ⟨ha.isLive hlive.1, ha.isLive hlive.2⟩
  case outputs_live => exact fun s hs => ha.isLive (h.outputs_live s (ha.outputs ▸ hs))
  case pins_live => exact fun v hv => ha.isLive (h.pins_live v hv)
  case hash_iff => exact hhash
  case liveGates_eq =>
    rw [hgates, h.liveGates_eq, ha.length_gates]
  case fanout_eq =>
    intro v hv
    rw [hfanout, ha.uses]
    by_cases hvn : v = n.size
    · -- nothing refers to a node that is not there yet
      have hzero : n.fanout v = 0 := fanout_eq_zero hvn.ge
      have hdead : ¬ n.isLive v = true := fun hl => Nat.lt_irrefl _ (hvn ▸ lt_size_of_isLive hl)
      have huses : n.uses v = 0 := by
        by_contra hpos
        rcases exists_use (Nat.pos_of_ne_zero hpos) with ⟨g, hread⟩ | ⟨s, hs, hsv⟩
        · exact hdead (h.isLive_of_reads hread)
        · exact hdead (hsv ▸ h.outputs_live s hs)
      have hpins : pins.count v = 0 :=
        Multiset.count_eq_zero.mpr fun hmem => hdead (h.pins_live v hmem)
      omega
    · have hl : n.isLive v = true := by
        obtain ⟨k, hk⟩ := isLive_iff.mp hv
        exact isLive_iff.mpr ⟨k, (ha.old v hvn).symm.trans hk⟩
      have := h.fanout_eq v hl
      omega

/-! ### Extensions -/

/-- **An extension**: what is there stays as it is, and new gates read from lower positions. -/
structure Extends (n m : Network) : Prop where
  size_le : n.size ≤ m.size
  shape : ∀ v, v < n.size → m.shape v = n.shape v
  inputs : m.inputs = n.inputs
  outputs : m.outputs = n.outputs
  below : ∀ g v, n.size ≤ g → m.Reads g v → v < g

lemma Extends.refl (n : Network) : n.Extends n :=
  ⟨le_rfl, fun _ _ => rfl, rfl, rfl, fun _ _ hle hg => absurd hg.lt_size (Nat.not_lt.mpr hle)⟩

lemma Extends.gate (h : n.Extends m) (hlt : g < n.size) : m.Gate g a b ↔ n.Gate g a b := by
  rw [gate_iff, gate_iff, h.shape g hlt]

lemma Extends.gate_of (h : n.Extends m) (hg : n.Gate g a b) : m.Gate g a b :=
  (h.gate hg.lt_size).mpr hg

/-- Where no node was appended, the gates are the same. -/
lemma Extends.gates_eq (h : n.Extends m) (hsize : m.size = n.size) : m.gates = n.gates := by
  rw [gates, gates, hsize]
  refine List.filter_congr fun v hv => ?_
  rw [Bool.eq_iff_iff, isLiveGate_iff, isLiveGate_iff]
  simp only [h.gate (List.mem_range.mp hv)]

lemma Extends.isLive (h : n.Extends m) (hv : n.isLive v = true) : m.isLive v = true := by
  obtain ⟨k, hk⟩ := isLive_iff.mp hv
  exact isLive_iff.mpr ⟨k, (h.shape v (lt_size_of_shape hk)).trans hk⟩

lemma Extends.trans (h : n.Extends m) (h' : m.Extends l) : n.Extends l where
  size_le := h.size_le.trans h'.size_le
  shape v hv := (h'.shape v (hv.trans_le h.size_le)).trans (h.shape v hv)
  inputs := h'.inputs.trans h.inputs
  outputs := h'.outputs.trans h.outputs
  below g v hle hg := by
    by_cases hgm : g < m.size
    · obtain ⟨a, b, hgate, hv⟩ := hg
      exact h.below g v hle ⟨a, b, (h'.gate hgm).mp hgate, hv⟩
    · exact h'.below g v (Nat.le_of_not_lt hgm) hg

/-- An extension of an acyclic network whose fan-ins exist is acyclic. -/
lemma Extends.acyclic (h : n.Extends m) (hn : n.Acyclic)
    (hlive : ∀ g a b, n.Gate g a b → n.isLive a.node = true ∧ n.isLive b.node = true) :
    m.Acyclic := by
  -- old gates stay among themselves, and from a new gate a way only goes down
  have hold : ∀ {g v}, m.Reads g v → g < n.size → n.Reads g v ∧ v < n.size := by
    rintro g v ⟨a, b, hg, hv⟩ hlt
    have hgn := (h.gate hlt).mp hg
    obtain ⟨hla, hlb⟩ := hlive g a b hgn
    refine ⟨⟨a, b, hgn, hv⟩, ?_⟩
    rcases hv with rfl | rfl
    · exact lt_size_of_isLive hla
    · exact lt_size_of_isLive hlb
  have hway : ∀ {u w}, Relation.TransGen m.Reads u w →
      (u < n.size → Relation.TransGen n.Reads u w ∧ w < n.size) ∧ (n.size ≤ u → w < u) := by
    intro u w huw
    induction huw using Relation.TransGen.head_induction_on with
    | single huw =>
        exact ⟨fun hlt => ⟨.single (hold huw hlt).1, (hold huw hlt).2⟩,
          fun hle => h.below _ _ hle huw⟩
    | @head u c huc _ ih =>
        refine ⟨?_, ?_⟩
        · intro hlt
          obtain ⟨huc', hc⟩ := hold huc hlt
          exact ⟨.head huc' (ih.1 hc).1, (ih.1 hc).2⟩
        · intro hle
          have hcu := h.below u c hle huc
          rcases Nat.lt_or_ge c n.size with hc | hc
          · exact (ih.1 hc).2.trans_le hle
          · exact (ih.2 hc).trans hcu
  intro v hv
  rcases Nat.lt_or_ge v n.size with hlt | hle
  · exact hn v ((hway hv).1 hlt).1
  · exact Nat.lt_irrefl v ((hway hv).2 hle)

/-- What is there keeps its value in an extension. -/
lemma Extends.interpret {M : Type} {A : Connectives M} {α : Nat → M} {v : Nat}
    (hext : n.Extends m) (hn : n.Consistent pins) (hacyclic : n.Acyclic)
    (hm : m.Consistent pins) (hv : n.isLive v = true) :
    m.interpret A α v = n.interpret A α v := by
  have hmodels := models_interpret (A := A) (α := α) hm
    (hext.acyclic hacyclic hn.fanIns_live)
  exact eq_interpret_of_models
    (hmodels.mono hext.inputs.symm fun _ _ _ hg => hext.gate_of hg) hn hacyclic hv

/-- **A signal that is the conjunction of two others**: the one to which it folds, or the gate
with its key. -/
def IsAnd (n : Network) (f g s : Signal) : Prop :=
  conjunction f g = .folded s ∨
    ∃ key, conjunction f g = .gate key ∧ s.complemented = false ∧ n.Gate s.node key.lhs key.rhs

lemma IsAnd.extends {f g : Signal} (h : n.IsAnd f g s) (hext : n.Extends m) : m.IsAnd f g s :=
  h.imp id fun ⟨key, hform, hs, hgate⟩ => ⟨key, hform, hs, hext.gate_of hgate⟩

/-- The conjunction has the value of the meet. -/
lemma IsAnd.read {M : Type} {A : Connectives M} {α φ : Nat → M} {f g : Signal}
    (h : n.IsAnd f g s) (hA : A.Lawful) (hφ : A.Models α φ n) :
    A.read φ s = A.meet (A.read φ f) (A.read φ g) := by
  rw [← Connectives.ofForm_conjunction hA hφ.zero]
  rcases h with hform | ⟨key, hform, hs, hgate⟩
  · rw [hform]
    rfl
  · rw [hform, Connectives.read, hs, if_neg Bool.false_ne_true, hφ.gate _ _ _ hgate]
    rfl

/-- The conjunction of two signals, if a network has it. -/
def conjunction? (n : Network) (f g : Signal) : Option Signal :=
  match conjunction f g with
  | .folded s => some s
  | .gate key => n.hash[key]?.map .ofNode

lemma conjunction?_eq_some {f g : Signal} (h : n.Consistent pins) :
    n.conjunction? f g = some s ↔ n.IsAnd f g s := by
  rw [conjunction?, IsAnd]
  cases hform : conjunction f g with
  | folded t => simp
  | gate key =>
      simp only [Option.map_eq_some_iff, h.hash_iff, reduceCtorEq, AndForm.gate.injEq, false_or,
        exists_eq_left']
      constructor
      · rintro ⟨node, hgate, rfl⟩
        exact ⟨rfl, hgate⟩
      · rintro ⟨hs, hgate⟩
        exact ⟨s.node, hgate, by rw [Signal.ofNode, ← hs]⟩

lemma conjunction?_eq_none {f g : Signal} : n.conjunction? f g = none ↔
    ∃ key, conjunction f g = .gate key ∧ n.hash[key]? = none := by
  rw [conjunction?]
  cases hform : conjunction f g with
  | folded t => simp
  | gate key => simp only [Option.map_eq_none_iff, AndForm.gate.injEq, exists_eq_left']

/-- **How often a node is used for a conjunction** that is asked for: what is there is not made
again, and a new gate uses each operand once. -/
def usesForAnd (n : Network) (f g : Signal) (v : Nat) : Nat :=
  if n.conjunction? f g = none ∧ (v = f.node ∨ v = g.node) then 1 else 0

lemma usesForAnd_le_one (n : Network) (f g : Signal) (v : Nat) : n.usesForAnd f g v ≤ 1 := by
  rw [usesForAnd]
  split_ifs <;> decide

lemma usesForAnd_pos {f g : Signal} : 0 < n.usesForAnd f g v ↔
    n.conjunction? f g = none ∧ (v = f.node ∨ v = g.node) := by
  rw [usesForAnd]
  split_ifs with h
  · exact iff_of_true Nat.one_pos h
  · exact iff_of_false (Nat.lt_irrefl 0) h

end Network

open Network

variable {n m : Network} {f g s : Signal} {key : AndKey} {pins : Multiset Nat}

/-! ### Gates -/

/-- A gate can be appended unless the counters of its fan-ins are full. -/
lemma exists_allocate (hlt : key.lhs.node < n.size ∧ key.rhs.node < n.size)
    (hcount : ∀ v, v = key.lhs.node ∨ v = key.rhs.node →
      n.fanout v + pairUses v (key.lhs, key.rhs) ≤ counterLimit) :
    ∃ m, Edit.allocate key n = .ok (.ofNode n.size) m := by
  let pushed := n.pushNode (.gate key.lhs key.rhs)
  have hsize : pushed.size = n.size + 1 := size_pushNode n _
  have hfanout : ∀ v, pushed.fanout v = n.fanout v := fanout_pushNode n _
  obtain ⟨k₁, n₁, hraise₁⟩ : ∃ k m, Edit.raiseFanout key.lhs.node pushed = .ok k m := by
    refine exists_raiseFanout (by omega) ?_
    have := hcount key.lhs.node (.inl rfl)
    rw [pairUses, if_pos rfl] at this
    rw [hfanout]
    omega
  obtain ⟨hsame₁, -, hfanout₁⟩ := raiseFanout_spec hraise₁
  obtain ⟨k₂, n₂, hraise₂⟩ : ∃ k m, Edit.raiseFanout key.rhs.node n₁ = .ok k m := by
    refine exists_raiseFanout (by rw [hsame₁.size]; omega) ?_
    have := hcount key.rhs.node (.inr rfl)
    rw [pairUses, if_pos (c := key.rhs.node = key.rhs.node) rfl] at this
    simp only [eq_comm (a := key.lhs.node)] at this
    rw [hfanout₁, hfanout]
    omega
  exact ⟨_, bind_eq_ok.mpr ⟨_, n, rfl, bind_eq_ok.mpr ⟨(), pushed, rfl,
    bind_eq_ok.mpr ⟨k₁, n₁, hraise₁, bind_eq_ok.mpr ⟨k₂, n₂, hraise₂, rfl⟩⟩⟩⟩⟩

/-- A gate is appended and entered into the structural hash, and its uses are counted. -/
lemma allocate_effect (hrun : Edit.allocate key n = .ok s m) :
    Appends n m (.gate key.lhs key.rhs) ∧ s = .ofNode n.size ∧ m.inputs = n.inputs ∧
      m.hash = n.hash.insert key n.size ∧ m.liveGates = n.liveGates + 1 ∧
      ∀ v, m.fanout v = n.fanout v + pairUses v (key.lhs, key.rhs) := by
  simp only [Edit.allocate, bind_eq_ok, Edit.view_eq_ok, Edit.update_eq_ok, pure_eq_ok] at hrun
  obtain ⟨_, _, ⟨rfl, rfl⟩, _, n₁, hn₁, _, n₂, hraise₁, _, n₃, hraise₂, _, n₄, hn₄, rfl, rfl⟩ :=
    hrun
  obtain ⟨hsame₁, -, hf₁⟩ := raiseFanout_spec hraise₁
  obtain ⟨hsame₂, -, hf₂⟩ := raiseFanout_spec hraise₂
  have hsame : SameGraph n₁ n₃ := hsame₁.trans hsame₂
  have hshape : n₄.shape = n₁.shape := by rw [← hsame.shape, ← hn₄]; rfl
  have hliveGates : n₁.liveGates = n.liveGates := by rw [← hn₁]; rfl
  have hhash : n₁.hash = n.hash := by rw [← hn₁]; rfl
  refine ⟨⟨?_, ?_, ?_, ?_⟩, rfl, ?_, ?_, ?_, ?_⟩
  · rw [← size_pushNode n, hn₁, ← hsame.size, ← hn₄]
    rfl
  · intro v hv
    rw [hshape, ← hn₁, Network.shape, slot?_pushNode, if_neg hv]
    rfl
  · rw [hshape, ← hn₁, Network.shape, slot?_pushNode, if_pos rfl]
    rfl
  · rw [show n₄.outputs = n₃.outputs from hn₄ ▸ rfl, hsame.outputs, ← hn₁]
    rfl
  · rw [show n₄.inputs = n₃.inputs from hn₄ ▸ rfl, hsame.inputs, ← hn₁]
    rfl
  · rw [← hhash, ← hsame.hash, ← hn₄]
    rfl
  · rw [← hliveGates, ← hsame.liveGates, ← hn₄]
    rfl
  · intro v
    have h₀ : n₁.fanout v = n.fanout v := hn₁ ▸ fanout_pushNode n _ v
    have h₁ := hf₁ v
    have h₂ := hf₂ v
    have h₃ : n₄.fanout v = n₃.fanout v := hn₄ ▸ rfl
    simp only [pairUses, eq_comm (b := v)]
    omega

/-- A gate is made only where the counters of its operands have room. -/
lemma fanout_lt_of_allocate {v : Nat} (hrun : Edit.allocate key n = .ok s m)
    (hv : v = key.lhs.node ∨ v = key.rhs.node) : n.fanout v < counterLimit := by
  have hroom : ∀ {l l' : Network} {u k : Nat}, Edit.raiseFanout u l = .ok k l' →
      l.fanout u < counterLimit := by
    intro l l' u k hraise
    obtain ⟨slot, hslot, hlt, -, -⟩ := Edit.raiseFanout_eq_ok.mp hraise
    rw [fanout_of_slot? hslot]
    exact hlt
  simp only [Edit.allocate, bind_eq_ok, Edit.view_eq_ok, Edit.update_eq_ok] at hrun
  obtain ⟨_, _, ⟨rfl, rfl⟩, _, n₁, hpush, _, n₂, hraise, _, n₃, hraise', -⟩ := hrun
  rw [← fanout_pushNode n (.gate key.lhs key.rhs), hpush]
  rcases hv with rfl | rfl
  · exact hroom hraise
  · -- the first operand may have been counted on the same node
    refine lt_of_le_of_lt ?_ (hroom hraise')
    rw [(raiseFanout_spec hraise).2.2]
    exact Nat.le_add_right ..

/-- **A gate is made** for a key that has none. -/
lemma allocate_spec (h : n.Consistent pins) (hfree : n.hash[key]? = none)
    (hord : 0 < key.lhs.node ∧ key.lhs.node < key.rhs.node)
    (hlive : n.isLive key.lhs.node = true ∧ n.isLive key.rhs.node = true)
    (hrun : Edit.allocate key n = .ok s m) :
    m.Consistent pins ∧ n.Extends m ∧ n.Decays m ∧ s = .ofNode n.size ∧
      m.Gate n.size key.lhs key.rhs := by
  obtain ⟨ha, hs, hinputs, hhash, hgates, hfanout⟩ := allocate_effect hrun
  have hgate : m.Gate n.size key.lhs key.rhs := gate_iff.mpr ha.new
  have hnew : ¬ n.isLive n.size = true := fun hl => Nat.lt_irrefl _ (lt_size_of_isLive hl)
  refine ⟨h.appended ha (by simp) ?_ ?_ ?_ hgates hfanout,
    ⟨ha.size ▸ Nat.le_succ _, fun v hv => ha.old v (Nat.ne_of_lt hv), hinputs, ha.outputs, ?_⟩,
    ⟨?_, fun v hv => .inl (ha.isLive hv)⟩, hs, hgate⟩
  · intro i v
    rw [hinputs, h.input_iff]
    by_cases hv : v = n.size
    · rw [Network.kind?, Network.kind?, hv, ha.new, shape_eq_none le_rfl]
      simp
    · rw [ha.kind? hv]
  · intro a b hab
    cases hab
    exact ⟨hord, hlive⟩
  · intro k i
    refine h.hash_iff_of_off (fun _ => ha.operands?) ?_
      (fun k hk _ => absurd hk.isLive hnew) ?_ k i
    · intro k hk
      obtain rfl := hgate.key_iff.mp hk
      rw [hhash, hfree]
      exact ⟨Std.ExtTreeMap.getElem?_insert_self, by simp⟩
    · intro k _ hk
      have hne : ¬ key = k := fun heq => hk (heq ▸ hgate)
      rw [hhash, Std.ExtTreeMap.getElem?_insert,
        if_neg (Std.LawfulEqCmp.compare_eq_iff_eq.not.mpr hne)]
  · intro i v hle hread
    obtain ⟨a, b, hg, hv⟩ := hread
    have hi : i = n.size := by
      have := hg.lt_size
      rw [ha.size] at this
      omega
    subst hi
    obtain ⟨rfl, rfl⟩ := hg.unique hgate
    rcases hv with rfl | rfl
    · exact lt_size_of_isLive hlive.1
    · exact lt_size_of_isLive hlive.2
  · intro v hv
    obtain ⟨k, hk⟩ := isDead_iff.mp hv
    have hother : ∀ w, n.isLive w = true → w ≠ v := by
      rintro w hw rfl
      exact not_isLive_of_isDead hv hw
    refine ⟨isDead_iff.mpr ⟨k, (ha.old v (Nat.ne_of_lt (lt_size_of_shape hk))).trans hk⟩, ?_⟩
    rw [hfanout, pairUses, if_neg (hother _ hlive.1), if_neg (hother _ hlive.2), Nat.add_zero]

/-- **A conjunction** is the signal it folds to, or the gate with its key. -/
theorem addAnd_spec (h : n.Consistent pins) (hrun : Edit.addAnd f g n = .ok s m) :
    n.isLive f.node = true ∧ n.isLive g.node = true ∧ m.Consistent pins ∧ n.Extends m ∧
      n.Decays m ∧ m.isLive s.node = true ∧ m.IsAnd f g s := by
  simp only [Edit.addAnd, bind_eq_ok, Edit.query_eq_ok, Edit.requireLive_eq_ok] at hrun
  obtain ⟨_, _, ⟨hf, rfl⟩, _, _, ⟨hg, rfl⟩, hrun⟩ := hrun
  refine ⟨hf, hg, ?_⟩
  cases hform : conjunction f g with
  | folded t =>
      simp only [hform, pure_eq_ok] at hrun
      obtain ⟨rfl, rfl⟩ := hrun
      refine ⟨h, .refl _, .refl _, ?_, .inl hform⟩
      rcases node_of_conjunction_folded hform with h0 | rfl | rfl
      · exact h0 ▸ h.isLive_zero
      · exact hf
      · exact hg
  | gate key =>
      simp only [hform, bind_eq_ok, Edit.view_eq_ok] at hrun
      obtain ⟨_, _, ⟨rfl, rfl⟩, hrun⟩ := hrun
      cases hkey : n.hash[key]? with
      | some node =>
          simp only [hkey, pure_eq_ok] at hrun
          obtain ⟨rfl, rfl⟩ := hrun
          have hnode := (h.hash_iff key node).mp hkey
          exact ⟨h, .refl _, .refl _, hnode.isLive, .inr ⟨key, hform, rfl, hnode⟩⟩
      | none =>
          simp only [hkey] at hrun
          have hlive : n.isLive key.lhs.node = true ∧ n.isLive key.rhs.node = true :=
            fanIns_of_conjunction_gate (P := (n.isLive · = true)) hform hf hg
          obtain ⟨hm, hext, hdecays, rfl, hgate⟩ := allocate_spec h hkey
            (lhs_lt_rhs_of_gate hform) hlive hrun
          exact ⟨hm, hext, hdecays, hgate.isLive, .inr ⟨key, hform, rfl, hgate⟩⟩

/-- **A conjunction is there already, or a gate is made** for its key. -/
lemma addAnd_eq_allocate (hrun : Edit.addAnd f g n = .ok s m) :
    (n.conjunction? f g = some s ∧ m = n) ∨ (n.conjunction? f g = none ∧
      ∃ key, conjunction f g = .gate key ∧ Edit.allocate key n = .ok s m) := by
  simp only [Edit.addAnd, bind_eq_ok, Edit.query_eq_ok] at hrun
  obtain ⟨_, _, ⟨-, rfl⟩, _, _, ⟨-, rfl⟩, hrun⟩ := hrun
  rw [conjunction?]
  cases hform : conjunction f g with
  | folded t =>
      simp only [hform, pure_eq_ok] at hrun
      exact .inl ⟨congrArg some hrun.1, hrun.2.symm⟩
  | gate key =>
      simp only [hform, bind_eq_ok, Edit.view_eq_ok] at hrun
      obtain ⟨entry, _, ⟨hkey, rfl⟩, hrun⟩ := hrun
      simp only [hkey]
      cases entry with
      | some node =>
          obtain ⟨hs, hm⟩ := pure_eq_ok.mp hrun
          exact .inl ⟨congrArg some hs, hm.symm⟩
      | none => exact .inr ⟨rfl, key, rfl, hrun⟩

/-- A conjunction makes one gate at most. -/
lemma addAnd_length_gates_le (h : n.Consistent pins) (hrun : Edit.addAnd f g n = .ok s m) :
    m.gates.length ≤ n.gates.length + 1 := by
  have hm := (addAnd_spec h hrun).2.2.1
  obtain ⟨-, rfl⟩ | ⟨-, key, -, hrun⟩ := addAnd_eq_allocate hrun
  · exact Nat.le_succ _
  · obtain ⟨-, -, -, -, hgates, -⟩ := allocate_effect hrun
    rw [← h.liveGates_eq, ← hm.liveGates_eq, hgates]

/-- A conjunction is there already, or a gate is appended for it. -/
lemma addAnd_cases (hrun : Edit.addAnd f g n = .ok s m) : m = n ∨ ∃ key,
    conjunction f g = .gate key ∧ Appends n m (.gate key.lhs key.rhs) ∧ s = .ofNode n.size := by
  refine (addAnd_eq_allocate hrun).imp And.right fun ⟨_, key, hform, hrun⟩ => ?_
  obtain ⟨happends, hs, -⟩ := allocate_effect hrun
  exact ⟨key, hform, happends, hs⟩

/-- The uses for a new conjunction are those of its gate. -/
lemma usesForAnd_eq_pairUses (hnone : n.conjunction? f g = none)
    (hform : conjunction f g = .gate key) (v : Nat) :
    n.usesForAnd f g v = pairUses v (key.lhs, key.rhs) := by
  have hne : key.lhs.node ≠ key.rhs.node := Nat.ne_of_lt (lhs_lt_rhs_of_gate hform).2
  have hends : (n.conjunction? f g = none ∧ (v = f.node ∨ v = g.node)) ↔
      (v = key.lhs.node ∨ v = key.rhs.node) := by
    rw [and_iff_right hnone]
    rcases key_of_conjunction hform with rfl | rfl
    · exact Iff.rfl
    · exact or_comm
  rw [usesForAnd, if_congr hends rfl rfl]
  simp only [pairUses]
  split_ifs <;> omega

/-- **The counters count the uses for a conjunction**, as far as they can. -/
lemma addAnd_fanout (hrun : Edit.addAnd f g n = .ok s m) (v : Nat) :
    m.fanout v = n.fanout v + n.usesForAnd f g v ∧
      (0 < n.usesForAnd f g v → m.fanout v ≤ counterLimit) := by
  obtain ⟨hsome, rfl⟩ | ⟨hnone, key, hform, hrun⟩ := addAnd_eq_allocate hrun
  · have hzero : m.usesForAnd f g v = 0 := by simp [usesForAnd, hsome]
    exact ⟨by rw [hzero, Nat.add_zero], fun hpos => absurd hzero hpos.ne'⟩
  · obtain ⟨-, -, -, -, -, hfanout⟩ := allocate_effect hrun
    have huses := usesForAnd_eq_pairUses hnone hform v
    refine ⟨by rw [hfanout, huses], fun hpos => ?_⟩
    have hend : v = key.lhs.node ∨ v = key.rhs.node := by
      rcases key_of_conjunction hform with rfl | rfl
      · exact (usesForAnd_pos.mp hpos).2
      · exact (usesForAnd_pos.mp hpos).2.symm
    have hlt := fanout_lt_of_allocate hrun hend
    have hle := n.usesForAnd_le_one f g v
    rw [hfanout, ← huses]
    omega

/-- A conjunction adds reads of its operands only. -/
lemma addAnd_reads {i v : Nat} (hrun : Edit.addAnd f g n = .ok s m) (hread : m.Reads i v) :
    n.Reads i v ∨ v = f.node ∨ v = g.node := by
  obtain rfl | ⟨key, hform, happends, -⟩ := addAnd_cases hrun
  · exact .inl hread
  · exact (happends.reads hread).imp_right fun h => node_of_conjunction_gate hform h.2

/-- **A new conjunction is read by no gate.** -/
lemma addAnd_unread (h : n.Consistent pins) (hrun : Edit.addAnd f g n = .ok s m)
    (hsize : n.size < m.size) : s.node = n.size ∧ ∀ i, ¬ m.Reads i n.size := by
  obtain ⟨hf, hg, -⟩ := addAnd_spec h hrun
  obtain rfl | ⟨key, hform, happends, rfl⟩ := addAnd_cases hrun
  · exact absurd hsize (Nat.lt_irrefl _)
  · refine ⟨rfl, fun i hi => ?_⟩
    have hlive : ¬ n.isLive n.size = true := fun hl => Nat.lt_irrefl _ (lt_size_of_isLive hl)
    rcases happends.reads hi with hread | ⟨-, hend⟩
    · exact hlive (h.isLive_of_reads hread)
    · rcases node_of_conjunction_gate hform hend with heq | heq
      · exact hlive (heq ▸ hf)
      · exact hlive (heq ▸ hg)

/-- **The conjunction of live signals is made** where the counters have room for its uses. -/
lemma exists_addAnd_of_room (hf : n.isLive f.node = true) (hg : n.isLive g.node = true)
    (hroom : ∀ v, 0 < n.usesForAnd f g v → n.fanout v + n.usesForAnd f g v ≤ counterLimit) :
    ∃ s m, Edit.addAnd f g n = .ok s m := by
  simp only [Edit.addAnd, bind_eq_ok, Edit.query_eq_ok, Edit.requireLive_eq_ok]
  cases hform : conjunction f g with
  | folded t => exact ⟨t, n, (), n, ⟨hf, rfl⟩, (), n, ⟨hg, rfl⟩, rfl⟩
  | gate key =>
      cases hkey : n.hash[key]? with
      | some node =>
          refine ⟨.ofNode node, n, (), n, ⟨hf, rfl⟩, (), n, ⟨hg, rfl⟩, ?_⟩
          exact bind_eq_ok.mpr ⟨some node, n, Edit.view_eq_ok.mpr ⟨hkey, rfl⟩, rfl⟩
      | none =>
          have hlt : key.lhs.node < n.size ∧ key.rhs.node < n.size :=
            fanIns_of_conjunction_gate (P := (· < n.size)) hform (lt_size_of_isLive hf)
              (lt_size_of_isLive hg)
          have hnone := conjunction?_eq_none.mpr ⟨key, hform, hkey⟩
          obtain ⟨m, hrun⟩ : ∃ m, Edit.allocate key n = .ok (.ofNode n.size) m := by
            refine exists_allocate hlt fun v hv => ?_
            have hend := node_of_conjunction_gate hform hv
            rw [← usesForAnd_eq_pairUses hnone hform]
            exact hroom v (usesForAnd_pos.mpr ⟨hnone, hend⟩)
          refine ⟨.ofNode n.size, m, (), n, ⟨hf, rfl⟩, (), n, ⟨hg, rfl⟩, ?_⟩
          exact bind_eq_ok.mpr ⟨none, n, Edit.view_eq_ok.mpr ⟨hkey, rfl⟩, hrun⟩

/-- It is made in a network that is small enough. -/
lemma exists_addAnd (h : n.WellFormed) (hf : n.isLive f.node = true) (hg : n.isLive g.node = true)
    (hroom : n.gates.length + n.outputs.size < counterLimit) :
    ∃ s m, Edit.addAnd f g n = .ok s m := by
  have hfanout : ∀ v, n.isLive v = true → n.fanout v < counterLimit := by
    intro v hv
    rw [h.fanout_eq v hv, Multiset.count_zero]
    exact (h.uses_le_gates v).trans_lt hroom
  refine exists_addAnd_of_room hf hg fun v hpos => ?_
  have hlt : n.fanout v < counterLimit := by
    rcases (usesForAnd_pos.mp hpos).2 with rfl | rfl
    · exact hfanout _ hf
    · exact hfanout _ hg
  exact (Nat.add_le_add_left (n.usesForAnd_le_one f g v) _).trans hlt

/-- To make a gate fails only when a counter is full. -/
lemma allocate_eq_error {fault : Fault} (hl : key.lhs.node < n.size) (hr : key.rhs.node < n.size)
    (hrun : Edit.allocate key n = .error fault m) : fault = .counterOverflow := by
  simp only [Edit.allocate, bind_eq_error] at hrun
  rcases hrun with hrun | ⟨_, _, hview, hrun | ⟨_, n₁, hpush, hrun | ⟨_, n₂, hraise, hrun |
    ⟨_, n₃, -, hrun | ⟨_, _, -, hrun⟩⟩⟩⟩⟩
  · exact absurd hrun Edit.view_ne_error
  all_goals obtain ⟨-, rfl⟩ := Edit.view_eq_ok.mp hview
  · exact absurd hrun Edit.update_ne_error
  all_goals obtain rfl := Edit.update_eq_ok.mp hpush
  · refine Edit.raiseFanout_eq_error ?_ hrun
    rw [size_pushNode]
    omega
  · refine Edit.raiseFanout_eq_error ?_ hrun
    rw [(raiseFanout_spec hraise).1.size, size_pushNode]
    omega
  · exact absurd hrun Edit.update_ne_error
  · exact absurd hrun pure_ne_error

/-- **The conjunction of live signals fails** only when a counter is full. -/
theorem addAnd_eq_error {fault : Fault} (hrun : Edit.addAnd f g n = .error fault m)
    (hf : n.isLive f.node = true) (hg : n.isLive g.node = true) : fault = .counterOverflow := by
  have hlive : ∀ {v : Nat}, n.isLive v = true →
      Edit.query (·.requireLive .addAnd v) n ≠ .error fault m := by
    intro v hv h
    rw [Edit.query_eq_error, (Edit.requireLive_eq_ok (u := ())).mpr hv] at h
    cases h.1
  simp only [Edit.addAnd, bind_eq_error] at hrun
  rcases hrun with hrun | ⟨_, _, hquery, hrun | ⟨_, _, hquery', hrun⟩⟩
  · exact absurd hrun (hlive hf)
  all_goals obtain ⟨-, rfl⟩ := Edit.query_eq_ok.mp hquery
  · exact absurd hrun (hlive hg)
  obtain ⟨-, rfl⟩ := Edit.query_eq_ok.mp hquery'
  cases hform : conjunction f g with
  | folded s =>
      simp only [hform] at hrun
      exact absurd hrun pure_ne_error
  | gate key =>
      simp only [hform] at hrun
      rcases bind_eq_error.mp hrun with hrun | ⟨entry, _, hview, hrun⟩
      · exact absurd hrun Edit.view_ne_error
      obtain ⟨-, rfl⟩ := Edit.view_eq_ok.mp hview
      have hlt : key.lhs.node < n.size ∧ key.rhs.node < n.size :=
        fanIns_of_conjunction_gate (P := (· < n.size)) hform (lt_size_of_isLive hf)
          (lt_size_of_isLive hg)
      cases entry with
      | some node => exact absurd hrun pure_ne_error
      | none => exact allocate_eq_error hlt.1 hlt.2 hrun

/-! ### Inputs and outputs -/

/-- A node is appended and entered into the list of inputs. -/
lemma addInput_effect (hrun : Edit.addInput n = .ok s m) :
    Appends n m (.input n.inputs.size) ∧ s = .ofNode n.size ∧
      m.inputs = n.inputs.push n.size ∧ m.hash = n.hash ∧ m.liveGates = n.liveGates ∧
        ∀ v, m.fanout v = n.fanout v := by
  simp only [Edit.addInput, bind_eq_ok, Edit.view_eq_ok, Edit.update_eq_ok, pure_eq_ok] at hrun
  obtain ⟨_, _, ⟨rfl, rfl⟩, _, _, ⟨rfl, rfl⟩, _, n₁, hn₁, _, n₂, hn₂, rfl, rfl⟩ := hrun
  have hslot : ∀ v, n₂.slot? v
      = if v = n.size then some { kind := .input n.inputs.size } else n.slot? v := by
    intro v
    rw [← slot?_pushNode, hn₁, ← hn₂]
    rfl
  refine ⟨⟨?_, fun v hv => ?_, ?_, by rw [← hn₂, ← hn₁]; rfl⟩, rfl, by rw [← hn₂, ← hn₁]; rfl,
    by rw [← hn₂, ← hn₁]; rfl, by rw [← hn₂, ← hn₁]; rfl, fun v => ?_⟩
  · rw [← size_pushNode n, hn₁, ← hn₂]
    rfl
  · rw [Network.shape, hslot, if_neg hv]
    rfl
  · rw [Network.shape, hslot, if_pos rfl]
    rfl
  · rw [fanout, fanout, hslot]
    split_ifs with hv
    · rw [hv, (n.slot?_eq_none_iff _).mpr le_rfl]
      rfl
    · rfl

/-- **An input is appended.** -/
theorem addInput_spec (h : n.Consistent pins) (hrun : Edit.addInput n = .ok s m) :
    m.Consistent pins ∧ (n.Acyclic → m.Acyclic) ∧ s = .ofNode n.size ∧
      m.isLive n.size = true := by
  obtain ⟨ha, hs, hinputs, hhash, hgates, hfanout⟩ := addInput_effect hrun
  have hgate : ∀ {g a b}, m.Gate g a b ↔ n.Gate g a b := ha.gate_of_source rfl
  refine ⟨h.appended ha (by simp) (fun i v => ?_) (by simp [NodeKind.fanIns?])
    (fun k g => by rw [hgate, ← h.hash_iff, hhash]) hgates hfanout, fun hn => ?_, hs,
    isLive_iff.mpr ⟨_, ha.new⟩⟩
  · rw [hinputs, Array.getElem?_push]
    by_cases hv : v = n.size
    · have hkind : m.kind? v = some (.input n.inputs.size) := by
        rw [Network.kind?, hv, ha.new, Option.map_some]
      have hnone : n.inputs[i]? ≠ some v := by
        rw [Ne, h.input_iff, Network.kind?, hv, shape_eq_none le_rfl]
        simp
      rw [hkind, Option.some.injEq, NodeKind.input.injEq]
      split_ifs with hi
      · simp [hi, hv]
      · exact ⟨fun hiv => absurd hiv hnone, fun hi' => absurd hi'.symm hi⟩
    · rw [ha.kind? hv, ← h.input_iff]
      split_ifs with hi
      · have hnone : n.inputs[i]? = none := by rw [hi]; exact Array.getElem?_size
        simp [hnone, Ne.symm hv]
      · rfl
  · refine hn.mono ?_
    rintro g v ⟨a, b, hg, hv⟩
    exact ⟨a, b, hgate.mp hg, hv⟩

/-- What is there keeps its value when an input is appended, and the input has a value of its
own. -/
lemma addInput_interpret {M : Type} {A : Connectives M} {α : Nat → M} (h : n.WellFormed)
    (hacyclic : n.Acyclic) (hrun : Edit.addInput n = .ok s m) :
    (∀ v, n.isLive v = true → m.interpret A α v = n.interpret A α v) ∧
      m.interpret A α n.size = α n.inputs.size := by
  obtain ⟨ha, -, hinputs, -, -, -⟩ := addInput_effect hrun
  obtain ⟨hm, hkeeps, -, -⟩ := addInput_spec h hrun
  have hφ := models_interpret (A := A) (α := α) hm (hkeeps hacyclic)
  constructor
  · intro v hv
    refine eq_interpret_of_models ⟨hφ.zero, ?_, ?_⟩ h hacyclic hv
    · intro i v hi
      refine hφ.input i v ?_
      rw [hinputs, Array.getElem?_push, if_neg (Nat.ne_of_lt (Array.getElem?_eq_some_iff.mp hi).1)]
      exact hi
    · exact fun g a b hg => hφ.gate g a b ((ha.gate (Nat.ne_of_lt hg.lt_size)).mpr hg)
  · refine hφ.input _ _ ?_
    rw [hinputs, Array.getElem?_push_size]

/-- A driver is appended to the outputs, and its use is counted. -/
lemma addOutput_effect {k : Nat} (hrun : Edit.addOutput s n = .ok k m) :
    n.isLive s.node = true ∧ k = n.outputs.size ∧ SameGates n m ∧
      m.outputs = n.outputs.push s ∧
        ∀ v, m.fanout v = n.fanout v + if v = s.node then 1 else 0 := by
  simp only [Edit.addOutput, bind_eq_ok, Edit.query_eq_ok, Edit.requireLive_eq_ok,
    Edit.view_eq_ok, Edit.update_eq_ok, pure_eq_ok] at hrun
  obtain ⟨_, _, ⟨hlive, rfl⟩, _, n₁, hraise, _, _, ⟨rfl, rfl⟩, _, n₂, hn₂, rfl, rfl⟩ := hrun
  obtain ⟨hsame, -, hf⟩ := raiseFanout_spec hraise
  have houtputs : n₂.outputs = n.outputs.push s := by
    rw [← hsame.outputs, ← hn₂]
    rfl
  exact ⟨hlive, by rw [hsame.outputs], hsame.toSameGates.trans (hn₂ ▸ ⟨rfl, rfl, rfl, rfl, rfl⟩),
    houtputs, fun v => (show n₂.fanout v = n₁.fanout v from hn₂ ▸ rfl).trans (hf v)⟩

/-- **An output is appended.** -/
theorem addOutput_spec {k : Nat} (h : n.Consistent pins) (hrun : Edit.addOutput s n = .ok k m) :
    m.Consistent pins ∧ SameGates n m ∧ m.outputs = n.outputs.push s ∧
      n.isLive s.node = true := by
  obtain ⟨hlive, -, hgates, houtputs, hfanout⟩ := addOutput_effect hrun
  refine ⟨h.congr hgates ?_ h.pins_live ?_, hgates, houtputs, hlive⟩
  · intro t ht
    rw [houtputs] at ht
    rcases Array.mem_push.mp ht with ht | rfl
    · exact h.outputs_live t ht
    · exact hlive
  · intro v
    have hfv := hfanout v
    have huses : m.outputUses v = n.outputUses v + if v = s.node then 1 else 0 := by
      rw [outputUses, outputUses, houtputs, Array.toList_push, List.countP_append]
      simp [eq_comm, List.countP_singleton]
    omega

/-- An output is one use more, which the counter had room for. -/
lemma addOutput_fanout {k : Nat} (hrun : Edit.addOutput s n = .ok k m) :
    n.fanout s.node < counterLimit ∧ m.fanout s.node = n.fanout s.node + 1 := by
  obtain ⟨-, -, -, -, hfanout⟩ := addOutput_effect hrun
  refine ⟨?_, by rw [hfanout, if_pos rfl]⟩
  simp only [Edit.addOutput, bind_eq_ok, Edit.query_eq_ok] at hrun
  obtain ⟨_, _, ⟨-, rfl⟩, _, n₁, hraise, -⟩ := hrun
  obtain ⟨slot, hslot, hlt, -, -⟩ := Edit.raiseFanout_eq_ok.mp hraise
  exact (fanout_of_slot? hslot).trans_lt hlt

/-- An output on a live signal is appended where the counter of the signal has room. -/
lemma exists_addOutput (hs : n.isLive s.node = true) (hroom : n.fanout s.node < counterLimit) :
    ∃ k m, Edit.addOutput s n = .ok k m := by
  obtain ⟨k, n₁, hraise⟩ := exists_raiseFanout (lt_size_of_isLive hs) hroom
  exact ⟨_, _, bind_eq_ok.mpr ⟨(), n, Edit.query_eq_ok.mpr ⟨Edit.requireLive_eq_ok.mpr hs, rfl⟩,
    bind_eq_ok.mpr ⟨k, n₁, hraise, rfl⟩⟩⟩

/-- **An output on a live signal is appended**, unless the counter of the signal is full. -/
lemma addOutput_cases (hs : n.isLive s.node = true) :
    (∃ k m, Edit.addOutput s n = .ok k m) ∨
      (∃ m, Edit.addOutput s n = .error .counterOverflow m) ∧ counterLimit ≤ n.fanout s.node := by
  rcases Nat.lt_or_ge (n.fanout s.node) counterLimit with hroom | hfull
  · exact .inl (exists_addOutput hs hroom)
  · cases hrun : Edit.addOutput s n with
    | ok k m => exact .inl ⟨k, m, rfl⟩
    | error fault m =>
        refine .inr ⟨⟨m, ?_⟩, hfull⟩
        rcases bind_eq_error.mp hrun with hquery | ⟨_, _, hquery, hrun⟩
        · have hlive : Edit.query (·.requireLive .addOutput s.node) n = .ok () n :=
            Edit.query_eq_ok.mpr ⟨Edit.requireLive_eq_ok.mpr hs, rfl⟩
          rw [hlive] at hquery
          cases hquery
        obtain ⟨-, rfl⟩ := Edit.query_eq_ok.mp hquery
        rcases bind_eq_error.mp hrun with hraise | ⟨_, _, -, hrun⟩
        · rw [Edit.raiseFanout_eq_error (lt_size_of_isLive hs) hraise]
        · cases hrun

lemma shape_empty (v : Nat) :
    Network.empty.shape v = if v = 0 then some (.constant, false) else none := by
  by_cases hv : v = 0
  · subst hv
    rfl
  · rw [if_neg hv]
    exact shape_eq_none (Nat.pos_of_ne_zero hv)

lemma not_gate_empty {g : Nat} {a b : Signal} : ¬ Network.empty.Gate g a b := by
  rw [gate_iff, shape_empty]
  split_ifs <;> simp

lemma fanout_empty (v : Nat) : Network.empty.fanout v = 0 := by
  rw [fanout]
  cases hs : Network.empty.slot? v with
  | none => rfl
  | some s =>
      obtain rfl : v = 0 := Nat.lt_one_iff.mp (lt_size_of_slot? hs)
      cases hs
      rfl

/-- **Where every network begins.** -/
theorem wellFormed_empty : Network.empty.WellFormed ∧ Network.empty.Acyclic := by
  have hgates : Network.empty.gates = [] :=
    List.eq_nil_iff_forall_not_mem.mpr fun g hg => by
      obtain ⟨a, b, hg⟩ := mem_gates.mp hg
      exact not_gate_empty hg
  refine ⟨?_, ?_⟩
  · constructor
    case constant_iff =>
      intro v
      rw [Network.kind?, shape_empty]
      by_cases hv : v = 0 <;> simp [hv]
    case input_iff =>
      intro i v
      rw [Network.kind?, shape_empty, show Network.empty.inputs[i]? = none from rfl]
      by_cases hv : v = 0 <;> simp [hv]
    case permanent =>
      intro v k hv
      rw [shape_empty] at hv
      split_ifs at hv
      cases hv
    case ordered => exact fun g a b hg => absurd hg not_gate_empty
    case fanIns_live => exact fun g a b hg => absurd hg not_gate_empty
    case outputs_live => exact fun s hs => absurd hs (Array.not_mem_empty s)
    case pins_live => exact fun v hv => absurd hv (Multiset.notMem_zero v)
    case hash_iff =>
      intro k g
      rw [show Network.empty.hash[k]? = none from Std.ExtTreeMap.getElem?_empty]
      exact ⟨fun hg => absurd hg (by simp), fun hg => absurd hg not_gate_empty⟩
    case liveGates_eq =>
      rw [hgates]
      rfl
    case fanout_eq =>
      intro v hv
      have huses : Network.empty.uses v = 0 := by
        by_contra hpos
        rcases exists_use (Nat.pos_of_ne_zero hpos) with ⟨g, a, b, hg, -⟩ | ⟨s, hs, -⟩
        · exact not_gate_empty hg
        · exact absurd hs (Array.not_mem_empty s)
      rw [fanout_empty, huses]
      rfl
  · intro v hv
    obtain ⟨u, ⟨a, b, hg, -⟩, -⟩ := Relation.TransGen.head'_iff.mp hv
    exact not_gate_empty hg

end AndInverter
