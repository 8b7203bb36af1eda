import AndInverter.Proofs.Conjunction
import AndInverter.Proofs.Interpretation

/-!
Conjunctions as Boolean functions.  Apart from any network, each node but the constant is a
variable of its own, and a signal is a literal or a constant.  The canonical form of a
conjunction decides what its function is.

* `support` collects the nodes that a function depends on: one at most for a signal
  (`mem_support_function`), both for a canonical key (`mem_support_conjoin`);
* `Signal.function_injective`, `AndKey.Canonical.eq_of_conjoin`: signals and canonical keys are
  determined by their functions, and `AndKey.Canonical.function_ne`: no function is both;
* `conjunction_exact`: a conjunction folds exactly when it is the function of a signal, and it
  takes a gate with the one canonical key that has its function otherwise.
-/

namespace AndInverter

open Network

variable {f g s t : Signal} {key key' : AndKey} {α : Nat → Bool} {v : Nat}

/-! ### Functions of free nodes -/

/-- The values of the nodes when all but the constant are free. -/
def freeValues (α : Nat → Bool) : Nat → Bool := Function.update α 0 false

/-- **The function of a signal**: its value, as the nodes range over the truth values. -/
def Signal.function (s : Signal) (α : Nat → Bool) : Bool := Connectives.bool.read (freeValues α) s

/-- The conjunction of two signals, as a function. -/
def conjoin (f g : Signal) (α : Nat → Bool) : Bool := f.function α && g.function α

/-- The values with that of one node changed. -/
def toggle (α : Nat → Bool) (v : Nat) : Nat → Bool := Function.update α v (!α v)

/-- **The nodes that a function depends on.** -/
def support (F : (Nat → Bool) → Bool) : Set Nat := {v | ∃ α, F (toggle α v) ≠ F α}

lemma function_of_constant (hs : s.node = 0) (α : Nat → Bool) : s.function α = s.complemented := by
  rw [Signal.function, read_bool, hs, freeValues, Function.update_self, Bool.false_xor]

lemma function_of_ne (hs : s.node ≠ 0) (α : Nat → Bool) :
    s.function α = (α s.node ^^ s.complemented) := by
  rw [Signal.function, read_bool, freeValues, Function.update_of_ne hs]

/-- A signal follows its own node and no other one. -/
lemma function_toggle (s : Signal) (α : Nat → Bool) (v : Nat) :
    s.function (toggle α v) = if v = s.node ∧ v ≠ 0 then !s.function α else s.function α := by
  by_cases hs : s.node = 0
  · rw [function_of_constant hs, function_of_constant hs, if_neg fun h => h.2 (h.1.trans hs)]
  · rw [function_of_ne hs, function_of_ne hs, toggle]
    by_cases hv : v = s.node
    · subst hv
      rw [Function.update_self, if_pos ⟨rfl, hs⟩, Bool.not_xor]
    · rw [Function.update_of_ne (Ne.symm hv), if_neg fun h => hv h.1]

/-- **A signal depends on its node**, unless that is the constant. -/
lemma mem_support_function : v ∈ support s.function ↔ v = s.node ∧ v ≠ 0 := by
  simp only [support, Set.mem_ofPred_eq, function_toggle]
  constructor
  · rintro ⟨α, hα⟩
    by_contra hv
    exact hα (if_neg hv)
  · intro hv
    refine ⟨fun _ => false, ?_⟩
    rw [if_pos hv]
    exact Bool.not_ne_self _

/-- On one node there is one signal for each value. -/
lemma eq_of_function (hnode : s.node = t.node) (h : s.function α = t.function α) : s = t := by
  rcases s with ⟨u, c⟩
  rcases t with ⟨w, d⟩
  obtain rfl : u = w := hnode
  rw [Signal.function, Signal.function, read_bool, read_bool, Bool.xor_right_inj] at h
  exact congrArg _ h

/-- **Distinct signals have distinct functions.** -/
theorem Signal.function_injective : Function.Injective Signal.function := by
  intro s t h
  have hmem : ∀ v, (v = s.node ∧ v ≠ 0) ↔ (v = t.node ∧ v ≠ 0) := by
    intro v
    rw [← mem_support_function, h, mem_support_function]
  have hnode : s.node = t.node := by
    by_cases hs : s.node = 0
    · by_cases ht : t.node = 0
      · exact hs.trans ht.symm
      · exact ((hmem t.node).mpr ⟨rfl, ht⟩).1.symm
    · exact ((hmem s.node).mp ⟨rfl, hs⟩).1
  exact eq_of_function hnode (congrFun h fun _ => false)

/-! ### Canonical keys -/

/-- **A canonical key** has two operands in order, on distinct nodes, neither of them constant. -/
structure AndKey.Canonical (key : AndKey) : Prop where
  lt : key.lhs < key.rhs
  lhs_ne : key.lhs.node ≠ 0
  rhs_ne : key.rhs.node ≠ 0
  nodes_ne : key.lhs.node ≠ key.rhs.node

/-- The operands are in the order of their nodes. -/
lemma AndKey.Canonical.node_lt (h : key.Canonical) : key.lhs.node < key.rhs.node := by
  have hlt := (Signal.lt_iff_code_lt _ _).mp h.lt
  have hl := key.lhs.code_div_two
  have hr := key.rhs.code_div_two
  have hne := h.nodes_ne
  omega

/-- The operands of a canonical key can both be true. -/
lemma AndKey.Canonical.exists_conjoin (h : key.Canonical) :
    ∃ α, conjoin key.lhs key.rhs α = true := by
  refine ⟨fun v => if v = key.lhs.node then !key.lhs.complemented else !key.rhs.complemented, ?_⟩
  rw [conjoin, function_of_ne h.lhs_ne, function_of_ne h.rhs_ne, if_pos rfl,
    if_neg h.nodes_ne.symm, Bool.not_xor_self, Bool.not_xor_self, Bool.and_self]

/-- **The conjunction of a canonical key depends on both nodes**, and on no other one. -/
lemma mem_support_conjoin (h : key.Canonical) :
    v ∈ support (conjoin key.lhs key.rhs) ↔ v = key.lhs.node ∨ v = key.rhs.node := by
  constructor
  · rintro ⟨α, hα⟩
    by_contra hv
    rw [not_or] at hv
    rw [conjoin, function_toggle, function_toggle, if_neg fun h => hv.1 h.1,
      if_neg fun h => hv.2 h.1] at hα
    exact hα rfl
  · intro hv
    -- where both operands are true, either change makes one of them false
    obtain ⟨α, hα⟩ := h.exists_conjoin
    refine ⟨α, ?_⟩
    rw [hα]
    rw [conjoin, Bool.and_eq_true] at hα
    rcases hv with rfl | rfl
    · rw [conjoin, function_toggle key.lhs, if_pos ⟨rfl, h.lhs_ne⟩, hα.1]
      exact Bool.false_ne_true
    · rw [conjoin, function_toggle key.rhs, if_pos ⟨rfl, h.rhs_ne⟩, hα.2, Bool.not_true,
        Bool.and_false]
      exact Bool.false_ne_true

/-- **No signal has the function of a canonical key**, which depends on two nodes. -/
lemma AndKey.Canonical.function_ne (h : key.Canonical) (s : Signal) :
    s.function ≠ conjoin key.lhs key.rhs := by
  intro heq
  have hnode : ∀ v, v = key.lhs.node ∨ v = key.rhs.node → v = s.node := by
    intro v hv
    rw [← mem_support_conjoin h, ← heq, mem_support_function] at hv
    exact hv.1
  exact h.nodes_ne ((hnode _ (.inl rfl)).trans (hnode _ (.inr rfl)).symm)

/-- **Distinct canonical keys have distinct functions.** -/
theorem AndKey.Canonical.eq_of_conjoin (h : key.Canonical) (h' : key'.Canonical)
    (heq : conjoin key.lhs key.rhs = conjoin key'.lhs key'.rhs) : key = key' := by
  have hmem : ∀ v, (v = key.lhs.node ∨ v = key.rhs.node) ↔
      (v = key'.lhs.node ∨ v = key'.rhs.node) := by
    intro v
    rw [← mem_support_conjoin h, heq, mem_support_conjoin h']
  have hlt := h.node_lt
  have hlt' := h'.node_lt
  have hl := (hmem key.lhs.node).mp (.inl rfl)
  have hr := (hmem key.rhs.node).mp (.inr rfl)
  have hlhs : key.lhs.node = key'.lhs.node := by omega
  have hrhs : key.rhs.node = key'.rhs.node := by omega
  -- the polarities are those that are true together
  obtain ⟨α, hα⟩ := h.exists_conjoin
  have hα' : conjoin key'.lhs key'.rhs α = true := heq ▸ hα
  rw [conjoin, Bool.and_eq_true] at hα hα'
  have heql : key.lhs = key'.lhs := eq_of_function hlhs (hα.1.trans hα'.1.symm)
  have heqr : key.rhs = key'.rhs := eq_of_function hrhs (hα.2.trans hα'.2.symm)
  cases key
  cases key'
  exact congr (congrArg AndKey.mk heql) heqr

/-! ### Canonical forms -/

/-- A gate that a conjunction takes has a canonical key. -/
lemma canonical_of_conjunction (h : conjunction f g = .gate key) : key.Canonical := by
  obtain ⟨hpos, hlt⟩ := lhs_lt_rhs_of_gate h
  have hl := key.lhs.code_div_two
  have hr := key.rhs.code_div_two
  refine ⟨(Signal.lt_iff_code_lt _ _).mpr ?_, ?_, ?_, ?_⟩ <;> omega

/-- The canonical form has the function of the conjunction. -/
lemma ofForm_freeValues (f g : Signal) (α : Nat → Bool) :
    Connectives.bool.ofForm (freeValues α) (conjunction f g) = conjoin f g α :=
  Connectives.ofForm_conjunction Connectives.bool_lawful (Function.update_self 0 false α) f g

lemma function_of_folded (h : conjunction f g = .folded s) : s.function = conjoin f g := by
  funext α
  rw [← ofForm_freeValues, h]
  rfl

lemma conjoin_of_gate (h : conjunction f g = .gate key) :
    conjoin key.lhs key.rhs = conjoin f g := by
  funext α
  rw [← ofForm_freeValues f g, h]
  rfl

/-- **A conjunction folds to the signal that has its function**, if there is one. -/
theorem conjunction_eq_folded_iff :
    conjunction f g = .folded s ↔ s.function = conjoin f g := by
  refine ⟨function_of_folded, fun hs => ?_⟩
  cases hform : conjunction f g with
  | folded t => rw [Signal.function_injective ((function_of_folded hform).trans hs.symm)]
  | gate key =>
      exact absurd (hs.trans (conjoin_of_gate hform).symm)
        ((canonical_of_conjunction hform).function_ne s)

/-- **A conjunction takes the gate whose key has its function**, if there is a canonical one. -/
theorem conjunction_eq_gate_iff :
    conjunction f g = .gate key ↔ key.Canonical ∧ conjoin key.lhs key.rhs = conjoin f g := by
  refine ⟨fun h => ⟨canonical_of_conjunction h, conjoin_of_gate h⟩, fun ⟨hkey, hfun⟩ => ?_⟩
  cases hform : conjunction f g with
  | folded s => exact absurd ((function_of_folded hform).trans hfun.symm) (hkey.function_ne s)
  | gate key' =>
      rw [(canonical_of_conjunction hform).eq_of_conjoin hkey
        ((conjoin_of_gate hform).trans hfun.symm)]

/-- **The canonical form of a conjunction is exact.**  It is a signal exactly when the function of
the conjunction is that of a signal, and of that one.  Otherwise it is a gate, with the one
canonical key that has the function, so two conjunctions that need a gate share it exactly when
they are equal for all values of the nodes. -/
theorem conjunction_exact (f g : Signal) :
    (∀ s, conjunction f g = .folded s ↔ s.function = conjoin f g) ∧
    ((∃ key, conjunction f g = .gate key) ↔ ∀ s : Signal, s.function ≠ conjoin f g) ∧
    (∀ key, conjunction f g = .gate key ↔
      key.Canonical ∧ conjoin key.lhs key.rhs = conjoin f g) ∧
    ∀ f' g' key key', conjunction f g = .gate key → conjunction f' g' = .gate key' →
      (key = key' ↔ conjoin f g = conjoin f' g') := by
  refine ⟨fun s => conjunction_eq_folded_iff, ⟨?_, ?_⟩, fun key => conjunction_eq_gate_iff, ?_⟩
  · rintro ⟨key, hkey⟩ s hs
    rw [← conjunction_eq_folded_iff, hkey] at hs
    cases hs
  · intro hnone
    cases hform : conjunction f g with
    | folded s => exact absurd (function_of_folded hform) (hnone s)
    | gate key => exact ⟨key, rfl⟩
  · intro f' g' key key' h h'
    rw [← conjoin_of_gate h, ← conjoin_of_gate h']
    refine ⟨fun heq => heq ▸ rfl, ?_⟩
    exact (canonical_of_conjunction h).eq_of_conjoin (canonical_of_conjunction h')

end AndInverter
