import Std.Data.ExtTreeMap
import AndInverter.Signal

/-!
The canonical form of a two-input conjunction.  A conjunction either folds to a signal that
exists already or needs a gate, and then its operands have one order.

* `conjunction` computes the form;
* `conjunction_comm`: the order of the operands does not matter;
* `lhs_lt_rhs_of_gate`: a gate has two distinct operand nodes, the smaller first, and
  neither is the constant.
-/

namespace AndInverter

/-- **A gate key**: the operands of a gate, in their canonical order. -/
structure AndKey where
  lhs : Signal
  rhs : Signal
deriving DecidableEq, Inhabited

/-- Keys are ordered by the numbers of their operands, the first one first. -/
instance : Ord AndKey := ⟨compareLex (compareOn (·.lhs.code)) (compareOn (·.rhs.code))⟩

instance : Std.TransOrd AndKey :=
  inferInstanceAs <| Std.TransCmp <|
    compareLex (compareOn fun k : AndKey => k.lhs.code) (compareOn (·.rhs.code))

instance : Std.LawfulEqOrd AndKey where
  eq_of_compare {k l} h := by
    have hcodes : (compare k.lhs.code l.lhs.code).then (compare k.rhs.code l.rhs.code) = .eq := h
    rw [Ordering.then_eq_eq, Nat.compare_eq_eq, Nat.compare_eq_eq] at hcodes
    cases k
    cases l
    exact congr (congrArg AndKey.mk (Signal.code_inj hcodes.1)) (Signal.code_inj hcodes.2)

/-- What the conjunction of two signals amounts to. -/
inductive AndForm where
  /-- The conjunction is this signal. -/
  | folded (signal : Signal)
  /-- The conjunction takes a gate with this key. -/
  | gate (key : AndKey)
deriving DecidableEq

/-- The conjunction of two signals given in order: a constant comes first, so only the first
operand has to be tested for it. -/
def AndForm.ofOrdered (l r : Signal) : AndForm :=
  if l.node = 0 then
    if l.complemented then .folded r else .folded .zero
  else if l.node = r.node then
    if l.complemented = r.complemented then .folded l else .folded .zero
  else
    .gate ⟨l, r⟩

/-- The canonical form of the conjunction of `f` and `g`. -/
def conjunction (f g : Signal) : AndForm :=
  if f ≤ g then .ofOrdered f g else .ofOrdered g f

/-- The order of the operands does not matter. -/
theorem conjunction_comm (f g : Signal) : conjunction f g = conjunction g f := by
  simp only [conjunction, Signal.le_iff_code_le]
  split <;> split
  · have h : f = g := Signal.code_inj (by omega)
    rw [h]
  · rfl
  · rfl
  · omega

/-- The operands of a gate are in order, on distinct nodes, and not constant. -/
theorem lhs_lt_rhs_of_gate {f g : Signal} {k : AndKey} (h : conjunction f g = .gate k) :
    0 < k.lhs.node ∧ k.lhs.node < k.rhs.node := by
  have key : ∀ l r : Signal, l.code ≤ r.code → AndForm.ofOrdered l r = .gate k →
      0 < k.lhs.node ∧ k.lhs.node < k.rhs.node := by
    intro l r hle hg
    have hl := l.code_div_two
    have hr := r.code_div_two
    simp only [AndForm.ofOrdered] at hg
    split at hg
    · split at hg <;> cases hg
    · split at hg
      · split at hg <;> cases hg
      · cases hg
        constructor
        · simp only
          omega
        · simp only
          omega
  simp only [conjunction, Signal.le_iff_code_le] at h
  split at h
  · exact key f g (by assumption) h
  · exact key g f (by omega) h

end AndInverter
