import Mathlib.Tactic
import AndInverter.Conjunction

/-!
When a conjunction folds and when it takes a gate.

* `key_of_conjunction`: the key of a gate is made of the two operands;
* `node_of_conjunction_folded`: what a conjunction folds to is the constant or an operand;
* `conjunction_zero` to `conjunction_not`: the conjunctions that fold, and
  `conjunction_of_ne`: those that do not.
-/

namespace AndInverter

variable {f g s : Signal} {key : AndKey} {v : Nat}

lemma key_of_ofOrdered {l r : Signal} (h : AndForm.ofOrdered l r = .gate key) :
    key = ⟨l, r⟩ := by
  simp only [AndForm.ofOrdered] at h
  split_ifs at h
  exact (AndForm.gate.inj h).symm

/-- The key of a gate that a conjunction takes is made of its operands. -/
lemma key_of_conjunction (h : conjunction f g = .gate key) : key = ⟨f, g⟩ ∨ key = ⟨g, f⟩ := by
  rw [conjunction] at h
  split at h
  · exact .inl (key_of_ofOrdered h)
  · exact .inr (key_of_ofOrdered h)

/-- The fan-ins of the gate that a conjunction takes are among its operands. -/
lemma node_of_conjunction_gate (h : conjunction f g = .gate key)
    (hv : v = key.lhs.node ∨ v = key.rhs.node) : v = f.node ∨ v = g.node := by
  rcases key_of_conjunction h with rfl | rfl
  · exact hv
  · exact hv.symm

/-- What holds of both operands holds of both fan-ins. -/
lemma fanIns_of_conjunction_gate {P : Nat → Prop} (h : conjunction f g = .gate key)
    (hf : P f.node) (hg : P g.node) : P key.lhs.node ∧ P key.rhs.node := by
  rcases key_of_conjunction h with rfl | rfl
  · exact ⟨hf, hg⟩
  · exact ⟨hg, hf⟩

/-- A signal to which a conjunction folds is the constant or one of the operands. -/
lemma node_of_conjunction_folded {f g : Signal} (h : conjunction f g = .folded s) :
    s.node = 0 ∨ s = f ∨ s = g := by
  have hform : ∀ l r : Signal, AndForm.ofOrdered l r = .folded s →
      s.node = 0 ∨ s = l ∨ s = r := by
    intro l r hlr
    simp only [AndForm.ofOrdered] at hlr
    split_ifs at hlr with h₁ h₂ h₃ h₄ <;> cases AndForm.folded.inj hlr
    · exact .inr (.inr rfl)
    · exact .inl rfl
    · exact .inr (.inl rfl)
    · exact .inl rfl
  rw [conjunction] at h
  split at h
  · exact hform f g h
  · rcases hform g f h with h0 | hg | hf
    · exact .inl h0
    · exact .inr (.inr hg)
    · exact .inr (.inl hf)

lemma conjunction_of_le {f g : Signal} (h : f.code ≤ g.code) :
    conjunction f g = .ofOrdered f g := if_pos h

lemma conjunction_zero (s : Signal) : conjunction .zero s = .folded .zero := by
  rw [conjunction_of_le (Nat.zero_le _)]
  rfl

lemma conjunction_one (s : Signal) : conjunction .one s = .folded s := by
  rcases Nat.eq_zero_or_pos s.code with h | h
  · have hs : s = .zero := Signal.code_inj h
    rw [hs, conjunction_comm, conjunction_zero]
  · rw [conjunction_of_le (show Signal.one.code ≤ s.code from h)]
    rfl

lemma conjunction_self (s : Signal) : conjunction s s = .folded s := by
  rw [conjunction_of_le le_rfl, AndForm.ofOrdered]
  rcases s with ⟨v, c⟩
  cases c <;> by_cases hv : v = 0 <;> simp [hv, Signal.zero]

lemma conjunction_not (s : Signal) : conjunction s (~~~s) = .folded .zero := by
  by_cases hv : s.node = 0
  · rcases s with ⟨v, c⟩
    obtain rfl : v = 0 := hv
    cases c with
    | false => exact conjunction_zero _
    | true =>
        rw [conjunction_comm]
        exact conjunction_zero _
  · rw [conjunction]
    split <;> simp [AndForm.ofOrdered, hv]

/-- Signals on one node are equal or complements. -/
lemma eq_or_eq_not {t : Signal} (h : s.node = t.node) : s = t ∨ s = ~~~t := by
  rcases s with ⟨v, c⟩
  rcases t with ⟨w, d⟩
  obtain rfl : v = w := h
  rcases Bool.eq_or_eq_not c d with rfl | rfl
  · exact .inl rfl
  · exact .inr rfl

/-- Signals on distinct nodes, neither of them constant, need a gate. -/
lemma conjunction_of_ne {f g : Signal} (hf : f.node ≠ 0) (hg : g.node ≠ 0)
    (hne : f.node ≠ g.node) : conjunction f g = .gate ⟨f, g⟩ ∨ conjunction f g = .gate ⟨g, f⟩ := by
  rw [conjunction]
  split
  · left
    simp [AndForm.ofOrdered, hf, hne]
  · right
    simp [AndForm.ofOrdered, hg, Ne.symm hne]

end AndInverter
