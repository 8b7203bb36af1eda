import AndInverter.Proofs.Expression
import AndInverter.Proofs.Network.Construction

/-!
Weights.  Write the cone of a node out as a tree and let each gate of the tree weigh 16 to the
power of its level: then a gate outweighs a dozen gates one level below it, and a tree weighs
less than two gates of its level.

* `Expression.weight`: the weight of an expression, and `weight_lt`: its bound;
* `Network.weight`: the weight of a node, and `IsAnd.weight_le`: that of a conjunction;
* `Network.weight_renamed_lt`: a lighter name for an expression makes the nodes above it lighter.
-/

namespace AndInverter

/-! ### Weights of expressions -/

namespace Expression

/-- **The weight of an expression**: 16 to the power of its height for each conjunction that it
is written with. -/
def weight (e : Nat) : Nat :=
  if e % 2 = 1 then
    16 ^ height e + weight ((Nat.unpair (e / 2)).1 / 2) + weight ((Nat.unpair (e / 2)).2 / 2)
  else 0
termination_by e
decreasing_by
  · have := Nat.unpair_left_le (e / 2)
    omega
  · have := Nat.unpair_right_le (e / 2)
    omega

lemma weight_of_even {e : Nat} (h : e % 2 = 0) : weight e = 0 := by
  rw [weight, if_neg (by omega)]

lemma weight_ofInput (i : Nat) : weight (ofInput i).node = 0 :=
  weight_of_even (by simp only [ofInput, Signal.ofNode]; omega)

lemma weight_ofKey (key : AndKey) : weight (ofKey key).node
    = 16 ^ height (ofKey key).node + weight key.lhs.node + weight key.rhs.node := by
  have hodd : (ofKey key).node % 2 = 1 := by simp only [ofKey, Signal.ofNode]; omega
  have hhalf : (ofKey key).node / 2 = Nat.pair key.lhs.code key.rhs.code := by
    simp only [ofKey, Signal.ofNode]
    omega
  rw [weight, if_pos hodd, hhalf, Nat.unpair_pair, Signal.code_div_two, Signal.code_div_two]

/-- A gate outweighs sixteen gates on a lower level. -/
lemma sixteen_mul_pow_le {x y : Nat} (h : x < y) : 16 * 16 ^ x ≤ 16 ^ y := by
  rw [← Nat.pow_succ']
  exact Nat.pow_le_pow_right (by omega) h

/-- **An expression weighs less than two gates of its height.** -/
theorem weight_lt (e : Nat) : weight e < 2 * 16 ^ height e := by
  induction e using weight.induct with
  | case1 e hodd ihl ihr =>
      have hheight : height e = 1 + max (height ((Nat.unpair (e / 2)).1 / 2))
          (height ((Nat.unpair (e / 2)).2 / 2)) := by
        rw [height, if_pos hodd]
      have hl := sixteen_mul_pow_le
        (show height ((Nat.unpair (e / 2)).1 / 2) < height e by omega)
      have hr := sixteen_mul_pow_le
        (show height ((Nat.unpair (e / 2)).2 / 2) < height e by omega)
      rw [weight, if_pos hodd]
      omega
  | case2 e heven =>
      rw [weight, if_neg heven]
      exact Nat.mul_pos (by omega) (Nat.pow_pos (by omega))

variable {e e' s : Signal}

/-- A name that is not heavier makes no expression heavier. -/
lemma weight_rename_le (h : weight e'.node ≤ weight e.node) (s : Signal) :
    weight (rename e e' s).node ≤ weight s.node := by
  by_cases hs : s = e
  · rw [hs, rename_self]
    exact h
  · rw [rename_of_ne hs]

end Expression

open Expression

/-- The conjunction of two expressions weighs one gate more than both, at most, as long as this
holds of the new names. -/
lemma Connectives.weight_meet_le {name : AndKey → Signal} {f g : Signal}
    (hname : ∀ key, Expression.weight (name key).node ≤ Expression.weight (ofKey key).node) :
    Expression.weight ((expressions name).meet f g).node
      ≤ 16 ^ (1 + max (height f.node) (height g.node))
        + Expression.weight f.node + Expression.weight g.node := by
  cases hform : conjunction f g with
  | folded s =>
      rw [meet_of_folded hform]
      rcases node_of_conjunction_folded hform with h0 | rfl | rfl
      · rw [h0, weight_of_even rfl]
        exact Nat.zero_le _
      · exact Nat.le_add_right_of_le (Nat.le_add_left _ _)
      · exact Nat.le_add_left _ _
  | gate key =>
      rw [meet_of_gate hform]
      refine (hname key).trans ?_
      rw [weight_ofKey, height_ofKey]
      rcases key_of_conjunction hform with rfl | rfl
      · exact le_rfl
      · rw [max_comm]
        simp only
        omega

namespace Network

variable {n m : Network} {g u v : Nat} {a b s e e' : Signal} {pins : Multiset Nat}

/-! ### Weights of nodes -/

/-- **The weight of a node** is that of its expression. -/
def weight (n : Network) (v : Nat) : Nat := Expression.weight (n.expression v).node

section Weights

variable (hn : n.WellFormed) (h : n.Acyclic)

include hn h

lemma weight_of_not_gate (hv : n.isLive v = true) (hgate : ¬ n.isLiveGate v = true) :
    n.weight v = 0 := by
  rw [weight]
  rcases expression_source hn h hv hgate with ⟨-, hv'⟩ | ⟨i, -, hv'⟩ <;> rw [hv']
  · exact weight_of_even rfl
  · exact weight_ofInput i

/-- **A gate weighs** what its level counts, and what its fan-ins weigh. -/
theorem weight_gate (hg : n.Gate g a b) :
    n.weight g = 16 ^ n.level g + n.weight a.node + n.weight b.node := by
  obtain ⟨key, hkey, hform⟩ := expression_gate hn h hg
  have hends : Expression.weight key.lhs.node + Expression.weight key.rhs.node
      = n.weight a.node + n.weight b.node := by
    rcases key_of_conjunction hform with rfl | rfl
    · rfl
    · exact Nat.add_comm _ _
  rw [weight, ← height_expression hn h hg.isLive, hkey, weight_ofKey]
  omega

/-- A node weighs less than two gates of its level. -/
lemma weight_lt (hv : n.isLive v = true) : n.weight v < 2 * 16 ^ n.level v := by
  rw [← height_expression hn h hv]
  exact Expression.weight_lt _

/-- **A conjunction** weighs one gate more than its operands, at most. -/
theorem IsAnd.weight_le (hand : n.IsAnd a b s) : n.weight s.node
    ≤ 16 ^ (1 + max (n.level a.node) (n.level b.node)) + n.weight a.node + n.weight b.node := by
  rcases hand with hform | ⟨key, hform, -, hgate⟩
  · rcases node_of_conjunction_folded hform with h0 | rfl | rfl
    · have hzero : ¬ n.isLiveGate 0 = true := by
        intro hg
        obtain ⟨c, d, hg⟩ := isLiveGate_iff.mp hg
        exact hn.ne_zero_of_gate hg rfl
      rw [h0, weight_of_not_gate hn h hn.isLive_zero hzero]
      exact Nat.zero_le _
    · exact Nat.le_add_right_of_le (Nat.le_add_left _ _)
    · exact Nat.le_add_left _ _
  · rw [weight_gate hn h hgate, level_gate h hgate]
    rcases key_of_conjunction hform with rfl | rfl
    · exact le_rfl
    · rw [max_comm]
      simp only
      omega

/-- The expression of a gate, where the expressions of its fan-ins have new names, weighs no more
than its level and these names allow. -/
lemma weight_renamed_gate_le (hheight : height e'.node ≤ height e.node)
    (hweight : Expression.weight e'.node ≤ Expression.weight e.node) (hg : n.Gate g a b) :
    Expression.weight (n.renamed e e' g).node ≤ 16 ^ n.level g
      + Expression.weight (n.renamed e e' a.node).node
      + Expression.weight (n.renamed e e' b.node).node := by
  obtain ⟨hla, hlb⟩ := hn.fanIns_live g a b hg
  have ha := height_renamed_le hheight hn h hla
  have hb := height_renamed_le hheight hn h hlb
  have hpow : 16 ^ (1 + max (height (n.renamed e e' a.node).node)
      (height (n.renamed e e' b.node).node)) ≤ 16 ^ n.level g := by
    rw [level_gate h hg]
    exact Nat.pow_le_pow_right (by omega) (by omega)
  have hname : ∀ key, Expression.weight ((rename e e' ∘ ofKey) key).node
      ≤ Expression.weight (ofKey key).node := fun key => weight_rename_le hweight (ofKey key)
  have hmeet := Connectives.weight_meet_le hname
    (f := (n.renamed e e' a.node).complementIf a.complemented)
    (g := (n.renamed e e' b.node).complementIf b.complemented)
  rw [(models_renamed e e' hn h).gate g a b hg, Connectives.read_expressions,
    Connectives.read_expressions]
  simp only [Signal.node_complementIf] at hmeet
  exact hmeet.trans (by omega)

/-- Under a name that is neither higher nor heavier, no node is heavier than before. -/
lemma weight_renamed_le (hheight : height e'.node ≤ height e.node)
    (hweight : Expression.weight e'.node ≤ Expression.weight e.node) (hv : n.isLive v = true) :
    Expression.weight (n.renamed e e' v).node ≤ n.weight v := by
  have hφ := models_renamed e e' hn h
  revert hv
  refine h.induction (P := fun v => n.isLive v = true →
    Expression.weight (n.renamed e e' v).node ≤ n.weight v) ?_ v
  intro v ih hv
  by_cases hgate : n.isLiveGate v = true
  · obtain ⟨a, b, hg⟩ := isLiveGate_iff.mp hgate
    obtain ⟨hla, hlb⟩ := hn.fanIns_live v a b hg
    have ha := ih a.node hg.reads_left hla
    have hb := ih b.node hg.reads_right hlb
    have hgate := weight_renamed_gate_le hn h hheight hweight hg
    rw [weight_gate hn h hg]
    omega
  · rcases expression_source hn h hv hgate with ⟨rfl, -⟩ | ⟨i, hi, -⟩
    · rw [hφ.zero]
      exact (weight_of_even rfl).trans_le (Nat.zero_le _)
    · rw [hφ.input i v hi]
      exact ((weight_rename_le hweight _).trans_eq (weight_ofInput i)).trans (Nat.zero_le _)

/-- **A lighter name for a gate** makes every node lighter that depends on the gate. -/
theorem weight_renamed_lt (hheight : height e'.node ≤ height (n.expression g).node)
    (hweight : Expression.weight e'.node < n.weight g) (hg : n.isLiveGate g = true)
    (hdep : n.DependsOn v g) :
    Expression.weight (n.renamed (n.expression g) e' v).node < n.weight v := by
  obtain ⟨c, d, hgate⟩ := isLiveGate_iff.mp hg
  have hle : ∀ u, n.isLive u = true →
      Expression.weight (n.renamed (n.expression g) e' u).node ≤ n.weight u :=
    fun u hu => weight_renamed_le hn h hheight hweight.le hu
  -- down the way to the gate, one fan-in gets lighter and the other one no heavier
  induction hdep using Relation.ReflTransGen.head_induction_on with
  | refl =>
      rw [renamed_self hn h hgate.isLive (hn.ne_zero_of_gate hgate)]
      exact hweight
  | @head u w hread hrest ih =>
      obtain ⟨a, b, hu, hw⟩ := hread
      obtain ⟨hla, hlb⟩ := hn.fanIns_live u a b hu
      have hgate := weight_renamed_gate_le hn h hheight hweight.le hu
      have ha := hle a.node hla
      have hb := hle b.node hlb
      rw [weight_gate hn h hu]
      rcases hw with rfl | rfl <;> omega

end Weights

end Network

end AndInverter
