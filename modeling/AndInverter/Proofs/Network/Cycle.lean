import AndInverter.Proofs.Expression
import AndInverter.Proofs.Network.Substitution

/-!
Where a substitution may close a cycle.  Read the replaced node as its replacement, in all
expressions.  Where the conjunction of the fan-ins of a gate is a new expression then, the gate
is higher than its fan-ins, so no cycle consists of such gates alone.

* `Network.LeftBehind`: the other gates, which a substitution should have replaced too;
* `substitute_acyclic_iff`: a substitution keeps a network acyclic if and only if no gate that
  it left behind depends on itself.
-/

namespace AndInverter

open Expression Network Relation Serving

variable {n m : Network} {g k old v : Nat} {new : Signal}

/-- A substitution of a node that no gate reads rewires no gate. -/
lemma substitute_reads_of_unread (hn : n.WellFormed) (hne : new.node ≠ old)
    (hunread : ∀ g, ¬ n.Reads g old) (hrun : Edit.substitute old new n = .ok k m)
    (hread : m.Reads g v) : n.Reads g v := by
  obtain ⟨hlive, hnew, uses, n₁, hraise, hends⟩ := substitute_run hrun
  obtain ⟨moved, skipped, hsteps⟩ := hends []
  have hmoves : n.Moves n₁ old new := moves_of_raise hnew hraise
  obtain ⟨l, followUps, -, ⟨mid, hmid, hret⟩, hfollows, hrest⟩ := head_of_run hsteps
    (valid_start hn hnew hraise) ((hmoves.isLive old).trans hlive) hne
  have hunread₁ : ∀ g, ¬ n₁.Reads g old := fun g hg => hunread g (hmoves.reads_old hg)
  have hnone : followUps = [] :=
    List.eq_nil_iff_forall_not_mem.mpr fun r hr => hunread₁ r.node (hfollows r hr).reads
  subst hnone
  obtain rfl : l = m := by
    rcases hrest.cases_head with heq | ⟨y, hstep, -⟩
    · cases heq
      rfl
    · cases hstep
  have hread₁ := (hmid.reads g v (hret.reads hread)).resolve_right fun h => hunread₁ g h.1
  exact (hmoves.reads g v hread₁).resolve_right fun h => hunread g h.1

namespace Network

/-- The expression behind a signal, where the node `old` is read as `new`. -/
def identified (n : Network) (old : Nat) (new s : Signal) : Signal :=
  (n.renamed (n.expression old) (n.expressionOf new) s.node).complementIf s.complemented

/-- **A gate that was left behind** when `old` was replaced by `new`: if `old` is read as `new`,
the conjunction of its fan-ins folds, or it is the one that `old` was. -/
def LeftBehind (n : Network) (old : Nat) (new : Signal) (m : Network) (g : Nat) : Prop :=
  ∃ a b, m.Gate g a b ∧ ∀ key,
    conjunction (n.identified old new a) (n.identified old new b) = .gate key →
      ofKey key = n.expression old

/-- A gate that was not left behind is higher than its fan-ins. -/
lemma height_lt_of_not_leftBehind {α : Nat → Signal}
    (hφ : (Connectives.expressions
      (rename (n.expression old) (n.expressionOf new) ∘ ofKey)).Models α
        (n.renamed (n.expression old) (n.expressionOf new)) m)
    (hg : ¬ n.LeftBehind old new m g) (hread : m.Reads g v) :
    height (n.renamed (n.expression old) (n.expressionOf new) v).node
      < height (n.renamed (n.expression old) (n.expressionOf new) g).node := by
  obtain ⟨a, b, hgate, hv⟩ := hread
  obtain ⟨key, hform, hne⟩ : ∃ key,
      conjunction (n.identified old new a) (n.identified old new b) = .gate key ∧
        ofKey key ≠ n.expression old := by
    by_contra hno
    exact hg ⟨a, b, hgate, fun key hkey => by_contra fun hne => hno ⟨key, hkey, hne⟩⟩
  have hvalue : n.renamed (n.expression old) (n.expressionOf new) g = ofKey key :=
    calc n.renamed (n.expression old) (n.expressionOf new) g
        = rename (n.expression old) (n.expressionOf new) (ofKey key) :=
          hφ.value_of_gate hgate hform
      _ = ofKey key := rename_of_ne hne
  rw [hvalue, height_ofKey]
  rcases key_of_conjunction hform with rfl | rfl <;> rcases hv with rfl | rfl <;>
    simp only [identified, Signal.node_complementIf] <;> omega

end Network

/-- **Exactly when a substitution keeps a network acyclic**: no gate that it left behind depends
on itself. -/
theorem substitute_acyclic_iff (hn : n.WellFormed) (hacyclic : n.Acyclic)
    (hcone : ¬ n.DependsOn new.node old) (hrun : Edit.substitute old new n = .ok k m) :
    m.Acyclic ↔ ∀ g, n.LeftBehind old new m g → ¬ TransGen m.Reads g g := by
  refine ⟨fun h g _ => h g, ?_⟩
  intro hclean
  obtain ⟨hold, hnew, -⟩ := substitute_run hrun
  by_cases h0 : old = 0
  · refine hacyclic.mono fun g v =>
      substitute_reads_of_unread hn (fun hs => hcone (hs ▸ .refl)) ?_ hrun
    rintro i ⟨a, b, hi, hv⟩
    have hord := hn.ordered i a b hi
    omega
  · have hvalue := renamed_eq hn hacyclic hold h0 hnew hcone
    rw [← Connectives.read_expressions] at hvalue
    obtain ⟨hφ, -⟩ := substitute_models hn hrun (Connectives.expressions_lawful _)
      (models_renamed (n.expression old) (n.expressionOf new) hn hacyclic) hvalue
    refine acyclic_of_rank
      (fun v => height (n.renamed (n.expression old) (n.expressionOf new) v).node) ?_
    intro g v hread hback
    refine height_lt_of_not_leftBehind hφ ?_ hread
    intro hleft
    exact hclean g hleft (.head' hread hback)

end AndInverter
