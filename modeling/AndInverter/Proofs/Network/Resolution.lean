import AndInverter.Proofs.Network.Substitution
import AndInverter.Proofs.Network.Termination

/-!
The renaming of a substitution.  A new entry leads to the end of a way, and it is made for
another node than that, so it closes no cycle.  This does not depend on the network, which may
be as broken as it likes, nor on which entries were overwritten before.

* `Serving.Step.settled`: a step leaves a settled renaming settled;
* `Network.Renames`: the renamings that a substitution goes through, and `Renames.settled`;
* `substitute_comesTo`: whatever comes out of a substitution, a run of steps leads to it;
* `substitute_renamings_acyclic`: none of the renamings has a cycle, and every signal is resolved.
-/

namespace AndInverter

open Network Relation Serving

variable {n m : Network} {old v : Nat} {new : Signal} {f : Fault} {r : Renaming}

namespace Serving

variable {x y : Serving} {k : Nat}

/-- **A step leaves a settled renaming settled.** -/
lemma Step.settled (h : Step x y) (hx : ∃ keys, x.moved.SettledBy keys) :
    ∃ keys, y.moved.SettledBy keys := by
  obtain @⟨n, m, req, rest, followUps, moved, moved', skipped, hserve⟩ := h
  obtain ⟨keys, hkeys⟩ := hx
  obtain ⟨-, -, rfl, -⟩ | ⟨-, hne, rfl, -⟩ := serve_cases hserve
  · exact ⟨keys, hkeys⟩
  · exact ⟨_, hkeys.insert_resolve hne⟩

/-- The state after so many steps. -/
def after? (x : Serving) : Nat → Option Serving
  | 0 => some x
  | k + 1 => (x.after? k).bind next?

lemma run_of_after? (h : x.after? k = some y) : ReflTransGen Step x y := by
  induction k generalizing y with
  | zero =>
      cases h
      exact .refl
  | succ k ih =>
      obtain ⟨z, hz, hnext⟩ := Option.bind_eq_some_iff.mp h
      exact .tail (ih hz) (step_iff.mpr hnext)

end Serving

/-! ### The renamings of a substitution -/

/-- In whatever state a substitution is, its renaming is settled. -/
lemma Network.Reaches.settled {x : Serving} (h : n.Reaches old new x) :
    ∃ keys, x.moved.SettledBy keys := by
  obtain ⟨uses, n₁, -, hrun⟩ := h
  induction hrun with
  | refl => exact ⟨[], Renaming.settledBy_empty⟩
  | tail _ hstep ih => exact hstep.settled ih

/-- **The renamings that a substitution goes through**: the one with which it takes up a request,
and the one that has an entry for that request from the middle of its service on. -/
inductive Network.Renames (n : Network) (old : Nat) (new : Signal) : Renaming → Prop
  | before {x : Serving} (h : n.Reaches old new x) : n.Renames old new x.moved
  | amid {x : Serving} {req : Request} {rest : List Request} (h : n.Reaches old new x)
      (hqueue : x.queue = req :: rest) (hlive : x.network.isLive req.node = true)
      (hne : (x.moved.resolve req.target).node ≠ req.node) :
    n.Renames old new (x.moved.insert req.node (x.moved.resolve req.target))

lemma Network.Renames.settled (h : n.Renames old new r) : ∃ keys, r.SettledBy keys := by
  cases h with
  | before hreached => exact hreached.settled
  | amid hreached _ _ hne =>
      obtain ⟨keys, hkeys⟩ := hreached.settled
      exact ⟨_, hkeys.insert_resolve hne⟩

/-- To count a use leaves the network alone where it fails. -/
lemma eq_of_raiseFanout_eq_error (h : Edit.raiseFanout v n = .error f m) : m = n := by
  rcases bind_eq_error.mp h with h | ⟨s, _, hslot, h⟩
  · exact (Edit.query_eq_error.mp h).2.symm
  · obtain ⟨-, rfl⟩ := Edit.slot_eq_ok.mp hslot
    split_ifs at h
    · rcases bind_eq_error.mp h with h | ⟨_, _, -, h⟩
      · exact absurd h Edit.update_ne_error
      · exact absurd h pure_ne_error
    · exact (throw_eq_error.mp h).2.symm

/-- **Whatever comes out of a substitution**, it was refused at the beginning or comes out of a
state that was reached. -/
lemma substitute_comesTo (n : Network) (old : Nat) (new : Signal) :
    (∃ f, Edit.substitute old new n = .error f n) ∨
      ∃ x, n.Reaches old new x ∧ x.Halts (Edit.substitute old new n) := by
  cases hold : n.requireLive .substitute old with
  | error f =>
      left
      exact ⟨f, bind_eq_error.mpr (.inl (Edit.query_eq_error.mpr ⟨hold, rfl⟩))⟩
  | ok _ =>
  cases hnew : n.requireLive .substitute new.node with
  | error f =>
      left
      refine ⟨f, bind_eq_error.mpr (.inr ⟨_, _, Edit.query_eq_ok.mpr ⟨hold, rfl⟩, ?_⟩)⟩
      exact bind_eq_error.mpr (.inl (Edit.query_eq_error.mpr ⟨hnew, rfl⟩))
  | ok _ =>
  cases hraise : Edit.raiseFanout new.node n with
  | error f m =>
      left
      obtain rfl := eq_of_raiseFanout_eq_error hraise
      refine ⟨f, bind_eq_error.mpr (.inr ⟨_, _, Edit.query_eq_ok.mpr ⟨hold, rfl⟩, ?_⟩)⟩
      refine bind_eq_error.mpr (.inr ⟨_, _, Edit.query_eq_ok.mpr ⟨hnew, rfl⟩, ?_⟩)
      exact bind_eq_error.mpr (.inl hraise)
  | ok uses n₁ =>
      right
      have hrun : Edit.substitute old new n
          = Edit.serveAll ((n₁.size + 1) * (n₁.size + n₁.outputs.size + 2)) 0 [⟨old, new⟩] ∅ n₁ := by
        simp only [Edit.substitute, Edit.query, Edit.view, bind, EStateM.bind, hold, hnew, hraise]
      obtain ⟨x, hsteps, hhalts⟩ := serveAll_comesTo
        ((n₁.size + 1) * (n₁.size + n₁.outputs.size + 2)) 0 ⟨n₁, [⟨old, new⟩], ∅, []⟩
      exact ⟨x, ⟨uses, n₁, hraise, hsteps⟩, hrun ▸ hhalts⟩

/-- **An entry may be overwritten**: here a gate is requested to be replaced by each of two others
before the first of these requests is served. -/
lemma exists_overwritten : ∃ (n : Network) (old : Nat) (new : Signal) (x y : Serving) (v : Nat)
    (t u : Signal), n.Reaches old new x ∧ Step x y ∧ x.moved[v]? = some t ∧
      y.moved[v]? = some u ∧ t ≠ u := by
  -- the fourth request sends node 12 to node 14, and the sixth one sends it to node 15
  have hrun : (match Edit.raiseFanout 3 entangled with
    | .ok _ n₁ => ((⟨n₁, [⟨7, .ofNode 3⟩], ∅, []⟩ : Serving).after? 5).any fun x =>
        x.moved[12]? = some (.ofNode 14) ∧
          x.next?.any fun y => y.moved[12]? = some (.ofNode 15)
    | .error _ _ => false) = true := by decide +kernel
  cases hraise : Edit.raiseFanout 3 entangled with
  | error f m => simp [hraise] at hrun
  | ok uses n₁ =>
      simp only [hraise, Option.any_eq_true, decide_eq_true_eq] at hrun
      obtain ⟨x, hx, ht, y, hy, hu⟩ := hrun
      exact ⟨entangled, 7, .ofNode 3, x, y, 12, .ofNode 14, .ofNode 15,
        ⟨uses, n₁, hraise, run_of_after? hx⟩, step_iff.mpr hy, ht, hu, by decide⟩

/-- **Renamings never have a cycle**, whatever the network is and whichever node is to become
which signal: from every signal the entries lead on to a node that has none, after finitely many
of them, and that is what the signal is resolved to.  These are all renamings that there are, as
every call is refused or goes through them until it stops, and entries do get overwritten. -/
theorem substitute_renamings_acyclic :
    (∀ (n : Network) (old : Nat) (new : Signal) (r : Renaming), n.Renames old new r →
      r.Acyclic ∧ ∀ s, r.Resolves s (r.resolve s) ∧ (r.resolve s).node ∉ r) ∧
    (∀ (n : Network) (old : Nat) (new : Signal),
      (∃ f, Edit.substitute old new n = .error f n) ∨
        ∃ x, n.Reaches old new x ∧ x.Halts (Edit.substitute old new n)) ∧
    ∃ (n : Network) (old : Nat) (new : Signal) (x y : Serving) (v : Nat) (t u : Signal),
      n.Reaches old new x ∧ Step x y ∧ x.moved[v]? = some t ∧ y.moved[v]? = some u ∧ t ≠ u := by
  refine ⟨fun n old new r hr => ?_, substitute_comesTo, exists_overwritten⟩
  obtain ⟨keys, hkeys⟩ := hr.settled
  exact ⟨hkeys.acyclic, fun s => ⟨hkeys.resolves s, Renaming.resolve_notMem hkeys s⟩⟩

end AndInverter
