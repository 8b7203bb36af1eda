import AndInverter.Proofs.History
import AndInverter.Proofs.Network.Evaluation

/-!
What a node is when its cone is written out as a tree.

* `Unfolding`: a tree over the constant and the inputs, and `Unfolding.Same`: two trees that are the
  same up to the order of the two halves of a pair;
* `Network.Unfolds`: the tree of a node, as far as it has one, and `Network.exists_unfolds_iff`: it
  has one exactly if no cycle is in its cone;
* `Network.Unfolds.node_unique`: no two nodes have the same tree;
* `history_unfolds_unique`: so it is in every network with a history.
-/

namespace AndInverter

open Network Relation

/-! ### Trees -/

/-- **A tree** of pairs, each half complemented or not, over the constant and the inputs. -/
inductive Unfolding where
  | constant
  | input (index : Nat)
  | pair (p : Bool) (s : Unfolding) (q : Bool) (t : Unfolding)
deriving DecidableEq

namespace Unfolding

/-- **The same tree**, where a pair has no first and no second half. -/
inductive Same : Unfolding → Unfolding → Prop
  | constant : Same .constant .constant
  | input (i : Nat) : Same (.input i) (.input i)
  | straight {p q : Bool} {s s' t t' : Unfolding} (hs : Same s s') (ht : Same t t') :
    Same (.pair p s q t) (.pair p s' q t')
  | crossed {p q : Bool} {s s' t t' : Unfolding} (hs : Same s s') (ht : Same t t') :
    Same (.pair p s q t) (.pair q t' p s')

lemma Same.refl : ∀ t : Unfolding, t.Same t
  | .constant => .constant
  | .input i => .input i
  | .pair _ s _ t => .straight (refl s) (refl t)

/-- The truth value of a tree. -/
def value (α : Nat → Bool) : Unfolding → Bool
  | .constant => false
  | .input i => α i
  | .pair p s q t => (s.value α ^^ p) && (t.value α ^^ q)

end Unfolding

namespace Network

variable {n : Network} {g u v : Nat} {a b c d : Signal} {s t : Unfolding} {α : Nat → Bool}
  {pins : Multiset Nat}

/-! ### Unfolding a node -/

/-- **The tree of a node**, as far as it has one. -/
inductive Unfolds (n : Network) : Nat → Unfolding → Prop
  | constant : n.Unfolds 0 .constant
  | input {i v : Nat} (h : n.inputs[i]? = some v) : n.Unfolds v (.input i)
  | gate {g : Nat} {a b : Signal} {s t : Unfolding} (h : n.Gate g a b)
      (ha : n.Unfolds a.node s) (hb : n.Unfolds b.node t) :
      n.Unfolds g (.pair a.complemented s b.complemented t)

/-- A node has the truth value of its tree. -/
lemma Unfolds.evaluates (h : n.Unfolds v t) : n.Evaluates α v (t.value α) := by
  induction h with
  | constant => exact .constant
  | input h => exact .input h
  | gate h _ _ iha ihb => exact .gate h iha ihb

/-- A node that is not above a cycle has a tree. -/
lemma exists_unfolds_of_shallow (hn : n.Consistent pins) {bound : Nat} (h : n.Shallow bound v)
    (hv : n.isLive v = true) : ∃ t, n.Unfolds v t := by
  induction bound generalizing v with
  | zero => exact h.elim
  | succ bound ih =>
      obtain ⟨k, hk⟩ := isLive_iff.mp hv
      have hkind : n.kind? v = some k := by rw [kind?, hk, Option.map_some]
      cases k with
      | constant =>
          obtain rfl := (hn.constant_iff v).mp hkind
          exact ⟨.constant, .constant⟩
      | input i => exact ⟨_, .input ((hn.input_iff i v).mpr hkind)⟩
      | gate a b =>
          have hg : n.Gate v a b := gate_iff.mpr hk
          obtain ⟨hla, hlb⟩ := hn.fanIns_live v a b hg
          obtain ⟨s, hs⟩ := ih (h a.node hg.reads_left) hla
          obtain ⟨t, ht⟩ := ih (h b.node hg.reads_right) hlb
          exact ⟨_, .gate hg hs ht⟩

/-- **Exactly the nodes that reach no cycle have a tree.** -/
theorem exists_unfolds_iff (hn : n.Consistent pins) (hv : n.isLive v = true) :
    (∃ t, n.Unfolds v t) ↔ ¬ n.ReachesCycle v := by
  constructor
  · rintro ⟨t, ht⟩ ⟨u, hdep, hcycle⟩
    exact (ht.evaluates (α := fun _ => false)).not_cycle hn u hdep hcycle
  · intro hno
    have hshallow : n.Shallow (n.size + 1) v := by
      by_contra hdeep
      exact hno (reachesCycle_of_not_shallow hdeep)
    exact exists_unfolds_of_shallow hn hshallow hv

/-- A node has one tree. -/
lemma Unfolds.tree_unique (hs : n.Unfolds v s) (hn : n.Consistent pins) (ht : n.Unfolds v t) :
    s = t := by
  induction hs generalizing t with
  | constant =>
      have hkind := (hn.constant_iff 0).mpr rfl
      cases ht with
      | constant => rfl
      | input hi => simp [(hn.input_iff _ _).mp hi] at hkind
      | gate hg => exact absurd rfl (hn.ne_zero_of_gate hg)
  | input hi =>
      have hkind := (hn.input_iff _ _).mp hi
      cases ht with
      | constant => simp [(hn.constant_iff 0).mpr rfl] at hkind
      | input hi' => simpa [(hn.input_iff _ _).mp hi'] using hkind.symm
      | gate hg => simp [Network.kind?, gate_iff.mp hg] at hkind
  | gate hg _ _ iha ihb =>
      cases ht with
      | constant => exact absurd rfl (hn.ne_zero_of_gate hg)
      | input hi =>
          have hkind := (hn.input_iff _ _).mp hi
          simp [Network.kind?, gate_iff.mp hg] at hkind
      | gate hg' hc hd =>
          obtain ⟨rfl, rfl⟩ := hg.unique hg'
          rw [iha hc, ihb hd]

/-! ### Telling nodes apart -/

/-- Two live gates with the same fan-ins, in either order, are the same. -/
lemma Consistent.gate_unique (hn : n.Consistent pins) (hu : n.Gate u a b)
    (hv : n.Gate v a b ∨ n.Gate v b a) : u = v := by
  rcases hv with hv | hv
  · exact hn.gate_injective hu hv
  · exact absurd (hn.ordered v b a hv).2 (Nat.lt_asymm (hn.ordered u a b hu).2)

/-- **Nodes with the same tree are the same**, in any consistent network. -/
theorem Unfolds.node_unique (hu : n.Unfolds u s) (hn : n.Consistent pins) (hv : n.Unfolds v t)
    (hsame : s.Same t) : u = v := by
  have hsignal : ∀ {a c : Signal}, a.node = c.node → a.complemented = c.complemented → a = c := by
    rintro ⟨_, _⟩ ⟨_, _⟩ rfl rfl
    rfl
  induction hu generalizing v t with
  | constant =>
      cases hsame
      cases hv
      rfl
  | input hi =>
      cases hsame
      cases hv with
      | input hi' => exact Option.some.inj (hi.symm.trans hi')
  | @gate g a b s₁ s₂ hg ha hb iha ihb =>
      generalize hp : a.complemented = p at hsame
      generalize hq : b.complemented = q at hsame
      cases hsame with
      | straight h₁ h₂ =>
          cases hv with
          | @gate _ c d _ _ hg' hc hd =>
              obtain rfl := hsignal (iha hc h₁) hp
              obtain rfl := hsignal (ihb hd h₂) hq
              exact hn.gate_unique hg (.inl hg')
      | crossed h₁ h₂ =>
          cases hv with
          | @gate _ c d _ _ hg' hc hd =>
              obtain rfl := hsignal (iha hd h₁) hp
              obtain rfl := hsignal (ihb hc h₂) hq
              exact hn.gate_unique hg (.inr hg')

end Network

/-- **No two nodes of a network with a history have the same tree**, up to the order of the halves:
the nodes with a tree are those that reach no cycle.  No two live gates have the same fan-ins,
whether they reach a cycle or not. -/
theorem history_unfolds_unique {m : Network} {steps : List Transition}
    (h : History .empty steps m) :
    (∀ u v s t, m.Unfolds u s → m.Unfolds v t → (s.Same t ↔ u = v)) ∧
      (∀ v, m.isLive v = true → ((∃ t, m.Unfolds v t) ↔ ¬ m.ReachesCycle v)) ∧
      ∀ u v a b, m.Gate u a b → m.Gate v a b ∨ m.Gate v b a → u = v := by
  obtain ⟨hm, -⟩ := history_regular h
  refine ⟨fun u v s t hu hv => ⟨hu.node_unique hm hv, ?_⟩, fun v => exists_unfolds_iff hm,
    fun u v a b => hm.gate_unique⟩
  rintro rfl
  exact hu.tree_unique hm hv ▸ .refl s

/-- Two conjunctions become the same one, and so do the two gates above them. -/
theorem history_unfolds_unique_of_cascade : ∃ steps m, History .empty steps m ∧
    m.isDead 6 = true ∧ m.isDead 8 = true ∧ m.isLive 7 = true ∧
      (∀ u v s t, m.Unfolds u s → m.Unfolds v t → (s.Same t ↔ u = v)) ∧
      (∀ v, m.isLive v = true → ((∃ t, m.Unfolds v t) ↔ ¬ m.ReachesCycle v)) ∧
      ∀ u v a b, m.Gate u a b → m.Gate v a b ∨ m.Gate v b a → u = v := by
  let n := Network.empty.assemble [.input, .input, .input, .input, .gate 2 4, .gate 2 6,
    .gate 8 10, .gate 8 12, .output 14, .output 17]
  obtain ⟨steps, hsteps⟩ : ∃ steps, History .empty steps n :=
    exists_history_assemble wellFormed_empty.1 _
  have hends : (match Edit.substitute 3 (.ofNode 2) n with
    | .ok _ m => m.isDead 6 && m.isDead 8 && m.isLive 7 | .error _ _ => false) = true := by
    decide +kernel
  have hcone : ¬ n.DependsOn 2 3 := fun hdep =>
    absurd (hdep.eq_of_not_gate (by decide +kernel)) (by decide)
  cases hrun : Edit.substitute 3 (.ofNode 2) n with
  | error => simp [hrun] at hends
  | ok k m =>
      simp only [hrun, Bool.and_eq_true] at hends
      obtain ⟨⟨h6, h8⟩, h7⟩ := hends
      have hlast : History n [⟨n, .substitute 3 (.ofNode 2), m⟩] m :=
        .cons ⟨by decide +kernel, by decide +kernel, hcone⟩ (.substitute hrun) .nil
      have hall := hsteps.append hlast
      exact ⟨_, m, hall, h6, h8, h7, history_unfolds_unique hall⟩

end AndInverter
