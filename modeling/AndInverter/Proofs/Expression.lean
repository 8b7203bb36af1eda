import Mathlib.Data.Nat.Pairing
import AndInverter.Proofs.Conjunction
import AndInverter.Proofs.Level

/-!
Expressions: what a node is when its cone is written out over the inputs.  Expressions are
numbered, and a complemented expression is a signal on its number, so the canonical form of a
conjunction is the canonical form of its expression.

* `Connectives.expressions`: the connectives of expressions, which are lawful even when some
  conjunction is given another name;
* `Network.expression_injective`: live nodes with the same expression are the same;
* `Expression.height`: the level of a node can be read off its expression;
* `Network.renamed`: expressions under another name for one of them, and
  `Network.renamed_eq`: how a node is identified with a signal.
-/

namespace AndInverter

/-! ### Numbers of expressions -/

namespace Expression

/-- The expression of an input. -/
def ofInput (i : Nat) : Signal := .ofNode (2 * i + 2)

/-- The expression of a conjunction with the given key. -/
def ofKey (key : AndKey) : Signal := .ofNode (2 * Nat.pair key.lhs.code key.rhs.code + 1)

lemma ofKey_injective {k l : AndKey} (h : (ofKey k).node = (ofKey l).node) : k = l := by
  have hpair : Nat.pair k.lhs.code k.rhs.code = Nat.pair l.lhs.code l.rhs.code := by
    simp only [ofKey, Signal.ofNode] at h
    omega
  obtain ⟨hl, hr⟩ := Nat.pair_eq_pair.mp hpair
  cases k
  cases l
  exact congr (congrArg AndKey.mk (Signal.code_inj hl)) (Signal.code_inj hr)

/-- The number of conjunctions on a longest way down in an expression. -/
def height (e : Nat) : Nat :=
  if e % 2 = 1 then
    1 + max (height ((Nat.unpair (e / 2)).1 / 2)) (height ((Nat.unpair (e / 2)).2 / 2))
  else 0
termination_by e
decreasing_by
  · have := Nat.unpair_left_le (e / 2)
    omega
  · have := Nat.unpair_right_le (e / 2)
    omega

lemma height_ofKey (key : AndKey) :
    height (ofKey key).node = 1 + max (height key.lhs.node) (height key.rhs.node) := by
  have hodd : (2 * Nat.pair key.lhs.code key.rhs.code + 1) % 2 = 1 := by omega
  have hhalf : (2 * Nat.pair key.lhs.code key.rhs.code + 1) / 2
      = Nat.pair key.lhs.code key.rhs.code := by omega
  rw [ofKey, Signal.ofNode, height, if_pos hodd, hhalf, Nat.unpair_pair, Signal.code_div_two,
    Signal.code_div_two]

lemma height_of_even {e : Nat} (h : e % 2 = 0) : height e = 0 := by
  rw [height, if_neg (by omega)]

lemma height_ofInput (i : Nat) : height (ofInput i).node = 0 :=
  height_of_even (by simp only [ofInput, Signal.ofNode]; omega)

/-- Calls one expression by another name. -/
def rename (e e' : Signal) : Signal → Signal := Function.update id e e'

variable {e e' s : Signal}

lemma rename_self : rename e e' e = e' := by rw [rename, Function.update_self]

lemma rename_of_ne (h : s ≠ e) : rename e e' s = s := by
  rw [rename, Function.update_of_ne h, id]

lemma height_rename_le (h : height e'.node ≤ height e.node) (s : Signal) :
    height (rename e e' s).node ≤ height s.node := by
  by_cases hs : s = e
  · rw [hs, rename_self]
    exact h
  · rw [rename_of_ne hs]

end Expression

open Expression

/-- **The connectives of expressions**, where the conjunctions may have been renamed. -/
def Connectives.expressions (name : AndKey → Signal) : Connectives Signal where
  bottom := .zero
  negate := (~~~·)
  meet f g :=
    match conjunction f g with
    | .folded s => s
    | .gate key => name key

namespace Connectives

variable {name : AndKey → Signal} {f g : Signal}

/-- **Renamed or not, the connectives of expressions are lawful.** -/
theorem expressions_lawful (name : AndKey → Signal) : (expressions name).Lawful where
  negate_negate := Signal.not_not
  meet_comm f g := by simp only [expressions, conjunction_comm f g]
  bottom_meet s := by simp only [expressions, conjunction_zero]
  top_meet s := by
    change (match conjunction .one s with | .folded s => s | .gate key => name key) = s
    rw [conjunction_one]
  meet_self s := by simp only [expressions, conjunction_self]
  meet_negate s := by simp only [expressions, conjunction_not]

lemma meet_of_gate {key : AndKey} (h : conjunction f g = .gate key) :
    (expressions name).meet f g = name key := by simp only [expressions, h]

lemma meet_of_folded {s : Signal} (h : conjunction f g = .folded s) :
    (expressions name).meet f g = s := by simp only [expressions, h]

lemma read_expressions (φ : Nat → Signal) (s : Signal) :
    (expressions name).read φ s = (φ s.node).complementIf s.complemented := by
  cases hc : s.complemented <;> simp [read, hc, expressions]

/-- A gate whose fan-ins have a conjunction of their own has the name of that. -/
lemma Models.value_of_gate {n : Network} {α φ : Nat → Signal} {g : Nat} {a b : Signal}
    {key : AndKey} (hφ : (expressions name).Models α φ n) (hg : n.Gate g a b)
    (h : conjunction ((φ a.node).complementIf a.complemented)
      ((φ b.node).complementIf b.complemented) = .gate key) : φ g = name key := by
  rw [hφ.gate g a b hg, read_expressions, read_expressions]
  exact meet_of_gate h

/-- The conjunction of two expressions is at most one gate higher, as long as this holds of the
new names. -/
lemma height_meet_le (hname : ∀ key, height (name key).node ≤ height (ofKey key).node) :
    height ((expressions name).meet f g).node ≤ 1 + max (height f.node) (height g.node) := by
  cases hform : conjunction f g with
  | folded s =>
      rw [meet_of_folded hform]
      rcases node_of_conjunction_folded hform with h0 | rfl | rfl
      · rw [h0, height_of_even rfl]
        exact Nat.zero_le _
      · omega
      · omega
  | gate key =>
      rw [meet_of_gate hform]
      refine (hname key).trans ?_
      rw [height_ofKey]
      rcases key_of_conjunction hform with rfl | rfl <;> simp only <;> omega

end Connectives

namespace Network

variable {n m : Network} {g u v : Nat} {a b e e' : Signal} {pins : Multiset Nat}

/-! ### Expressions of nodes -/

/-- **The expression of a node.** -/
def expression (n : Network) (v : Nat) : Signal := n.interpret (.expressions ofKey) ofInput v

/-- The expression of a node where one expression is called by another name. -/
def renamed (n : Network) (e e' : Signal) (v : Nat) : Signal :=
  n.interpret (.expressions (rename e e' ∘ ofKey)) (rename e e' ∘ ofInput) v

lemma models_renamed (e e' : Signal) (hn : n.Consistent pins) (h : n.Acyclic) :
    (Connectives.expressions (rename e e' ∘ ofKey)).Models (rename e e' ∘ ofInput)
      (n.renamed e e') n :=
  models_interpret hn h

/-- Under a name that is not higher, no node is higher than before. -/
lemma height_renamed_le (hle : height e'.node ≤ height e.node) (hn : n.Consistent pins)
    (h : n.Acyclic) (hv : n.isLive v = true) : height (n.renamed e e' v).node ≤ n.level v := by
  have hφ := models_renamed e e' hn h
  revert hv
  refine h.induction (P := fun v => n.isLive v = true →
    height (n.renamed e e' v).node ≤ n.level v) ?_ v
  intro v ih hv
  obtain ⟨k, hk⟩ := isLive_iff.mp hv
  have hkind : n.kind? v = some k := by rw [kind?, hk, Option.map_some]
  cases k with
  | constant =>
      rw [(hn.constant_iff v).mp hkind, hφ.zero]
      simp [Connectives.expressions, Signal.zero, height_of_even]
  | input i =>
      rw [hφ.input i v ((hn.input_iff i v).mpr hkind), Function.comp_apply]
      exact (height_rename_le hle _).trans ((height_ofInput i).trans_le (Nat.zero_le _))
  | gate a b =>
      have hg : n.Gate v a b := gate_iff.mpr hk
      obtain ⟨hla, hlb⟩ := hn.fanIns_live v a b hg
      have ha := ih a.node hg.reads_left hla
      have hb := ih b.node hg.reads_right hlb
      rw [hφ.gate v a b hg, level_gate h hg]
      refine (Connectives.height_meet_le fun key => height_rename_le hle (ofKey key)).trans ?_
      simp only [Connectives.read_expressions, Signal.node_complementIf]
      omega

/-- The expression behind a signal. -/
def expressionOf (n : Network) (s : Signal) : Signal :=
  (n.expression s.node).complementIf s.complemented

/-- Below a bound on levels, no node has a complemented expression, and no two nodes have the
same one. -/
structure Distinct (n : Network) (bound : Nat) : Prop where
  plain : ∀ v, n.isLive v = true → n.level v < bound → (n.expression v).complemented = false
  inj : ∀ u v, n.isLive u = true → n.isLive v = true → n.level u < bound → n.level v < bound →
    (n.expression u).node = (n.expression v).node → u = v

section Expressions

variable (hn : n.WellFormed) (h : n.Acyclic)

include hn h

lemma expression_zero : n.expression 0 = .zero :=
  (models_interpret (A := .expressions ofKey) (α := ofInput) hn h).zero

/-- The expression of a node that is no gate. -/
lemma expression_source (hv : n.isLive v = true) (hgate : ¬ n.isLiveGate v = true) :
    (v = 0 ∧ n.expression v = .zero) ∨
      ∃ i, n.inputs[i]? = some v ∧ n.expression v = ofInput i := by
  obtain ⟨k, hk⟩ := isLive_iff.mp hv
  have hkind : n.kind? v = some k := by rw [kind?, hk, Option.map_some]
  cases k with
  | constant =>
      have h0 := (hn.constant_iff v).mp hkind
      exact .inl ⟨h0, h0 ▸ expression_zero hn h⟩
  | input i =>
      have hi := (hn.input_iff i v).mpr hkind
      exact .inr ⟨i, hi, (models_interpret hn h).input i v hi⟩
  | gate a b => exact absurd (isLiveGate_iff.mpr ⟨a, b, gate_iff.mpr hk⟩) hgate

/-- **A gate has the expression of its key**, as long as the expressions of its fan-ins are
distinct. -/
lemma Distinct.expression_gate {bound : Nat} (hd : n.Distinct bound) (hg : n.Gate g a b)
    (hlt : n.level g < bound + 1) : ∃ key, n.expression g = ofKey key ∧
      conjunction (n.expressionOf a) (n.expressionOf b) = .gate key := by
  obtain ⟨hla, hlb⟩ := hn.fanIns_live g a b hg
  obtain ⟨hpos, hord⟩ := hn.ordered g a b hg
  have ha := hg.reads_left.level_lt h
  have hb := hg.reads_right.level_lt h
  have hconstant : ∀ s : Signal, n.isLive s.node = true → n.level s.node < bound →
      s.node ≠ 0 → (n.expressionOf s).node ≠ 0 := by
    intro s hs hlt hne h0
    refine hne (hd.inj s.node 0 hs hn.isLive_zero hlt ?_ ?_)
    · rw [hn.level_zero]
      omega
    · rw [expression_zero hn h]
      exact h0
  have hne : (n.expressionOf a).node ≠ (n.expressionOf b).node := fun heq =>
    Nat.ne_of_lt hord (hd.inj _ _ hla hlb (by omega) (by omega) heq)
  have hvalue : n.expression g
      = (Connectives.expressions ofKey).meet (n.expressionOf a) (n.expressionOf b) := by
    have hgate : n.expression g = (Connectives.expressions ofKey).meet _ _ := interpret_gate h hg
    rw [hgate, Connectives.read_expressions, Connectives.read_expressions]
    rfl
  rw [hvalue]
  rcases conjunction_of_ne (hconstant a hla (by omega) (by omega))
      (hconstant b hlb (by omega) (by omega)) hne with hform | hform
  · exact ⟨_, Connectives.meet_of_gate hform, hform⟩
  · exact ⟨_, Connectives.meet_of_gate hform, hform⟩

omit hn h in
/-- Signals with the same expression behind them are the same. -/
lemma Distinct.signal_inj {bound : Nat} (hd : n.Distinct bound) {s t : Signal}
    (hs : n.isLive s.node = true) (ht : n.isLive t.node = true) (hslt : n.level s.node < bound)
    (htlt : n.level t.node < bound) (heq : n.expressionOf s = n.expressionOf t) : s = t := by
  have heqnode : (n.expressionOf s).node = (n.expressionOf t).node := congrArg Signal.node heq
  have hnode : s.node = t.node := hd.inj _ _ hs ht hslt htlt heqnode
  have hcomplemented := congrArg Signal.complemented heq
  simp only [expressionOf, Signal.complemented_complementIf, hd.plain _ hs hslt,
    hd.plain _ ht htlt, Bool.false_xor] at hcomplemented
  cases s
  cases t
  simp_all

/-- Two gates with the same expression are the same, as long as the expressions of their
fan-ins are distinct. -/
lemma Distinct.gate_inj {bound : Nat} (hd : n.Distinct bound) {c d : Signal} (hu : n.Gate u a b)
    (hv : n.Gate v c d) (hult : n.level u < bound + 1) (hvlt : n.level v < bound + 1)
    (heq : (n.expression u).node = (n.expression v).node) : u = v := by
  obtain ⟨key, hkey, hform⟩ := hd.expression_gate hn h hu hult
  obtain ⟨key', hkey', hform'⟩ := hd.expression_gate hn h hv hvlt
  obtain ⟨hla, hlb⟩ := hn.fanIns_live u a b hu
  obtain ⟨hlc, hld⟩ := hn.fanIns_live v c d hv
  have ha := hu.reads_left.level_lt h
  have hb := hu.reads_right.level_lt h
  have hc := hv.reads_left.level_lt h
  have hd' := hv.reads_right.level_lt h
  have hsame : ∀ {s t : Signal}, n.isLive s.node = true → n.isLive t.node = true →
      n.level s.node < bound → n.level t.node < bound →
        n.expressionOf s = n.expressionOf t → s = t := fun hs ht => hd.signal_inj hs ht
  rw [hkey, hkey'] at heq
  obtain rfl := ofKey_injective heq
  have hcross :
      ¬ (n.expressionOf a = n.expressionOf d ∧ n.expressionOf b = n.expressionOf c) := by
    rintro ⟨had, hbc⟩
    obtain rfl := hsame hla hld (by omega) (by omega) had
    obtain rfl := hsame hlb hlc (by omega) (by omega) hbc
    exact Nat.lt_asymm (hn.ordered u a b hu).2 (hn.ordered v b a hv).2
  have hstraight : n.expressionOf a = n.expressionOf c ∧ n.expressionOf b = n.expressionOf d := by
    rcases key_of_conjunction hform with hends | hends <;>
      rcases key_of_conjunction hform' with hends' | hends' <;>
        rw [hends, AndKey.mk.injEq] at hends'
    · exact hends'
    · exact absurd hends' hcross
    · exact absurd hends'.symm hcross
    · exact hends'.symm
  obtain rfl := hsame hla hlc (by omega) (by omega) hstraight.1
  obtain rfl := hsame hlb hld (by omega) (by omega) hstraight.2
  exact hn.gate_injective hu hv

/-- Two nodes that are no gates have different expressions. -/
lemma source_inj (hu : n.isLive u = true) (hv : n.isLive v = true)
    (hugate : ¬ n.isLiveGate u = true) (hvgate : ¬ n.isLiveGate v = true)
    (heq : (n.expression u).node = (n.expression v).node) : u = v := by
  rcases expression_source hn h hu hugate with ⟨hu0, hu'⟩ | ⟨i, hi, hu'⟩
  · rcases expression_source hn h hv hvgate with ⟨hv0, -⟩ | ⟨j, -, hv'⟩
    · rw [hu0, hv0]
    · rw [hu', hv'] at heq
      simp only [ofInput, Signal.ofNode, Signal.zero] at heq
      omega
  · rcases expression_source hn h hv hvgate with ⟨-, hv'⟩ | ⟨j, hj, hv'⟩
    · rw [hu', hv'] at heq
      simp only [ofInput, Signal.ofNode, Signal.zero] at heq
      omega
    · rw [hu', hv'] at heq
      simp only [ofInput, Signal.ofNode] at heq
      obtain rfl : i = j := by omega
      exact Option.some.inj (hi.symm.trans hj)

/-- A gate and a node that is none have different expressions. -/
lemma Distinct.gate_ne_source {bound : Nat} (hd : n.Distinct bound) (hg : n.Gate g a b)
    (hlt : n.level g < bound + 1) (hv : n.isLive v = true) (hvgate : ¬ n.isLiveGate v = true) :
    (n.expression g).node ≠ (n.expression v).node := by
  obtain ⟨key, hkey, -⟩ := hd.expression_gate hn h hg hlt
  rcases expression_source hn h hv hvgate with ⟨-, hv'⟩ | ⟨i, -, hv'⟩ <;>
    rw [hkey, hv'] <;> simp only [ofKey, ofInput, Signal.ofNode, Signal.zero] <;> omega

lemma distinct (bound : Nat) : n.Distinct bound := by
  induction bound with
  | zero => exact ⟨fun _ _ hlt => absurd hlt (Nat.not_lt_zero _),
      fun _ _ _ _ hlt => absurd hlt (Nat.not_lt_zero _)⟩
  | succ bound ih =>
      refine ⟨?_, ?_⟩
      · intro v hv hlt
        by_cases hgate : n.isLiveGate v = true
        · obtain ⟨a, b, hg⟩ := isLiveGate_iff.mp hgate
          obtain ⟨key, hkey, -⟩ := ih.expression_gate hn h hg hlt
          rw [hkey]
          rfl
        · rcases expression_source hn h hv hgate with ⟨-, he⟩ | ⟨i, -, he⟩ <;> rw [he] <;> rfl
      · intro u v hu hv hult hvlt heq
        by_cases hugate : n.isLiveGate u = true <;> by_cases hvgate : n.isLiveGate v = true
        · obtain ⟨a, b, hgu⟩ := isLiveGate_iff.mp hugate
          obtain ⟨c, d, hgv⟩ := isLiveGate_iff.mp hvgate
          exact ih.gate_inj hn h hgu hgv hult hvlt heq
        · obtain ⟨a, b, hgu⟩ := isLiveGate_iff.mp hugate
          exact absurd heq (ih.gate_ne_source hn h hgu hult hv hvgate)
        · obtain ⟨c, d, hgv⟩ := isLiveGate_iff.mp hvgate
          exact absurd heq.symm (ih.gate_ne_source hn h hgv hvlt hu hugate)
        · exact source_inj hn h hu hv hugate hvgate heq

/-- **Live nodes with the same expression are the same.** -/
theorem expression_injective (hu : n.isLive u = true) (hv : n.isLive v = true)
    (heq : (n.expression u).node = (n.expression v).node) : u = v :=
  (distinct hn h (n.level u + n.level v + 1)).inj u v hu hv (by omega) (by omega) heq

/-- **A gate has the expression of its key.** -/
theorem expression_gate (hg : n.Gate g a b) : ∃ key, n.expression g = ofKey key ∧
    conjunction (n.expressionOf a) (n.expressionOf b) = .gate key :=
  (distinct hn h (n.level g)).expression_gate hn h hg (Nat.lt_succ_self _)

/-- **A live node is as high as its expression.** -/
theorem height_expression (hv : n.isLive v = true) :
    height (n.expression v).node = n.level v := by
  revert hv
  refine h.induction (P := fun v => n.isLive v = true →
    height (n.expression v).node = n.level v) ?_ v
  intro v ih hv
  by_cases hgate : n.isLiveGate v = true
  · obtain ⟨a, b, hg⟩ := isLiveGate_iff.mp hgate
    obtain ⟨hla, hlb⟩ := hn.fanIns_live v a b hg
    obtain ⟨key, hkey, hform⟩ := expression_gate hn h hg
    have ha : height (n.expressionOf a).node = n.level a.node := ih a.node hg.reads_left hla
    have hb : height (n.expressionOf b).node = n.level b.node := ih b.node hg.reads_right hlb
    rw [hkey, height_ofKey, level_gate h hg]
    rcases key_of_conjunction hform with rfl | rfl
    · rw [ha, hb]
    · rw [ha, hb, max_comm]
  · rw [level_of_not_gate hgate]
    rcases expression_source hn h hv hgate with ⟨-, hv'⟩ | ⟨i, -, hv'⟩ <;> rw [hv']
    · exact height_of_even rfl
    · exact height_ofInput i

/-- **A new name for an expression** changes nothing about nodes that do not contain it. -/
theorem renamed_of_free (hv : n.isLive v = true)
    (hfree : ∀ u, n.DependsOn v u → n.expression u ≠ e) : n.renamed e e' v = n.expression v := by
  revert hv hfree
  refine h.induction (P := fun v => n.isLive v = true →
    (∀ u, n.DependsOn v u → n.expression u ≠ e) → n.renamed e e' v = n.expression v) ?_ v
  intro v ih hv hfree
  have hφ := models_renamed e e' hn h
  by_cases hgate : n.isLiveGate v = true
  · obtain ⟨a, b, hg⟩ := isLiveGate_iff.mp hgate
    obtain ⟨hla, hlb⟩ := hn.fanIns_live v a b hg
    have ha := ih a.node hg.reads_left hla fun u hu => hfree u (.head hg.reads_left hu)
    have hb := ih b.node hg.reads_right hlb fun u hu => hfree u (.head hg.reads_right hu)
    obtain ⟨key, hkey, hform⟩ := expression_gate hn h hg
    calc n.renamed e e' v
        = rename e e' (ofKey key) := hφ.value_of_gate hg (by rw [ha, hb]; exact hform)
      _ = ofKey key := rename_of_ne (hkey ▸ hfree v .refl)
      _ = n.expression v := hkey.symm
  · rcases expression_source hn h hv hgate with ⟨rfl, hv'⟩ | ⟨i, hi, hv'⟩
    · rw [hv']
      exact hφ.zero
    · rw [hv', hφ.input i v hi]
      exact rename_of_ne (hv' ▸ hfree v .refl)

/-- A new name for the expression of a node shows only above the node, since no other node has
the expression. -/
lemma renamed_of_not_dependsOn (hv : n.isLive v = true) (hu : n.isLive u = true)
    (hdep : ¬ n.DependsOn u v) : n.renamed (n.expression v) e' u = n.expression u := by
  refine renamed_of_free hn h hu fun w hw heq => hdep ?_
  exact expression_injective hn h (hn.isLive_of_dependsOn hu hw) hv (congrArg _ heq) ▸ hw

/-- The node itself gets the new name. -/
lemma renamed_self (hv : n.isLive v = true) (h0 : v ≠ 0) :
    n.renamed (n.expression v) e' v = e' := by
  have hφ := models_renamed (n.expression v) e' hn h
  by_cases hgate : n.isLiveGate v = true
  · obtain ⟨a, b, hg⟩ := isLiveGate_iff.mp hgate
    obtain ⟨hla, hlb⟩ := hn.fanIns_live v a b hg
    obtain ⟨key, hkey, hform⟩ := expression_gate hn h hg
    have ha : n.renamed (n.expression v) e' a.node = n.expression a.node :=
      renamed_of_not_dependsOn hn h hv hla fun hdep => h v (.head' hg.reads_left hdep)
    have hb : n.renamed (n.expression v) e' b.node = n.expression b.node :=
      renamed_of_not_dependsOn hn h hv hlb fun hdep => h v (.head' hg.reads_right hdep)
    calc n.renamed (n.expression v) e' v
        = rename (n.expression v) e' (ofKey key) :=
          hφ.value_of_gate hg (by rw [ha, hb]; exact hform)
      _ = e' := by rw [← hkey, rename_self]
  · rcases expression_source hn h hv hgate with ⟨hv0, -⟩ | ⟨i, hi, hv'⟩
    · exact absurd hv0 h0
    · calc n.renamed (n.expression v) e' v
          = rename (n.expression v) e' (ofInput i) := hφ.input i v hi
        _ = e' := by rw [← hv', rename_self]

/-- **To identify a node with a signal** that does not depend on it, its expression is renamed
to that of the signal. -/
theorem renamed_eq {s : Signal} (hv : n.isLive v = true) (h0 : v ≠ 0)
    (hs : n.isLive s.node = true) (hcone : ¬ n.DependsOn s.node v) :
    n.renamed (n.expression v) (n.expressionOf s) v
      = (n.renamed (n.expression v) (n.expressionOf s) s.node).complementIf s.complemented := by
  rw [renamed_self hn h hv h0, renamed_of_not_dependsOn hn h hv hs hcone]
  rfl

end Expressions

end Network

end AndInverter
