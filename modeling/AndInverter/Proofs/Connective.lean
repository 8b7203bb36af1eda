import AndInverter.Proofs.History
import AndInverter.Proofs.Network.Evaluation

/-!
The connectives that a network is built with.

* `Connective.value`: the truth function of a connective;
* `Network.Has`: a signal is the connective of two others, by the conjunctions it is made of;
  `Network.Has.read`: it has that truth function, and `Network.Has.symm`: in either order;
* `Network.Has.build_eq`: to ask for what a network has changes nothing;
* `Network.usesFor`: how often building uses a node, and `Connective.build_fanout`: the counters
  count it;
* `Network.HasRoomFor`: the counters have room for these uses;
* `build_exact`: what becomes of a network when a connective is built;
* `build_eq_counterOverflow`: nothing is built without room, and `build_may_overflow`: a counter
  may be full.
-/

namespace AndInverter

open Network

/-- The truth function of a connective. -/
def Connective.value : Connective → Bool → Bool → Bool
  | .and, x, y => x && y
  | .nand, x, y => !(x && y)
  | .or, x, y => x || y
  | .nor, x, y => !(x || y)
  | .xor, x, y => x ^^ y
  | .xnor, x, y => !(x ^^ y)

namespace Network

variable {n m : Network} {f g s : Signal} {c : Connective} {pins : Multiset Nat}

/-! ### What a network has -/

/-- A signal that is the disjunction of two others. -/
def IsOr (n : Network) (f g s : Signal) : Prop := n.IsAnd (~~~f) (~~~g) (~~~s)

/-- A signal that is the exclusive disjunction of two others. -/
def IsXor (n : Network) (f g s : Signal) : Prop :=
  ∃ p q, n.IsAnd f (~~~g) p ∧ n.IsAnd (~~~f) g q ∧ n.IsOr p q s

/-- **A network has a connective** of two signals: the conjunctions that make it are there. -/
def Has (n : Network) : Connective → Signal → Signal → Signal → Prop
  | .and, f, g, s => n.IsAnd f g s
  | .nand, f, g, s => n.IsAnd f g (~~~s)
  | .or, f, g, s => n.IsOr f g s
  | .nor, f, g, s => n.IsAnd (~~~f) (~~~g) s
  | .xor, f, g, s => n.IsXor f g s
  | .xnor, f, g, s => n.IsXor f g (~~~s)

lemma IsAnd.symm (h : n.IsAnd f g s) : n.IsAnd g f s := by
  rw [IsAnd, conjunction_comm]
  exact h

lemma IsXor.symm (h : n.IsXor f g s) : n.IsXor g f s := by
  obtain ⟨p, q, hp, hq, hs⟩ := h
  exact ⟨q, p, hq.symm, hp.symm, hs.symm⟩

/-- The operands of a connective may be swapped. -/
lemma Has.symm (h : n.Has c f g s) : n.Has c g f s := by
  cases c with
  | and | nand | or | nor => exact IsAnd.symm h
  | xor | xnor => exact IsXor.symm h

/-- A conjunction of live signals is live. -/
lemma IsAnd.isLive (h : n.IsAnd f g s) (hn : n.Consistent pins) (hf : n.isLive f.node = true)
    (hg : n.isLive g.node = true) : n.isLive s.node = true := by
  rcases h with hform | ⟨key, -, -, hgate⟩
  · rcases node_of_conjunction_folded hform with h0 | rfl | rfl
    · exact h0 ▸ hn.isLive_zero
    · exact hf
    · exact hg
  · exact hgate.isLive

lemma IsOr.isLive (h : n.IsOr f g s) (hn : n.Consistent pins) (hf : n.isLive f.node = true)
    (hg : n.isLive g.node = true) : n.isLive s.node = true :=
  IsAnd.isLive (f := ~~~f) (g := ~~~g) (s := ~~~s) h hn hf hg

lemma IsXor.isLive (h : n.IsXor f g s) (hn : n.Consistent pins) (hf : n.isLive f.node = true)
    (hg : n.isLive g.node = true) : n.isLive s.node = true := by
  obtain ⟨p, q, hp, hq, hs⟩ := h
  exact hs.isLive hn (hp.isLive hn hf hg) (hq.isLive hn hf hg)

/-- What a network has of live signals is live. -/
lemma Has.isLive (h : n.Has c f g s) (hn : n.Consistent pins) (hf : n.isLive f.node = true)
    (hg : n.isLive g.node = true) : n.isLive s.node = true := by
  cases c with
  | and => exact IsAnd.isLive h hn hf hg
  | nand => exact IsAnd.isLive (s := ~~~s) h hn hf hg
  | or => exact IsOr.isLive h hn hf hg
  | nor => exact IsAnd.isLive (f := ~~~f) (g := ~~~g) h hn hf hg
  | xor => exact IsXor.isLive h hn hf hg
  | xnor => exact IsXor.isLive (s := ~~~s) h hn hf hg

/-- **A conjunction that does not fold** is a gate. -/
lemma IsAnd.exists_gate (h : n.IsAnd f g s) (hf : f.node ≠ 0) (hg : g.node ≠ 0)
    (hne : f.node ≠ g.node) :
    ∃ key, conjunction f g = .gate key ∧ n.Gate s.node key.lhs key.rhs := by
  rcases h with hfolded | ⟨key, hform, -, hgate⟩
  · rcases conjunction_of_ne hf hg hne with hform | hform
    all_goals cases hform.symm.trans hfolded
  · exact ⟨key, hform, hgate⟩

/-- It reads both operands. -/
lemma IsAnd.reads (h : n.IsAnd f g s) (hf : f.node ≠ 0) (hg : g.node ≠ 0)
    (hne : f.node ≠ g.node) : n.Reads s.node f.node ∧ n.Reads s.node g.node := by
  obtain ⟨key, hform, hgate⟩ := h.exists_gate hf hg hne
  rcases key_of_conjunction hform with rfl | rfl
  · exact ⟨hgate.reads_left, hgate.reads_right⟩
  · exact ⟨hgate.reads_right, hgate.reads_left⟩

lemma IsAnd.of_extends (h : m.IsAnd f g s) (hext : n.Extends m) (hlt : s.node < n.size) :
    n.IsAnd f g s :=
  h.imp id fun ⟨key, hform, hs, hgate⟩ => ⟨key, hform, hs, (hext.gate hlt).mp hgate⟩

/-! ### Exclusive disjunctions that fold -/

lemma isXor_zero (n : Network) (g : Signal) : n.IsXor .zero g g :=
  ⟨.zero, g, .inl (conjunction_zero _), .inl (conjunction_one g), .inl (conjunction_one _)⟩

lemma isXor_one (n : Network) (g : Signal) : n.IsXor .one g (~~~g) := by
  refine ⟨~~~g, .zero, .inl (conjunction_one _), .inl (conjunction_zero g), .inl ?_⟩
  rw [conjunction_comm]
  exact conjunction_one _

lemma isXor_self (n : Network) (g : Signal) : n.IsXor g g .zero := by
  refine ⟨.zero, .zero, .inl (conjunction_not g), .inl ?_, .inl (conjunction_self _)⟩
  rw [conjunction_comm]
  exact conjunction_not g

lemma isXor_not (n : Network) (g : Signal) : n.IsXor (~~~g) g .one := by
  refine ⟨~~~g, g, .inl (conjunction_self _), .inl ?_, .inl ?_⟩
  · rw [Signal.not_not]
    exact conjunction_self g
  · rw [conjunction_comm]
    exact conjunction_not _

/-- **An exclusive disjunction that folds** is there in any network. -/
lemma exists_isXor (n : Network) (h : f.node = 0 ∨ g.node = 0 ∨ f.node = g.node) :
    ∃ s, n.IsXor f g s := by
  have hconstant : ∀ {f : Signal}, f.node = 0 → ∀ g, ∃ s, n.IsXor f g s := by
    intro f hf g
    rcases eq_or_eq_not (t := .zero) hf with rfl | rfl
    · exact ⟨_, n.isXor_zero g⟩
    · exact ⟨_, n.isXor_one g⟩
  rcases h with hf | hg | heq
  · exact hconstant hf g
  · exact (hconstant hg f).imp fun _ => IsXor.symm
  · rcases eq_or_eq_not heq with rfl | rfl
    · exact ⟨_, n.isXor_self f⟩
    · exact ⟨_, n.isXor_not g⟩

/-! ### Truth functions -/

section Values

variable {α φ : Nat → Bool} (hφ : Connectives.bool.Models α φ n)

lemma read_bool_not (φ : Nat → Bool) (s : Signal) :
    Connectives.bool.read φ (~~~s) = !Connectives.bool.read φ s :=
  Connectives.read_not Connectives.bool_lawful s

include hφ

lemma IsAnd.read_bool (h : n.IsAnd f g s) : Connectives.bool.read φ s
    = (Connectives.bool.read φ f && Connectives.bool.read φ g) :=
  h.read Connectives.bool_lawful hφ

lemma IsOr.read (h : n.IsOr f g s) : Connectives.bool.read φ s
    = (Connectives.bool.read φ f || Connectives.bool.read φ g) := by
  have hread := IsAnd.read_bool hφ h
  rw [read_bool_not, read_bool_not, read_bool_not, ← Bool.not_or] at hread
  exact Bool.not_inj hread

lemma IsXor.read (h : n.IsXor f g s) : Connectives.bool.read φ s
    = (Connectives.bool.read φ f ^^ Connectives.bool.read φ g) := by
  obtain ⟨p, q, hp, hq, hs⟩ := h
  rw [hs.read hφ, hp.read_bool hφ, hq.read_bool hφ, read_bool_not, read_bool_not]
  cases Connectives.bool.read φ f <;> cases Connectives.bool.read φ g <;> rfl

/-- **A connective has its truth function.** -/
lemma Has.read (h : n.Has c f g s) : Connectives.bool.read φ s
    = c.value (Connectives.bool.read φ f) (Connectives.bool.read φ g) := by
  cases c with
  | and => exact IsAnd.read_bool hφ h
  | nand =>
      have hread := IsAnd.read_bool hφ h
      rw [read_bool_not] at hread
      exact Bool.not_eq_eq_eq_not.mp hread
  | or => exact IsOr.read hφ h
  | nor =>
      have hread := IsAnd.read_bool hφ h
      rw [read_bool_not, read_bool_not, ← Bool.not_or] at hread
      exact hread
  | xor => exact IsXor.read hφ h
  | xnor =>
      have hread := IsXor.read hφ h
      rw [read_bool_not] at hread
      exact Bool.not_eq_eq_eq_not.mp hread

end Values

end Network

variable {n m : Network} {f g s : Signal} {c : Connective} {v : Nat}

/-! ### Complements -/

lemma complement_eq_ok {e : Edit Signal} :
    (do return ~~~(← e) : Edit Signal) n = .ok s m ↔ e n = .ok (~~~s) m := by
  rw [bind_eq_ok]
  constructor
  · rintro ⟨t, l, hrun, hpure⟩
    obtain ⟨rfl, rfl⟩ := pure_eq_ok.mp hpure
    rwa [Signal.not_not]
  · intro hrun
    exact ⟨~~~s, m, hrun, pure_eq_ok.mpr ⟨Signal.not_not s, rfl⟩⟩

lemma complement_eq_error {e : Edit Signal} {fault : Fault} :
    (do return ~~~(← e) : Edit Signal) n = .error fault m ↔ e n = .error fault m := by
  rw [bind_eq_error]
  exact or_iff_left fun ⟨_, _, _, hpure⟩ => pure_ne_error hpure

/-! ### Asking for what is there -/

/-- A conjunction that is there is found. -/
lemma Network.IsAnd.addAnd_eq (h : n.IsAnd f g s) (hn : n.WellFormed)
    (hf : n.isLive f.node = true) (hg : n.isLive g.node = true) :
    Edit.addAnd f g n = .ok s n := by
  simp only [Edit.addAnd, bind_eq_ok, Edit.query_eq_ok, Edit.requireLive_eq_ok]
  refine ⟨(), n, ⟨hf, rfl⟩, (), n, ⟨hg, rfl⟩, ?_⟩
  rcases h with hform | ⟨key, hform, hs, hgate⟩
  · rw [hform]
    rfl
  · rw [hform]
    have hkey : n.hash[key]? = some s.node := (hn.hash_iff key s.node).mpr hgate
    have hplain : .ofNode s.node = s := by
      rw [Signal.ofNode, ← hs]
    exact bind_eq_ok.mpr ⟨some s.node, n, Edit.view_eq_ok.mpr ⟨hkey, rfl⟩,
      pure_eq_ok.mpr ⟨hplain, rfl⟩⟩

lemma Network.IsOr.addOr_eq (h : n.IsOr f g s) (hn : n.WellFormed)
    (hf : n.isLive f.node = true) (hg : n.isLive g.node = true) :
    Edit.addOr f g n = .ok s n :=
  complement_eq_ok.mpr (IsAnd.addAnd_eq h hn hf hg)

lemma Network.IsXor.addXor_eq (h : n.IsXor f g s) (hn : n.WellFormed)
    (hf : n.isLive f.node = true) (hg : n.isLive g.node = true) :
    Edit.addXor f g n = .ok s n := by
  obtain ⟨p, q, hp, hq, hs⟩ := h
  exact bind_eq_ok.mpr ⟨p, n, hp.addAnd_eq hn hf hg,
    bind_eq_ok.mpr ⟨q, n, hq.addAnd_eq hn hf hg,
      hs.addOr_eq hn (hp.isLive hn hf hg) (hq.isLive hn hf hg)⟩⟩

/-- **To ask for a connective that a network has** changes nothing. -/
lemma Network.Has.build_eq (h : n.Has c f g s) (hn : n.WellFormed)
    (hf : n.isLive f.node = true) (hg : n.isLive g.node = true) : c.build f g n = .ok s n := by
  cases c with
  | and => exact IsAnd.addAnd_eq h hn hf hg
  | nand => exact complement_eq_ok.mpr (IsAnd.addAnd_eq h hn hf hg)
  | or => exact IsOr.addOr_eq h hn hf hg
  | nor => exact IsAnd.addAnd_eq h hn hf hg
  | xor => exact IsXor.addXor_eq h hn hf hg
  | xnor => exact complement_eq_ok.mpr (IsXor.addXor_eq h hn hf hg)

/-! ### Exclusive disjunctions that do not fold -/

/-- Neither conjunction of an exclusive disjunction is the other one. -/
lemma conjunction_not_ne {key key' : AndKey} (hne : f.node ≠ g.node)
    (h : conjunction f (~~~g) = .gate key) (h' : conjunction (~~~f) g = .gate key') :
    key ≠ key' := by
  have hnot : ∀ t : Signal, t ≠ ~~~t := by
    intro t heq
    exact Bool.not_ne_self t.complemented (congrArg Signal.complemented heq).symm
  rintro rfl
  rcases key_of_conjunction h with rfl | rfl
  · rcases key_of_conjunction h' with heq | heq
    · exact hnot f (congrArg AndKey.lhs heq)
    · exact hne (congrArg (·.lhs.node) heq)
  · rcases key_of_conjunction h' with heq | heq
    · exact hne (congrArg (·.rhs.node) heq)
    · exact hnot g (congrArg AndKey.lhs heq).symm

lemma nodes_of_not_isXor (h : ∀ s, ¬ n.IsXor f g s) :
    f.node ≠ 0 ∧ g.node ≠ 0 ∧ f.node ≠ g.node := by
  by_contra hfolds
  obtain ⟨s, hs⟩ := n.exists_isXor (f := f) (g := g) (by tauto)
  exact h s hs

lemma forall_not_isXor (h : ∀ s, ¬ n.Has .xnor f g s) (s : Signal) : ¬ n.IsXor f g s := by
  intro hs
  refine h (~~~s) ?_
  rwa [Has, Signal.not_not]

section Exclusive

variable {p q : Signal} {n₁ n₂ : Network} (hn : n.WellFormed)
  (hmixed : f.node ≠ 0 ∧ g.node ≠ 0 ∧ f.node ≠ g.node)
  (hp : Edit.addAnd f (~~~g) n = .ok p n₁) (hq : Edit.addAnd (~~~f) g n₁ = .ok q n₂)

include hn hmixed hp

/-- The first conjunction is not what the second one is looking for. -/
lemma isAnd_second : n₁.IsAnd (~~~f) g s ↔ n.IsAnd (~~~f) g s := by
  refine ⟨?_, fun h => h.extends (addAnd_spec hn hp).2.2.2.1⟩
  rintro (hfolded | ⟨key, hform, hs, hgate⟩)
  · exact .inl hfolded
  refine .inr ⟨key, hform, hs, ?_⟩
  rcases addAnd_cases hp with rfl | ⟨key', hform', happends, -⟩
  · exact hgate
  by_cases hnew : s.node = n.size
  · have hkey : key = key' := (gate_iff.mpr happends.new).key_iff.mp (hnew ▸ hgate)
    exact absurd hkey.symm (conjunction_not_ne hmixed.2.2 hform' hform)
  · exact (happends.gate hnew).mp hgate

lemma usesForAnd_second (v : Nat) :
    n₁.usesForAnd (~~~f) g v = n.usesForAnd (~~~f) g v := by
  have hfound : n₁.conjunction? (~~~f) g = n.conjunction? (~~~f) g := by
    refine Option.ext fun s => ?_
    rw [conjunction?_eq_some (addAnd_spec hn hp).2.2.1, conjunction?_eq_some hn,
      isAnd_second hn hmixed hp]
  rw [usesForAnd, usesForAnd, hfound]

include hq

/-- The counters after the two conjunctions. -/
lemma fanout_second (v : Nat) : n₂.fanout v
    = n.fanout v + n.usesForAnd f (~~~g) v + n.usesForAnd (~~~f) g v := by
  rw [(addAnd_fanout hq v).1, usesForAnd_second hn hmixed hp, (addAnd_fanout hp v).1]

/-- What joins the two conjunctions was there before, and so were they. -/
lemma isXor_of_isOr (h : n₂.IsOr p q s) : n.IsXor f g s := by
  obtain ⟨-, -, hn₁, -, -, -, hpand⟩ := addAnd_spec hn hp
  obtain ⟨-, -, hn₂, hext, -, -, hqand⟩ := addAnd_spec hn₁ hq
  obtain ⟨key, hform, hpgate⟩ := (hpand.extends hext).exists_gate (g := ~~~g) hmixed.1 hmixed.2.1
    hmixed.2.2
  obtain ⟨key', hform', hqgate⟩ := hqand.exists_gate (f := ~~~f) hmixed.1 hmixed.2.1 hmixed.2.2
  have hne : p.node ≠ q.node := by
    intro heq
    have hkey : key = key' := hqgate.key_iff.mp (heq ▸ hpgate)
    exact conjunction_not_ne hmixed.2.2 hform hform' hkey
  obtain ⟨hreadp, hreadq⟩ := IsAnd.reads (f := ~~~p) (g := ~~~q) (s := ~~~s) h
    (hn₂.ne_zero_of_gate hpgate) (hn₂.ne_zero_of_gate hqgate) hne
  -- no gate reads a conjunction that is new
  rcases addAnd_cases hq with rfl | ⟨_, -, happends, -⟩
  case inr =>
    obtain ⟨hnode, hunread⟩ := addAnd_unread hn₁ hq (Nat.lt_of_succ_le happends.size.ge)
    exact absurd (hnode ▸ hreadq) (hunread s.node)
  rcases addAnd_cases hp with rfl | ⟨_, -, happends, -⟩
  case inr =>
    obtain ⟨hnode, hunread⟩ := addAnd_unread hn hp (Nat.lt_of_succ_le happends.size.ge)
    exact absurd (hnode ▸ hreadp) (hunread s.node)
  exact ⟨p, q, hpand, hqand, h⟩

end Exclusive

/-! ### Uses -/

/-- The uses of a node for joining two conjunctions, as far as these are there. -/
def Network.usesForJoin (n : Network) (f g : Signal) (v : Nat) : Nat :=
  if (n.conjunction? f (~~~g)).any (·.node == v) ∨ (n.conjunction? (~~~f) g).any (·.node == v)
  then 1 else 0

/-- **How often a node is used for a connective** that is asked for, unless it is there: by the
conjunctions of its operands, and by the one that joins them if there are two. -/
def Network.usesFor (n : Network) (f g : Signal) (v : Nat) : Connective → Nat
  | .and | .nand => n.usesForAnd f g v
  | .or | .nor => n.usesForAnd (~~~f) (~~~g) v
  | .xor | .xnor =>
      n.usesForAnd f (~~~g) v + n.usesForAnd (~~~f) g v + n.usesForJoin f g v

/-- **Room for a connective**: no counter has to count further than it can. -/
def Network.HasRoomFor (n : Network) (c : Connective) (f g : Signal) : Prop :=
  ∀ v < n.size, 0 < n.usesFor f g v c → n.fanout v + n.usesFor f g v c ≤ counterLimit

/-- A conjunction on a node that was there was there. -/
lemma any_conjunction?_iff (hn : n.WellFormed) (hm : m.WellFormed) (hext : n.Extends m)
    (hs : m.IsAnd f g s) (hv : v < n.size) :
    (n.conjunction? f g).any (·.node == v) = true ↔ v = s.node := by
  simp only [Option.any_eq_true, beq_iff_eq, conjunction?_eq_some hn]
  constructor
  · rintro ⟨t, ht, rfl⟩
    have hts : some t = some s := ((conjunction?_eq_some hm).mpr (ht.extends hext)).symm.trans
      ((conjunction?_eq_some hm).mpr hs)
    rw [Option.some.inj hts]
  · rintro rfl
    exact ⟨s, hs.of_extends hext hv, rfl⟩

/-- **The uses for joining** two conjunctions that were asked for, unless they are joined. -/
lemma usesForAnd_third {p q : Signal} {n₁ n₂ : Network} (hn : n.WellFormed)
    (hmixed : f.node ≠ 0 ∧ g.node ≠ 0 ∧ f.node ≠ g.node) (hnone : ∀ s, ¬ n.IsXor f g s)
    (hp : Edit.addAnd f (~~~g) n = .ok p n₁) (hq : Edit.addAnd (~~~f) g n₁ = .ok q n₂)
    (hv : v < n.size) : n₂.usesForAnd (~~~p) (~~~q) v = n.usesForJoin f g v := by
  obtain ⟨-, -, hn₁, hext₁, -, -, hpand⟩ := addAnd_spec hn hp
  obtain ⟨-, -, hn₂, hext₂, -, -, hqand⟩ := addAnd_spec hn₁ hq
  have hext := hext₁.trans hext₂
  have hfree : n₂.conjunction? (~~~p) (~~~q) = none := by
    refine Option.eq_none_iff_forall_ne_some.mpr fun t ht => hnone (~~~t) ?_
    refine isXor_of_isOr hn hmixed hp hq ?_
    rw [IsOr, Signal.not_not]
    exact (conjunction?_eq_some hn₂).mp ht
  refine if_congr ?_ rfl rfl
  rw [any_conjunction?_iff hn hn₂ hext (hpand.extends hext₂) hv,
    any_conjunction?_iff hn hn₂ hext hqand hv, and_iff_right hfree]
  exact Iff.rfl

/-! ### Building -/

/-- An exclusive disjunction takes three conjunctions. -/
lemma addXor_eq_ok (hrun : Edit.addXor f g n = .ok s m) : ∃ p n₁ q n₂,
    Edit.addAnd f (~~~g) n = .ok p n₁ ∧ Edit.addAnd (~~~f) g n₁ = .ok q n₂ ∧
      Edit.addAnd (~~~p) (~~~q) n₂ = .ok (~~~s) m := by
  obtain ⟨p, n₁, hp, hrun⟩ := bind_eq_ok.mp hrun
  obtain ⟨q, n₂, hq, hrun⟩ := bind_eq_ok.mp hrun
  exact ⟨p, n₁, q, n₂, hp, hq, complement_eq_ok.mp hrun⟩

/-- **What is built is there**, in an extension of the network. -/
lemma Connective.build_spec (hn : n.WellFormed) (hrun : c.build f g n = .ok s m) :
    m.WellFormed ∧ n.Extends m ∧ m.isLive s.node = true ∧ m.Has c f g s := by
  have hand : ∀ {l l' : Network} {a b t : Signal}, l.WellFormed → Edit.addAnd a b l = .ok t l' →
      l'.WellFormed ∧ l.Extends l' ∧ l'.isLive t.node = true ∧ l'.IsAnd a b t := by
    intro l l' a b t hl hrun
    obtain ⟨-, -, hl', hext, -, ht, hand⟩ := addAnd_spec hl hrun
    exact ⟨hl', hext, ht, hand⟩
  have hxor : ∀ {t : Signal}, Edit.addXor f g n = .ok t m →
      m.WellFormed ∧ n.Extends m ∧ m.isLive t.node = true ∧ m.IsXor f g t := by
    intro t hrun
    obtain ⟨p, n₁, q, n₂, hp, hq, hrun⟩ := addXor_eq_ok hrun
    obtain ⟨hn₁, hext₁, -, hpand⟩ := hand hn hp
    obtain ⟨hn₂, hext₂, -, hqand⟩ := hand hn₁ hq
    obtain ⟨hm, hext, ht, hor⟩ := hand hn₂ hrun
    exact ⟨hm, (hext₁.trans hext₂).trans hext, ht, p, q, hpand.extends (hext₂.trans hext),
      hqand.extends hext, hor⟩
  cases c with
  | and => exact hand hn hrun
  | nand => exact hand hn (complement_eq_ok.mp hrun)
  | or => exact hand hn (complement_eq_ok.mp hrun)
  | nor => exact hand hn hrun
  | xor => exact hxor hrun
  | xnor => exact hxor (complement_eq_ok.mp hrun)

/-- **The counters count the uses for a connective**, as far as they can. -/
lemma Connective.build_fanout (hn : n.WellFormed) (hnone : ∀ s, ¬ n.Has c f g s)
    (hrun : c.build f g n = .ok s m) (hv : v < n.size) :
    m.fanout v = n.fanout v + n.usesFor f g v c ∧
      (0 < n.usesFor f g v c → m.fanout v ≤ counterLimit) := by
  have hxor : ∀ {t : Signal}, (∀ s, ¬ n.IsXor f g s) → Edit.addXor f g n = .ok t m →
      m.fanout v = n.fanout v + n.usesFor f g v .xor ∧
        (0 < n.usesFor f g v .xor → m.fanout v ≤ counterLimit) := by
    intro t hnone hrun
    have hmixed := nodes_of_not_isXor hnone
    obtain ⟨p, n₁, q, n₂, hp, hq, hrun⟩ := addXor_eq_ok hrun
    have h₁ := addAnd_fanout hp v
    have h₂ := addAnd_fanout hq v
    have h₃ := addAnd_fanout hrun v
    rw [usesForAnd_second hn hmixed hp] at h₂
    rw [usesForAnd_third hn hmixed hnone hp hq hv] at h₃
    simp only [Network.usesFor]
    omega
  cases c with
  | and => exact addAnd_fanout hrun v
  | nand => exact addAnd_fanout (complement_eq_ok.mp hrun) v
  | or => exact addAnd_fanout (complement_eq_ok.mp hrun) v
  | nor => exact addAnd_fanout hrun v
  | xor => exact hxor hnone hrun
  | xnor => exact hxor (forall_not_isXor hnone) (complement_eq_ok.mp hrun)

lemma lt_size_of_usesForAnd (hf : n.isLive f.node = true) (hg : n.isLive g.node = true)
    (hpos : 0 < n.usesForAnd f g v) : v < n.size := by
  rcases (usesForAnd_pos.mp hpos).2 with rfl | rfl
  · exact lt_size_of_isLive hf
  · exact lt_size_of_isLive hg

/-- **An exclusive disjunction is built** where there is room for it. -/
lemma exists_addXor (hn : n.WellFormed) (hf : n.isLive f.node = true)
    (hg : n.isLive g.node = true) (hnone : ∀ s, ¬ n.IsXor f g s) (hroom : n.HasRoomFor .xor f g) :
    ∃ s m, Edit.addXor f g n = .ok s m := by
  have hmixed := nodes_of_not_isXor hnone
  have hroom : ∀ v < n.size, 0 < n.usesForAnd f (~~~g) v + n.usesForAnd (~~~f) g v +
      n.usesForJoin f g v → n.fanout v + (n.usesForAnd f (~~~g) v + n.usesForAnd (~~~f) g v +
        n.usesForJoin f g v) ≤ counterLimit := hroom
  have hlt₁ : ∀ {v}, 0 < n.usesForAnd f (~~~g) v → v < n.size := lt_size_of_usesForAnd hf hg
  have hlt₂ : ∀ {v}, 0 < n.usesForAnd (~~~f) g v → v < n.size := lt_size_of_usesForAnd hf hg
  obtain ⟨p, n₁, hp⟩ : ∃ p n₁, Edit.addAnd f (~~~g) n = .ok p n₁ := by
    refine exists_addAnd_of_room hf hg fun v hpos => ?_
    have hv := hroom v (hlt₁ hpos)
    omega
  obtain ⟨-, -, hn₁, hext₁, -, hplive, -⟩ := addAnd_spec hn hp
  obtain ⟨q, n₂, hq⟩ : ∃ q n₂, Edit.addAnd (~~~f) g n₁ = .ok q n₂ := by
    refine exists_addAnd_of_room (hext₁.isLive hf) (hext₁.isLive hg) fun v hpos => ?_
    rw [usesForAnd_second hn hmixed hp] at hpos ⊢
    have hv := hroom v (hlt₂ hpos)
    have hfanout := (addAnd_fanout hp v).1
    omega
  obtain ⟨-, -, hn₂, hext₂, -, hqlive, -⟩ := addAnd_spec hn₁ hq
  obtain ⟨t, m, hrun⟩ : ∃ t m, Edit.addAnd (~~~p) (~~~q) n₂ = .ok t m := by
    refine exists_addAnd_of_room (hext₂.isLive hplive) hqlive fun v hpos => ?_
    rw [fanout_second hn hmixed hp hq]
    rcases Nat.lt_or_ge v n.size with hlt | hge
    · rw [usesForAnd_third hn hmixed hnone hp hq hlt] at hpos ⊢
      have hv := hroom v hlt
      omega
    · -- a new conjunction was not used yet
      have hzero : n.fanout v = 0 := fanout_eq_zero hge
      have hone := n₂.usesForAnd_le_one (~~~p) (~~~q) v
      have hlimit : 1 ≤ counterLimit := by decide
      have hno₁ := mt (hlt₁ (v := v)) (Nat.not_lt.mpr hge)
      have hno₂ := mt (hlt₂ (v := v)) (Nat.not_lt.mpr hge)
      omega
  refine ⟨~~~t, m, bind_eq_ok.mpr ⟨p, n₁, hp, bind_eq_ok.mpr ⟨q, n₂, hq, ?_⟩⟩⟩
  exact complement_eq_ok.mpr (by rwa [Signal.not_not])

/-- **A connective of live signals is built** where there is room for it. -/
lemma Connective.exists_build (hn : n.WellFormed) (hf : n.isLive f.node = true)
    (hg : n.isLive g.node = true) (hnone : ∀ s, ¬ n.Has c f g s) (hroom : n.HasRoomFor c f g) :
    ∃ s m, c.build f g n = .ok s m := by
  have hnot : ∀ {e : Edit Signal}, (∃ s m, e n = .ok s m) →
      ∃ s m, (do return ~~~(← e) : Edit Signal) n = .ok s m := by
    rintro e ⟨s, m, hrun⟩
    exact ⟨~~~s, m, complement_eq_ok.mpr (by rwa [Signal.not_not])⟩
  have hand : ∀ {a b : Signal}, n.isLive a.node = true → n.isLive b.node = true →
      (∀ v < n.size, 0 < n.usesForAnd a b v → n.fanout v + n.usesForAnd a b v ≤ counterLimit) →
        ∃ s m, Edit.addAnd a b n = .ok s m :=
    fun ha hb h => exists_addAnd_of_room ha hb fun v hpos =>
      h v (lt_size_of_usesForAnd ha hb hpos) hpos
  cases c with
  | and => exact hand hf hg hroom
  | nand => exact hnot (hand hf hg hroom)
  | or => exact hnot (hand (a := ~~~f) (b := ~~~g) hf hg hroom)
  | nor => exact hand (a := ~~~f) (b := ~~~g) hf hg hroom
  | xor => exact exists_addXor hn hf hg hnone hroom
  | xnor => exact hnot (exists_addXor hn hf hg (forall_not_isXor hnone) hroom)

/-- **To build a connective of live signals fails** only when a counter is full. -/
lemma Connective.build_eq_error {fault : Fault} (hn : n.WellFormed) (hf : n.isLive f.node = true)
    (hg : n.isLive g.node = true) (hrun : c.build f g n = .error fault m) :
    fault = .counterOverflow := by
  have hxor : Edit.addXor f g n = .error fault m → fault = .counterOverflow := by
    intro hrun
    rcases bind_eq_error.mp hrun with hrun | ⟨p, n₁, hp, hrun⟩
    · exact addAnd_eq_error hrun hf hg
    obtain ⟨-, -, hn₁, hext₁, -, hplive, -⟩ := addAnd_spec hn hp
    rcases bind_eq_error.mp hrun with hrun | ⟨q, n₂, hq, hrun⟩
    · exact addAnd_eq_error hrun (hext₁.isLive hf) (hext₁.isLive hg)
    obtain ⟨-, -, -, hext₂, -, hqlive, -⟩ := addAnd_spec hn₁ hq
    exact addAnd_eq_error (complement_eq_error.mp hrun) (hext₂.isLive hplive) hqlive
  cases c with
  | and => exact addAnd_eq_error hrun hf hg
  | nand => exact addAnd_eq_error (complement_eq_error.mp hrun) hf hg
  | or => exact addAnd_eq_error (complement_eq_error.mp hrun) hf hg
  | nor => exact addAnd_eq_error hrun hf hg
  | xor => exact hxor hrun
  | xnor => exact hxor (complement_eq_error.mp hrun)

/-- **A network that gained a connective** of two of its signals: the new signal has the value of
the truth function; what was there is as it was and has the values it had; and to ask for the
connective once more, with the operands in either order, gives the same signal and changes
nothing at all. -/
structure Network.Gains (n : Network) (c : Connective) (f g s : Signal) (m : Network) : Prop where
  wellFormed : m.WellFormed
  acyclic : m.Acyclic
  isLive : m.isLive s.node = true
  read : ∀ α, Connectives.bool.read (m.interpret .bool α) s
    = c.value (Connectives.bool.read (n.interpret .bool α) f)
      (Connectives.bool.read (n.interpret .bool α) g)
  shape : ∀ v, v < n.size → m.shape v = n.shape v
  interpret : ∀ v, n.isLive v = true → ∀ α, m.interpret .bool α v = n.interpret .bool α v
  inputs : m.inputs = n.inputs
  outputs : m.outputs = n.outputs
  again : c.build f g m = .ok s m
  swapped : c.build g f m = .ok s m

/-- **A connective of live signals is built**, if the network has it already or the counters have
room for it. -/
theorem build_exact (c : Connective) (hn : n.WellFormed) (hacyclic : n.Acyclic)
    (hf : n.isLive f.node = true) (hg : n.isLive g.node = true)
    (hroom : (∀ s, ¬ n.Has c f g s) → n.HasRoomFor c f g) :
    ∃ s m, c.build f g n = .ok s m ∧ n.Gains c f g s m := by
  obtain ⟨s, m, hrun⟩ : ∃ s m, c.build f g n = .ok s m := by
    by_cases hnone : ∀ s, ¬ n.Has c f g s
    · exact c.exists_build hn hf hg hnone (hroom hnone)
    · obtain ⟨s, hs⟩ := not_forall_not.mp hnone
      exact ⟨s, n, hs.build_eq hn hf hg⟩
  obtain ⟨hm, hext, hs, hhas⟩ := Connective.build_spec hn hrun
  have hmacyclic := hext.acyclic hacyclic hn.fanIns_live
  have hkeeps : ∀ v, n.isLive v = true → ∀ α, m.interpret .bool α v = n.interpret .bool α v :=
    fun v hv α => hext.interpret hn hacyclic hm hv
  have hvalue : ∀ α, Connectives.bool.read (m.interpret .bool α) s
      = c.value (Connectives.bool.read (n.interpret .bool α) f)
        (Connectives.bool.read (n.interpret .bool α) g) := by
    intro α
    rw [hhas.read (models_interpret hm hmacyclic), Connectives.read_congr (hkeeps _ hf α),
      Connectives.read_congr (hkeeps _ hg α)]
  exact ⟨s, m, hrun, hm, hmacyclic, hs, hvalue, hext.shape, hkeeps, hext.inputs, hext.outputs,
    hhas.build_eq hm (hext.isLive hf) (hext.isLive hg),
    hhas.symm.build_eq hm (hext.isLive hg) (hext.isLive hf)⟩

/-- The exclusive disjunction of a gate and the complement of one of its fan-ins takes three new
gates, once. -/
theorem build_exact_of_xor : ∃ (n m : Network) (s : Signal), n.WellFormed ∧ n.Acyclic ∧
    n.isLive 3 = true ∧ n.isLive 1 = true ∧ n.HasRoomFor .xor (.ofNode 3) ⟨1, true⟩ ∧
      Connective.xor.build (.ofNode 3) ⟨1, true⟩ n = .ok s m ∧ m.size = n.size + 3 ∧
        n.Gains .xor (.ofNode 3) ⟨1, true⟩ s m := by
  let n := Network.empty.assemble [.input, .input, .gate 2 4, .output 6]
  obtain ⟨hn, hacyclic⟩ : n.Sound := Network.Sound.assemble wellFormed_empty _
  have hends : (match Connective.xor.build (.ofNode 3) ⟨1, true⟩ n with
    | .ok _ m => m.size == n.size + 3 | .error _ _ => false) = true := by decide +kernel
  have hf : n.isLive 3 = true := by decide +kernel
  have hg : n.isLive 1 = true := by decide +kernel
  have hroom : n.HasRoomFor .xor (.ofNode 3) ⟨1, true⟩ := by
    unfold Network.HasRoomFor
    decide +kernel
  obtain ⟨s, m, hrun, hgains⟩ :=
    build_exact .xor (f := .ofNode 3) (g := ⟨1, true⟩) hn hacyclic hf hg fun _ => hroom
  rw [hrun] at hends
  exact ⟨n, m, s, hn, hacyclic, hf, hg, hroom, hrun, by simpa using hends, hgains⟩

/-- **Nothing is built without room**: a counter is full on the way. -/
theorem build_eq_counterOverflow (hn : n.WellFormed) (hf : n.isLive f.node = true)
    (hg : n.isLive g.node = true) (hnone : ∀ s, ¬ n.Has c f g s) (hfull : ¬ n.HasRoomFor c f g) :
    ∃ m, c.build f g n = .error .counterOverflow m := by
  cases hrun : c.build f g n with
  | ok s m =>
      refine absurd (fun v hv hpos => ?_) hfull
      obtain ⟨hfanout, hle⟩ := Connective.build_fanout hn hnone hrun hv
      exact hfanout ▸ hle hpos
  | error fault m => exact ⟨m, by rw [Connective.build_eq_error hn hf hg hrun]⟩

/-- **A counter may be full**, and then no new gate can read its node. -/
theorem build_may_overflow : ¬ ∀ (c : Connective) (n : Network) (f g : Signal), n.WellFormed →
    n.Acyclic → n.isLive f.node = true → n.isLive g.node = true →
      ∃ s m, c.build f g n = .ok s m ∧ n.Gains c f g s m := by
  intro h
  let n := Network.empty.assemble [.input, .input]
  have hf : n.isLive 1 = true := by decide +kernel
  have hg : n.isLive 2 = true := by decide +kernel
  have hlow : n.fanout 1 ≤ counterLimit := by decide +kernel
  have hkey : n.hash[(⟨⟨1, false⟩, ⟨2, false⟩⟩ : AndKey)]? = none := by decide +kernel
  have hn : n.Sound := Network.Sound.assemble wellFormed_empty _
  clear_value n
  obtain ⟨hsame, hcount⟩ := crowd_spec hf hlow
  obtain ⟨hm, hacyclic⟩ := hn.crowd 1
  have hf' : (n.crowd 1).isLive 1 = true := (hsame.isLive 1).trans hf
  have hg' : (n.crowd 1).isLive 2 = true := (hsame.isLive 2).trans hg
  have hform : conjunction (.ofNode 1) (.ofNode 2) = .gate ⟨⟨1, false⟩, ⟨2, false⟩⟩ := by decide
  have hnone : ∀ s, ¬ (n.crowd 1).IsAnd (.ofNode 1) (.ofNode 2) s := by
    rintro s (hfolded | ⟨key, hgate, -, hs⟩)
    · cases hform.symm.trans hfolded
    · cases hform.symm.trans hgate
      cases hkey.symm.trans ((hn.1.hash_iff _ s.node).mpr (hsame.gate.mp hs))
  have hfree : (n.crowd 1).conjunction? (.ofNode 1) (.ofNode 2) = none :=
    Option.eq_none_iff_forall_ne_some.mpr fun s hs =>
      hnone s ((conjunction?_eq_some hm).mp hs)
  have hfull : ¬ (n.crowd 1).HasRoomFor .and (.ofNode 1) (.ofNode 2) := by
    intro hroom
    have hpos : 0 < (n.crowd 1).usesForAnd (.ofNode 1) (.ofNode 2) 1 :=
      usesForAnd_pos.mpr ⟨hfree, .inl rfl⟩
    have hle : (n.crowd 1).fanout 1 + (n.crowd 1).usesForAnd (.ofNode 1) (.ofNode 2) 1
        ≤ counterLimit := hroom 1 (lt_size_of_isLive hf') hpos
    omega
  obtain ⟨s, m, hrun, -⟩ := h .and (n.crowd 1) (.ofNode 1) (.ofNode 2) hm hacyclic hf' hg'
  obtain ⟨l, herror⟩ :=
    build_eq_counterOverflow (c := .and) (f := .ofNode 1) (g := .ofNode 2) hm hf' hg' hnone hfull
  cases hrun.symm.trans herror

end AndInverter
