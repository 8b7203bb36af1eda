import AndInverter.Restructure.Associativity
import AndInverter.Restructure.Distributivity
import AndInverter.Restructure.ThreeLevel
import AndInverter.Proofs.Level
import AndInverter.Proofs.Network.Construction

/-!
The three laws.  What a law finds at a gate is a part of the network above it, and what it
builds from that has the value of the gate and is not above it.

* `Network.Joins`: a gate with its fan-ins in either order;
* `Network.Proposes`: a replacement for a gate, as good as the gate;
* `Associativity.build_spec`, `Distributivity.build_spec`, `ThreeLevel.build_spec`: what is
  built from what was found is such a replacement;
* `Law.Suggests`: a replacement that a law builds for a gate.
-/

namespace AndInverter

namespace Network

variable {n m : Network} {gate g : Nat} {a b c s : Signal} {pins : Multiset Nat}

/-! ### Gates with their fan-ins in either order -/

/-- A live gate with its fan-ins in either order. -/
def Joins (n : Network) (g : Nat) (a b : Signal) : Prop := n.Gate g a b ∨ n.Gate g b a

lemma Joins.isLiveGate (h : n.Joins g a b) : n.isLiveGate g = true :=
  h.elim (fun h => isLiveGate_iff.mpr ⟨_, _, h⟩) fun h => isLiveGate_iff.mpr ⟨_, _, h⟩

lemma Joins.live (h : n.Joins g a b) (hn : n.Consistent pins) :
    n.isLive a.node = true ∧ n.isLive b.node = true :=
  h.elim (hn.fanIns_live g a b) fun h => (hn.fanIns_live g b a h).symm

lemma Joins.extends (h : n.Joins g a b) (hext : n.Extends m) : m.Joins g a b :=
  h.imp hext.gate_of hext.gate_of

lemma Joins.level (h : n.Joins g a b) (hn : n.Acyclic) :
    n.level g = 1 + max (n.level a.node) (n.level b.node) := by
  rcases h with h | h
  · exact level_gate hn h
  · rw [level_gate hn h, max_comm]

/-- A gate reads from both of its fan-ins. -/
lemma Joins.reads (h : n.Joins g a b) : n.Reads g a.node ∧ n.Reads g b.node :=
  h.elim (fun hg => ⟨hg.reads_left, hg.reads_right⟩) fun hg => ⟨hg.reads_right, hg.reads_left⟩

/-- The fan-ins of a gate are distinct nodes, and neither is the constant. -/
lemma Joins.ne (h : n.Joins g a b) (hn : n.Consistent pins) :
    a.node ≠ b.node ∧ a.node ≠ 0 ∧ b.node ≠ 0 := by
  rcases h with hg | hg <;> have hord := hn.ordered _ _ _ hg <;> omega

/-- The truth value of a gate. -/
lemma Joins.value {α φ : Nat → Bool} (h : n.Joins g a b) (hφ : Connectives.bool.Models α φ n) :
    φ g = (Connectives.bool.read φ a && Connectives.bool.read φ b) := by
  rcases h with h | h
  · exact hφ.gate g a b h
  · rw [Bool.and_comm]
    exact hφ.gate g b a h

lemma value_of_plain {φ : Nat → Bool} (h : s.complemented = false) :
    Connectives.bool.read φ s = φ s.node := by
  simp [Connectives.read, h]

lemma value_of_complemented {φ : Nat → Bool} (h : s.complemented = true) :
    Connectives.bool.read φ s = !φ s.node := by
  simp [Connectives.read, h, Connectives.bool]

lemma value_not {φ : Nat → Bool} (s : Signal) :
    Connectives.bool.read φ (~~~s) = !Connectives.bool.read φ s :=
  Connectives.read_not Connectives.bool_lawful s

lemma IsAnd.value {α φ : Nat → Bool} (h : n.IsAnd a b s) (hφ : Connectives.bool.Models α φ n) :
    Connectives.bool.read φ s = (Connectives.bool.read φ a && Connectives.bool.read φ b) :=
  h.read Connectives.bool_lawful hφ

/-- A conjunction is at most one level above its operands. -/
lemma IsAnd.level_le (h : n.IsAnd a b s) (hn : n.Acyclic) (hzero : n.level 0 = 0) :
    n.level s.node ≤ 1 + max (n.level a.node) (n.level b.node) := by
  rcases h with hform | ⟨key, hform, -, hgate⟩
  · rcases node_of_conjunction_folded hform with h0 | rfl | rfl
    · rw [h0, hzero]
      exact Nat.zero_le _
    · omega
    · omega
  · rw [level_gate hn hgate]
    rcases node_of_conjunction_gate hform (.inl rfl) with hl | hl <;>
      rcases node_of_conjunction_gate hform (.inr rfl) with hr | hr <;> rw [hl, hr] <;> omega

/-! ### Replacements -/

/-- **A replacement for a gate**, built in an extension of the network: it is live, it has the
truth value of the gate, and it is not above the gate. -/
structure Proposes (n m : Network) (gate : Nat) (s : Signal) : Prop where
  isLiveGate : n.isLiveGate gate = true
  wellFormed : m.WellFormed
  grows : n.Extends m
  isLive : m.isLive s.node = true
  value : ∀ {α φ : Nat → Bool}, Connectives.bool.Models α φ m →
    φ gate = Connectives.bool.read φ s
  level : m.level s.node ≤ n.level gate

/-- An extension leaves the level of a live node alone. -/
lemma Extends.level (h : n.Extends m) (hn : n.WellFormed) (hacyclic : n.Acyclic)
    (hm : m.WellFormed) {v : Nat} (hv : n.isLive v = true) : m.level v = n.level v :=
  h.interpret hn hacyclic hm hv

/-- A replacement does not depend on the gate. -/
lemma Proposes.not_dependsOn (h : n.Proposes m gate s) (hn : n.WellFormed) (hacyclic : n.Acyclic)
    (hne : s.node ≠ gate) : ¬ m.DependsOn s.node gate := by
  obtain ⟨a, b, hg⟩ := isLiveGate_iff.mp h.isLiveGate
  intro hdep
  refine hne (hdep.eq_of_level_le (h.grows.acyclic hacyclic hn.fanIns_live) ?_)
  rw [h.grows.level hn hacyclic h.wellFormed hg.isLive]
  exact h.level

end Network

open Network

variable {n m : Network} {gate : Nat} {view : DepthView} {s : Signal}

lemma liveFanIns?_eq_ok {v : Nat} {a b : Signal} :
    n.liveFanIns? v = .ok (some (a, b)) → n.Gate v a b := by
  intro h
  simp only [Network.liveFanIns?, bind_eq_except_ok, pure_eq_except_ok, Network.read] at h
  obtain ⟨slot, hslot, h⟩ := h
  cases hs : n.slot? v with
  | none => simp [hs] at hslot
  | some slot' =>
      simp only [hs, Except.ok.injEq] at hslot
      subst hslot
      split_ifs at h with hdead
      refine gate_of_fanIns? ?_ ?_
      · simp [Network.fanIns?, hs, h]
      · simpa [Network.isLive, hs] using hdead

/-- A live gate is looked up with its fan-ins. -/
lemma Network.Gate.liveFanIns? {v : Nat} (h : n.Gate v a b) :
    n.liveFanIns? v = .ok (some (a, b)) := by
  obtain ⟨slot, hs, hslot⟩ := Option.map_eq_some_iff.mp (gate_iff.mp h)
  rw [Prod.mk.injEq] at hslot
  refine bind_eq_except_ok.mpr ⟨slot, by rw [Network.read, hs], ?_⟩
  simp [hslot.2, Slot.fanIns?, hslot.1, NodeKind.fanIns?, pure_eq_except_ok]

/-- A live gate is looked up with its fan-ins, in one of two orders. -/
lemma Network.Joins.liveFanIns? {v : Nat} (h : n.Joins v a b) :
    ∃ f, n.liveFanIns? v = .ok (some f) ∧ (f = (a, b) ∨ f = (b, a)) :=
  h.elim (fun hg => ⟨_, hg.liveFanIns?, .inl rfl⟩) fun hg => ⟨_, hg.liveFanIns?, .inr rfl⟩

/-- The fan-ins that were looked up, in either order. -/
lemma Network.Joins.of_fanIns {v : Nat} {f : Signal × Signal} {a b : Signal}
    (h : n.liveFanIns? v = .ok (some f)) (hends : (a = f.1 ∧ b = f.2) ∨ (a = f.2 ∧ b = f.1)) :
    n.Joins v a b := by
  rcases hends with ⟨rfl, rfl⟩ | ⟨rfl, rfl⟩
  · exact .inl (liveFanIns?_eq_ok h)
  · exact .inr (liveFanIns?_eq_ok h)

/-- **A conjunction is added**: it is at most one level above its operands, and no other level
changes. -/
structure Network.Conjoins (n m : Network) (f g s : Signal) : Prop where
  wellFormed : m.WellFormed
  acyclic : m.Acyclic
  grows : n.Extends m
  isLive : m.isLive s.node = true
  isAnd : m.IsAnd f g s
  level : ∀ v, n.isLive v = true → m.level v = n.level v
  level_le : m.level s.node ≤ 1 + max (n.level f.node) (n.level g.node)

lemma conjoins_of_addAnd {f g : Signal} (hn : n.WellFormed) (hacyclic : n.Acyclic)
    (hrun : Edit.addAnd f g n = .ok s m) : n.Conjoins m f g s := by
  obtain ⟨hf, hg, hm, hext, -, hlive, hand⟩ := addAnd_spec hn hrun
  have hm' := hext.acyclic hacyclic hn.fanIns_live
  have hkeep : ∀ v, n.isLive v = true → m.level v = n.level v :=
    fun v hv => hext.interpret hn hacyclic hm hv
  refine ⟨hm, hm', hext, hlive, hand, hkeep, ?_⟩
  rw [← hkeep _ hf, ← hkeep _ hg]
  exact hand.level_le hm' hm.level_zero

/-- A search that found nothing found no opportunity. -/
lemma absent_ne_present {α : Type} {entry : Option LogEntry} {found : α} :
    ¬ (pure (Search.absent entry) : Except Fault (Search α)) = .ok (.present found) := by
  simp [pure_eq_except_ok]

/-! ### Associativity -/

namespace Associativity

/-- What the law found: a gate `p ∧ (a ∧ b)` above the level of `(p ∧ b) ∧ a`. -/
def Matches (n : Network) (gate : Nat) (o : Opportunity) : Prop :=
  ∃ q, n.Joins gate o.p q ∧ q.complemented = false ∧ n.Joins q.node o.a o.b ∧
    1 + max (1 + max (n.level o.p.node) (n.level o.b.node)) (n.level o.a.node) < n.level gate

lemma skewed_eq_some {f₀ f₁ p q : Signal} {level₀ level₁ : Nat}
    (h : skewed f₀ f₁ level₀ level₁ = some (p, q)) :
    ((p = f₀ ∧ q = f₁) ∨ (p = f₁ ∧ q = f₀)) ∧ q.complemented = false := by
  simp only [skewed] at h
  split_ifs at h with h₀ h₁
  · cases h
    exact ⟨.inr ⟨rfl, rfl⟩, h₀.2⟩
  · cases h
    exact ⟨.inl ⟨rfl, rfl⟩, h₁.2⟩

lemma singleCritical_eq_some {g₀ g₁ a b : Signal} {critical₀ critical₁ : Bool}
    (h : singleCritical g₀ g₁ critical₀ critical₁ = some (a, b)) :
    (a = g₀ ∧ b = g₁) ∨ (a = g₁ ∧ b = g₀) := by
  cases critical₀ <;> cases critical₁ <;> simp [singleCritical] at h
  · exact .inr ⟨h.1.symm, h.2.symm⟩
  · exact .inl ⟨h.1.symm, h.2.symm⟩

theorem search_spec {o : Opportunity} (hview : view.Describes n)
    (h : search gate n view = .ok (.present o)) : Matches n gate o := by
  simp only [search, bind_eq_except_ok] at h
  obtain ⟨_ | f, hgate, h⟩ := h
  · exact (absent_ne_present h).elim
  simp only [bind_eq_except_ok] at h
  obtain ⟨critical, -, h⟩ := h
  split_ifs at h with hcritical hinputs
  · exact (absent_ne_present h).elim
  · exact (absent_ne_present h).elim
  simp only [bind_eq_except_ok] at h
  obtain ⟨level₀, -, level₁, -, h⟩ := h
  -- the deep fan-in is a gate, and one of its operands is the deep one
  rcases hskewed : skewed f.1 f.2 level₀ level₁ with _ | ⟨p, q⟩
  · rw [hskewed] at h
    exact (absent_ne_present h).elim
  simp only [hskewed, bind_eq_except_ok] at h
  obtain ⟨hends, hq⟩ := skewed_eq_some hskewed
  obtain ⟨_ | g, hoperands, h⟩ := h
  · exact (absent_ne_present h).elim
  simp only [bind_eq_except_ok] at h
  obtain ⟨critical₀, -, critical₁, -, h⟩ := h
  rcases hsingle : singleCritical g.1 g.2 critical₀ critical₁ with _ | ⟨a, b⟩
  · rw [hsingle] at h
    exact (absent_ne_present h).elim
  simp only [hsingle, bind_eq_except_ok, hview.levelOf_eq_ok] at h
  obtain ⟨_, ⟨-, rfl⟩, _, ⟨-, rfl⟩, _, ⟨-, rfl⟩, _, ⟨-, rfl⟩, h⟩ := h
  split_ifs at h with hle
  · exact (absent_ne_present h).elim
  rw [pure_eq_except_ok, Search.present.injEq] at h
  subst h
  exact ⟨q, .of_fanIns hgate hends, hq, .of_fanIns hoperands (singleCritical_eq_some hsingle),
    Nat.lt_of_not_le hle⟩

/-- **The replacement by the associative law.** -/
theorem build_spec {o : Opportunity} (hn : n.WellFormed) (hacyclic : n.Acyclic)
    (h : Matches n gate o) (hrun : build o n = .ok s m) :
    n.Proposes m gate s ∧ m.level s.node < n.level gate := by
  obtain ⟨q, hgate, hq, hjoins, hlevel⟩ := h
  simp only [build, bind_eq_ok] at hrun
  obtain ⟨pb, n₁, hpb, hs⟩ := hrun
  have h₁ := conjoins_of_addAnd hn hacyclic hpb
  have h₂ := conjoins_of_addAnd h₁.wellFormed h₁.acyclic hs
  have hext := h₁.grows.trans h₂.grows
  have hless : m.level s.node < n.level gate := by
    have hle₁ := h₁.level_le
    have hle₂ := h₂.level_le
    rw [h₁.level _ (hjoins.live hn).1] at hle₂
    omega
  have hvalue : ∀ {α φ : Nat → Bool}, Connectives.bool.Models α φ m →
      φ gate = Connectives.bool.read φ s := by
    intro α φ hφ
    rw [(hgate.extends hext).value hφ, value_of_plain hq, (hjoins.extends hext).value hφ,
      h₂.isAnd.value hφ, (h₁.isAnd.extends h₂.grows).value hφ]
    cases Connectives.bool.read φ o.p <;> cases Connectives.bool.read φ o.a <;> simp
  exact ⟨⟨hgate.isLiveGate, h₂.wellFormed, hext, h₂.isLive, hvalue, hless.le⟩, hless⟩

end Associativity

/-! ### Distributivity -/

namespace Distributivity

/-- What the law found: two gates with a common operand above a third one. -/
def Matches (n : Network) (gate : Nat) (o : Opportunity) : Prop :=
  ∃ x y, n.Joins gate x y ∧ x.complemented = o.complemented ∧ y.complemented = o.complemented ∧
    n.Joins x.node o.shared o.a ∧ n.Joins y.node o.shared o.b

lemma common_eq_some {x₀ x₁ y₀ y₁ shared a b : Signal}
    (h : common (x₀, x₁) (y₀, y₁) = some (shared, a, b)) :
    ((shared = x₀ ∧ a = x₁) ∨ (shared = x₁ ∧ a = x₀)) ∧
      ((shared = y₀ ∧ b = y₁) ∨ (shared = y₁ ∧ b = y₀)) := by
  simp only [common] at h
  split_ifs at h with h₀ h₁ h₂ h₃
  · cases h
    exact ⟨.inl ⟨rfl, rfl⟩, .inl ⟨h₀, rfl⟩⟩
  · cases h
    exact ⟨.inl ⟨rfl, rfl⟩, .inr ⟨h₁, rfl⟩⟩
  · cases h
    exact ⟨.inr ⟨rfl, rfl⟩, .inl ⟨h₂, rfl⟩⟩
  · cases h
    exact ⟨.inr ⟨rfl, rfl⟩, .inr ⟨h₃, rfl⟩⟩

theorem search_spec {o : Opportunity} (h : search gate n view = .ok (.present o)) :
    Matches n gate o := by
  simp only [search, bind_eq_except_ok] at h
  obtain ⟨_ | ⟨x, y⟩, hgate, h⟩ := h
  · exact (absent_ne_present h).elim
  simp only at h
  by_cases hused : n.fanout x.node ≠ 1 ∨ n.fanout y.node ≠ 1
  · rw [if_pos hused] at h
    exact (absent_ne_present h).elim
  simp only [if_neg hused, bind_eq_except_ok] at h
  -- both fan-ins are gates, of the same polarity, with an operand in common
  obtain ⟨_ | xs, hx, h⟩ := h
  · exact (absent_ne_present h).elim
  simp only [bind_eq_except_ok] at h
  obtain ⟨_ | ys, hy, h⟩ := h
  · exact (absent_ne_present h).elim
  simp only at h
  split_ifs at h with hpolarity
  · exact (absent_ne_present h).elim
  rcases hcommon : common xs ys with _ | ⟨shared, a, b⟩
  · rw [hcommon] at h
    exact (absent_ne_present h).elim
  simp only [hcommon, bind_eq_except_ok] at h
  obtain ⟨level, -, h⟩ := h
  rw [pure_eq_except_ok, Search.present.injEq] at h
  subst h
  obtain ⟨hxs, hys⟩ := common_eq_some hcommon
  exact ⟨x, y, .inl (liveFanIns?_eq_ok hgate), rfl, (not_not.mp hpolarity).symm,
    .of_fanIns hx hxs, .of_fanIns hy hys⟩

/-- A conjunction of two gates with a common operand is two levels above the three operands. -/
lemma Matches.level_le {o : Opportunity} (h : Matches n gate o) (hacyclic : n.Acyclic) :
    2 + max (n.level o.shared.node) (max (n.level o.a.node) (n.level o.b.node))
      ≤ n.level gate := by
  obtain ⟨x, y, hgate, -, -, hx, hy⟩ := h
  have h₀ := hgate.level hacyclic
  have h₁ := hx.level hacyclic
  have h₂ := hy.level hacyclic
  omega

/-- Of either polarity, two conjunctions are built. -/
lemma exists_addAnd_of_build (h : build o n = .ok s m) : ∃ f g both either t n₁,
    Edit.addAnd f g n = .ok both n₁ ∧ Edit.addAnd o.shared either n₁ = .ok t m ∧
      (f.node = o.a.node ∧ g.node = o.b.node) ∧ either.node = both.node ∧ s.node = t.node := by
  rw [build] at h
  cases hc : o.complemented with
  | true =>
      simp only [hc, if_true, Edit.addNand, bind_eq_ok, pure_eq_ok] at h
      obtain ⟨_, _, ⟨both, n₁, hboth, rfl, rfl⟩, t, _, ht, rfl, rfl⟩ := h
      exact ⟨_, _, both, _, t, n₁, hboth, ht, ⟨rfl, rfl⟩, rfl, rfl⟩
  | false =>
      simp only [hc, if_neg Bool.false_ne_true, bind_eq_ok] at h
      obtain ⟨both, n₁, hboth, hs⟩ := h
      exact ⟨_, _, both, _, s, n₁, hboth, hs, ⟨rfl, rfl⟩, rfl, rfl⟩

/-- **The replacement by a distributive law**, which need not be below the gate. -/
theorem build_spec {o : Opportunity} (hn : n.WellFormed) (hacyclic : n.Acyclic)
    (h : Matches n gate o) (hrun : build o n = .ok s m) : n.Proposes m gate s := by
  have hlevel := h.level_le hacyclic
  obtain ⟨x, y, hgate, hxc, hyc, hx, hy⟩ := h
  rw [build] at hrun
  cases hc : o.complemented with
  | true =>
      simp only [hc, if_true, Edit.addNand, bind_eq_ok, pure_eq_ok] at hrun
      obtain ⟨_, n₁, ⟨either, _, heither, rfl, rfl⟩, both, _, hboth, rfl, rfl⟩ := hrun
      have h₁ := conjoins_of_addAnd hn hacyclic heither
      have h₂ := conjoins_of_addAnd h₁.wellFormed h₁.acyclic hboth
      have hext := h₁.grows.trans h₂.grows
      refine ⟨hgate.isLiveGate, h₂.wellFormed, hext, h₂.isLive, fun {α φ} hφ => ?_, ?_⟩
      · rw [(hgate.extends hext).value hφ, value_of_complemented (hxc.trans hc),
          value_of_complemented (hyc.trans hc), (hx.extends hext).value hφ,
          (hy.extends hext).value hφ, value_not, h₂.isAnd.value hφ, value_not,
          (h₁.isAnd.extends h₂.grows).value hφ, value_not, value_not]
        cases Connectives.bool.read φ o.shared <;> cases Connectives.bool.read φ o.a <;> simp
      · have hle₁ := h₁.level_le
        have hle₂ := h₂.level_le
        rw [h₁.level _ (hx.live hn).1] at hle₂
        simp only [Signal.node_not] at hle₁ hle₂ ⊢
        omega
  | false =>
      simp only [hc, if_neg Bool.false_ne_true, bind_eq_ok] at hrun
      obtain ⟨both, n₁, hboth, hs⟩ := hrun
      have h₁ := conjoins_of_addAnd hn hacyclic hboth
      have h₂ := conjoins_of_addAnd h₁.wellFormed h₁.acyclic hs
      have hext := h₁.grows.trans h₂.grows
      refine ⟨hgate.isLiveGate, h₂.wellFormed, hext, h₂.isLive, fun {α φ} hφ => ?_, ?_⟩
      · rw [(hgate.extends hext).value hφ, value_of_plain (hxc.trans hc),
          value_of_plain (hyc.trans hc), (hx.extends hext).value hφ, (hy.extends hext).value hφ,
          h₂.isAnd.value hφ, (h₁.isAnd.extends h₂.grows).value hφ]
        cases Connectives.bool.read φ o.shared <;> simp
      · have hle₁ := h₁.level_le
        have hle₂ := h₂.level_le
        rw [h₁.level _ (hx.live hn).1] at hle₂
        omega

end Distributivity

/-! ### The three-level law -/

namespace ThreeLevel

/-- What the law found: a gate `¬(¬(b ∧ a) ∧ c) ∧ d` with `b` alone deepest on each level. -/
def Matches (n : Network) (gate : Nat) (o : Opportunity) : Prop :=
  ∃ z w, n.Joins gate z o.d ∧ z.complemented = true ∧ n.Joins z.node w o.c ∧
    w.complemented = true ∧ n.Joins w.node o.b o.a ∧
      n.level o.d.node + 3 < n.level z.node ∧ n.level o.c.node < n.level w.node ∧
        n.level o.a.node < n.level o.b.node

lemma deeperFirst_eq_ok {f₀ f₁ x y : Signal} {levelX levelY : Nat} (hview : view.Describes n)
    (h : deeperFirst n view f₀ f₁ = .ok ((x, levelX), (y, levelY))) :
    ((x = f₀ ∧ y = f₁) ∨ (x = f₁ ∧ y = f₀)) ∧ n.level x.node = levelX ∧
      n.level y.node = levelY := by
  simp only [deeperFirst, bind_eq_except_ok, hview.levelOf_eq_ok, pure_eq_except_ok] at h
  obtain ⟨_, ⟨-, rfl⟩, _, ⟨-, rfl⟩, h⟩ := h
  split_ifs at h
  · cases h
    exact ⟨.inl ⟨rfl, rfl⟩, rfl, rfl⟩
  · cases h
    exact ⟨.inr ⟨rfl, rfl⟩, rfl, rfl⟩

theorem search_spec {o : Opportunity} (hview : view.Describes n)
    (h : search gate n view = .ok (.present o)) : Matches n gate o := by
  simp only [search, bind_eq_except_ok] at h
  obtain ⟨_ | f, hgate, h⟩ := h
  · exact (absent_ne_present h).elim
  -- the way down follows the deeper fan-in three times
  simp only [bind_eq_except_ok] at h
  obtain ⟨⟨⟨z, levelZ⟩, d, levelD⟩, hzd, h⟩ := h
  simp only at h
  split_ifs at h with hz
  · exact (absent_ne_present h).elim
  simp only [bind_eq_except_ok] at h
  obtain ⟨_ | z₀₁, hz', h⟩ := h
  · exact (absent_ne_present h).elim
  simp only [bind_eq_except_ok] at h
  obtain ⟨⟨⟨w, levelW⟩, c, levelC⟩, hwc, h⟩ := h
  simp only at h
  split_ifs at h with hw
  · exact (absent_ne_present h).elim
  simp only [bind_eq_except_ok] at h
  obtain ⟨_ | w₀₁, hw', h⟩ := h
  · exact (absent_ne_present h).elim
  simp only [bind_eq_except_ok] at h
  obtain ⟨⟨⟨b, levelB⟩, a, levelA⟩, hba, h⟩ := h
  simp only at h
  split_ifs at h with hb
  · exact (absent_ne_present h).elim
  simp only [bind_eq_except_ok, pure_eq_except_ok, Search.present.injEq] at h
  obtain ⟨level, -, rfl⟩ := h
  obtain ⟨hends, rfl, rfl⟩ := deeperFirst_eq_ok hview hzd
  obtain ⟨hends', rfl, rfl⟩ := deeperFirst_eq_ok hview hwc
  obtain ⟨hends'', rfl, rfl⟩ := deeperFirst_eq_ok hview hba
  rw [not_or, Bool.not_eq_false, Nat.not_le] at hz hw
  exact ⟨z, w, .of_fanIns hgate hends, hz.1, .of_fanIns hz' hends', hw.1,
    .of_fanIns hw' hends'', hz.2, hw.2, Nat.lt_of_not_le hb⟩

/-- **The replacement by the three-level law.** -/
theorem build_spec {o : Opportunity} (hn : n.WellFormed) (hacyclic : n.Acyclic)
    (h : Matches n gate o) (hrun : build o n = .ok s m) :
    n.Proposes m gate s ∧ m.level s.node < n.level gate := by
  obtain ⟨z, w, hgate, hzc, hz, hwc, hw, hlevelD, hlevelC, hlevelA⟩ := h
  simp only [build, Edit.addNand, bind_eq_ok, pure_eq_ok] at hrun
  obtain ⟨ad, n₁, had, adb, n₂, hadb, notCD, n₃, hnotCD, both, m, hboth, rfl, rfl⟩ := hrun
  have h₁ := conjoins_of_addAnd hn hacyclic had
  have h₂ := conjoins_of_addAnd h₁.wellFormed h₁.acyclic hadb
  have h₃ := conjoins_of_addAnd h₂.wellFormed h₂.acyclic hnotCD
  have h₄ := conjoins_of_addAnd h₃.wellFormed h₃.acyclic hboth
  have hlast := h₃.grows.trans h₄.grows
  have hext : n.Extends m := (h₁.grows.trans h₂.grows).trans hlast
  have hless : m.level both.node < n.level gate := by
    have h₀ := hgate.level hacyclic
    have hz' := hz.level hacyclic
    have hw' := hw.level hacyclic
    have hle₁ := h₁.level_le
    have hle₂ := h₂.level_le
    have hle₃ := h₃.level_le
    have hle₄ := h₄.level_le
    simp only [Signal.node_not] at hle₃ hle₄
    have hlc := (hz.live hn).2
    have hld := (hgate.live hn).2
    rw [h₁.level _ (hw.live hn).1] at hle₂
    rw [h₂.level _ (h₁.grows.isLive hlc), h₁.level _ hlc, h₂.level _ (h₁.grows.isLive hld),
      h₁.level _ hld] at hle₃
    rw [h₃.level _ h₂.isLive] at hle₄
    omega
  have hvalue : ∀ {α φ : Nat → Bool}, Connectives.bool.Models α φ m →
      φ gate = Connectives.bool.read φ (~~~both) := by
    intro α φ hφ
    rw [(hgate.extends hext).value hφ, value_of_complemented hzc, (hz.extends hext).value hφ,
      value_of_complemented hwc, (hw.extends hext).value hφ, value_not, h₄.isAnd.value hφ,
      value_not, value_not, (h₃.isAnd.extends h₄.grows).value hφ,
      (h₂.isAnd.extends hlast).value hφ, ((h₁.isAnd.extends h₂.grows).extends hlast).value hφ,
      value_not]
    cases Connectives.bool.read φ o.a <;> cases Connectives.bool.read φ o.b <;>
      cases Connectives.bool.read φ o.c <;> cases Connectives.bool.read φ o.d <;> rfl
  exact ⟨⟨hgate.isLiveGate, h₄.wellFormed, hext, h₄.isLive, hvalue, hless.le⟩, hless⟩

end ThreeLevel

/-! ### All laws -/

/-- **What a law suggests** for a gate: a replacement, built from what the law found there. -/
def Law.Suggests (law : Law) (n : Network) (gate : Nat) (s : Signal) (m : Network) : Prop :=
  match law with
  | .associativity => ∃ o, Associativity.Matches n gate o ∧ Associativity.build o n = .ok s m
  | .distributivity => ∃ o, Distributivity.Matches n gate o ∧ Distributivity.build o n = .ok s m
  | .threeLevel => ∃ o, ThreeLevel.Matches n gate o ∧ ThreeLevel.build o n = .ok s m

/-- **What a law suggests is a replacement.** -/
theorem Law.Suggests.proposes {law : Law} (h : law.Suggests n gate s m) (hn : n.WellFormed)
    (hacyclic : n.Acyclic) : n.Proposes m gate s := by
  cases law <;> obtain ⟨o, hmatches, hbuild⟩ := h
  · exact (Associativity.build_spec hn hacyclic hmatches hbuild).1
  · exact Distributivity.build_spec hn hacyclic hmatches hbuild
  · exact (ThreeLevel.build_spec hn hacyclic hmatches hbuild).1

end AndInverter
