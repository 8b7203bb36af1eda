import AndInverter.Proofs.Restructure.Outcome

/-!
The associative law and critical paths.  A gate on a critical path hands the path on to its
deepest fan-in, so where exactly one operand is critical that operand is the deeper one, and the
gate that is built comes out one level lower.

* `Associativity.Passes`: a gate that passes the tests of the law;
* `Passes.levels`: the critical operand is deeper than the other one, and it is two levels below
  the gate;
* `Passes.search_eq_ok`: so the level that the law predicts never keeps it from an opportunity;
* `apply_of_passes`: what comes of such a gate.
-/

namespace AndInverter

open Network Restructuring

variable {n : Network} {gate : Nat} {view : DepthView} {p q a b : Signal}

namespace Associativity

/-- **A gate passes the tests** of the law: it is critical, one of its operands is not
complemented and more than a level deeper than the other, and of the operands of that one
exactly one is critical. -/
structure Passes (n : Network) (view : DepthView) (gate : Nat) (p q a b : Signal) : Prop where
  critical : view.criticalAt n gate = .ok true
  operands : n.Joins gate p q
  plain : q.complemented = false
  skewed : ∃ levelP levelQ, view.levelOf n p.node = .ok levelP ∧
    view.levelOf n q.node = .ok levelQ ∧ levelP + 1 < levelQ
  inner : n.Joins q.node a b
  late : view.criticalAt n a.node = .ok true
  early : view.criticalAt n b.node = .ok false

/-- **The critical operand is the deeper one.**  The path of the gate goes on through `q`, and
from there through the deeper operand. -/
lemma Passes.levels (h : Passes n view gate p q a b) (hn : n.WellFormed)
    (hview : DepthView.ofNetwork n = .ok view) :
    n.level b.node < n.level a.node ∧
      1 + max (1 + max (n.level p.node) (n.level b.node)) (n.level a.node) + 1 = n.level gate := by
  obtain ⟨hdescribes, hacyclic⟩ := DepthView.describes_ofNetwork hview
  obtain ⟨levelP, levelQ, hlevelP, hlevelQ, hskewed⟩ := h.skewed
  obtain ⟨-, rfl⟩ := hdescribes.levelOf_eq_ok.mp hlevelP
  obtain ⟨-, rfl⟩ := hdescribes.levelOf_eq_ok.mp hlevelQ
  have hgate := h.operands.level hacyclic
  have hq := h.inner.level hacyclic
  have hcriticalQ : n.Critical q.node := by
    obtain ⟨-, hcritical⟩ := (DepthView.criticalAt_iff hn hview).mp h.critical
    exact hcritical.of_reads h.operands.reads.2 (by omega)
  have hdeeper : n.level b.node < n.level a.node := by
    by_contra hle
    have hcriticalB := hcriticalQ.of_reads h.inner.reads.2 (by omega)
    have hb := lt_size_of_isLive (h.inner.live hn).2
    have hearly := (DepthView.criticalAt_iff hn hview).mpr ⟨hb, hcriticalB⟩
    rw [h.early] at hearly
    cases hearly
  exact ⟨hdeeper, by omega⟩

lemma skewed_of_lt {f : Signal × Signal} {level : Nat → Nat} (hf : f = (p, q) ∨ f = (q, p))
    (hq : q.complemented = false) (hlt : level p.node + 1 < level q.node) :
    skewed f.1 f.2 (level f.1.node) (level f.2.node) = some (p, q) := by
  rcases hf with rfl | rfl
  · have hnot : ¬ (level q.node + 1 < level p.node ∧ p.complemented = false) := by omega
    rw [skewed, if_neg hnot, if_pos ⟨hlt, hq⟩]
  · rw [skewed, if_pos ⟨hlt, hq⟩]

/-- **The law finds an opportunity** at each gate that passes its tests: the level that it
predicts is always the one below that of the gate. -/
lemma Passes.search_eq_ok (h : Passes n view gate p q a b) (hn : n.WellFormed)
    (hview : DepthView.ofNetwork n = .ok view) :
    search gate n view = .ok (.present ⟨p, a, b, n.level gate, n.level gate - 1⟩) := by
  obtain ⟨hdescribes, hacyclic⟩ := DepthView.describes_ofNetwork hview
  obtain ⟨hdeeper, hpredicted⟩ := h.levels hn hview
  obtain ⟨levelP, levelQ, hlevelP, hlevelQ, hskewed⟩ := h.skewed
  obtain ⟨hp, rfl⟩ := hdescribes.levelOf_eq_ok.mp hlevelP
  obtain ⟨hq, rfl⟩ := hdescribes.levelOf_eq_ok.mp hlevelQ
  have hanswer : ∀ {v}, v < n.size → view.levelOf n v = .ok (n.level v) :=
    fun hv => hdescribes.levelOf_eq_ok.mpr ⟨hv, rfl⟩
  obtain ⟨f, hf, hends⟩ := h.operands.liveFanIns?
  obtain ⟨g, hg, hends'⟩ := h.inner.liveFanIns?
  obtain ⟨hf₀, hf₁⟩ := hn.fanIns_lt hf
  obtain ⟨hg₀, hg₁⟩ := hn.fanIns_lt hg
  have hgate : gate < n.size := by
    obtain ⟨c, d, hgate⟩ := isLiveGate_iff.mp h.operands.isLiveGate
    exact hgate.lt_size
  have hinputs : ¬ (n.isInput f.1.node && n.isInput f.2.node) = true := by
    intro hinputs
    rw [Bool.and_eq_true] at hinputs
    have hinput : n.isInput q.node = true := by
      rcases hends with rfl | rfl
      · exact hinputs.2
      · exact hinputs.1
    have := hn.level_of_source (.inr (.inl hinput))
    omega
  obtain ⟨critical₀, hc₀⟩ := hdescribes.exists_criticalAt hg₀
  obtain ⟨critical₁, hc₁⟩ := hdescribes.exists_criticalAt hg₁
  have hsingle : singleCritical g.1 g.2 critical₀ critical₁ = some (a, b) := by
    rcases hends' with rfl | rfl
    · cases h.late.symm.trans hc₀
      cases h.early.symm.trans hc₁
      rfl
    · cases h.late.symm.trans hc₁
      cases h.early.symm.trans hc₀
      rfl
  obtain ⟨ha, hb⟩ := h.inner.live hn
  -- the search goes on past each test
  rw [search]
  refine bind_eq_except_ok.mpr ⟨_, hf, bind_eq_except_ok.mpr ⟨_, h.critical, ?_⟩⟩
  rw [if_neg (by simp), if_neg hinputs]
  refine bind_eq_except_ok.mpr ⟨_, hanswer hf₀, bind_eq_except_ok.mpr ⟨_, hanswer hf₁, ?_⟩⟩
  simp only [skewed_of_lt hends h.plain hskewed]
  refine bind_eq_except_ok.mpr ⟨_, hg, bind_eq_except_ok.mpr ⟨_, hc₀, bind_eq_except_ok.mpr
    ⟨_, hc₁, ?_⟩⟩⟩
  simp only [hsingle]
  refine bind_eq_except_ok.mpr ⟨_, hanswer hgate, bind_eq_except_ok.mpr ⟨_, hlevelP,
    bind_eq_except_ok.mpr ⟨_, hanswer (lt_size_of_isLive hb), bind_eq_except_ok.mpr
      ⟨_, hanswer (lt_size_of_isLive ha), ?_⟩⟩⟩⟩
  rw [if_neg (by omega), ← hpredicted, Nat.add_sub_cancel]
  rfl

/-- What passed the search passed the tests. -/
lemma passes_of_search {o : Opportunity}
    (h : search gate n view = .ok (.present o)) : ∃ q, Passes n view gate o.p q o.a o.b := by
  simp only [search, bind_eq_except_ok] at h
  obtain ⟨_ | f, hgate, h⟩ := h
  · exact (absent_ne_present h).elim
  simp only [bind_eq_except_ok] at h
  obtain ⟨critical, hcritical, h⟩ := h
  split_ifs at h with hnot hinputs
  · exact (absent_ne_present h).elim
  · exact (absent_ne_present h).elim
  rw [Bool.not_eq_true, Bool.not_eq_false'] at hnot
  subst hnot
  simp only [bind_eq_except_ok] at h
  obtain ⟨level₀, hlevel₀, level₁, hlevel₁, h⟩ := h
  rcases hskewed : skewed f.1 f.2 level₀ level₁ with _ | ⟨p, q⟩
  · rw [hskewed] at h
    exact (absent_ne_present h).elim
  simp only [hskewed, bind_eq_except_ok] at h
  obtain ⟨_ | g, hoperands, h⟩ := h
  · exact (absent_ne_present h).elim
  simp only [bind_eq_except_ok] at h
  obtain ⟨critical₀, hcritical₀, critical₁, hcritical₁, h⟩ := h
  rcases hsingle : singleCritical g.1 g.2 critical₀ critical₁ with _ | ⟨a, b⟩
  · rw [hsingle] at h
    exact (absent_ne_present h).elim
  simp only [hsingle, bind_eq_except_ok] at h
  obtain ⟨_, -, _, -, _, -, _, -, h⟩ := h
  split_ifs at h
  · exact (absent_ne_present h).elim
  rw [pure_eq_except_ok, Search.present.injEq] at h
  subst h
  obtain ⟨hends, hq⟩ := skewed_eq_some hskewed
  have hlevels : ∃ levelP levelQ, view.levelOf n p.node = .ok levelP ∧
      view.levelOf n q.node = .ok levelQ ∧ levelP + 1 < levelQ := by
    simp only [skewed] at hskewed
    split_ifs at hskewed with hdeep hdeep'
    · cases hskewed
      exact ⟨level₁, level₀, hlevel₁, hlevel₀, hdeep.1⟩
    · cases hskewed
      exact ⟨level₀, level₁, hlevel₀, hlevel₁, hdeep'.1⟩
  have hcriticals : view.criticalAt n a.node = .ok true ∧ view.criticalAt n b.node = .ok false := by
    cases critical₀ <;> cases critical₁ <;> cases hsingle
    · exact ⟨hcritical₁, hcritical₀⟩
    · exact ⟨hcritical₀, hcritical₁⟩
  exact ⟨q, hcritical, .of_fanIns hgate hends, hq, hlevels,
    .of_fanIns hoperands (singleCritical_eq_some hsingle), hcriticals.1, hcriticals.2⟩

/-- **Exactly the gates that pass the tests** are an opportunity. -/
theorem search_eq_present_iff (hn : n.WellFormed) (hview : DepthView.ofNetwork n = .ok view)
    {o : Opportunity} : search gate n view = .ok (.present o) ↔
      (∃ q, Passes n view gate o.p q o.a o.b) ∧ o.level = n.level gate ∧
        o.predicted = n.level gate - 1 := by
  constructor
  · intro h
    obtain ⟨q, hpasses⟩ := passes_of_search h
    have heq := hpasses.search_eq_ok hn hview
    rw [h, Except.ok.injEq, Search.present.injEq] at heq
    exact ⟨⟨q, hpasses⟩, by rw [heq], by rw [heq]⟩
  · rintro ⟨⟨q, hpasses⟩, hlevel, hpredicted⟩
    rw [hpasses.search_eq_ok hn hview, ← hpredicted, ← hlevel]

end Associativity

open Associativity

/-- **What comes of a gate that passes the tests of the associative law.**  Its critical operand
is deeper than the other one, and the level that the law predicts is the one below that of the
gate, so that the law finds an opportunity.  The attempt replaces the gate, by a signal that ends
on a lower level than the gate was; it fails only when a counter is full, or when the substitution
strands a request or does not end for a cycle; and where a request is stranded it does fail. -/
theorem apply_of_passes (hn : n.WellFormed) (hwatches : view.Watches n)
    (hfresh : view.isStale n = false) (h : Passes n view gate p q a b) :
    ∃ levelP levelA levelB level, view.levelOf n p.node = .ok levelP ∧
      view.levelOf n a.node = .ok levelA ∧ view.levelOf n b.node = .ok levelB ∧
      view.levelOf n gate = .ok level ∧ levelB < levelA ∧
      1 + max (1 + max levelP levelB) levelA + 1 = level ∧
      search gate n view = .ok (.present ⟨p, a, b, level, level - 1⟩) ∧
      (∀ log replaced w', apply .associativity gate ⟨n, view, log⟩ = .ok replaced w' →
        replaced = true ∧ ∃ s m, Law.associativity.Builds n view gate s m ∧
          Places n.size gate s m w'.network ∧ w'.network.NoDeeper s.node (level - 1) ∧
            ∀ now, DepthView.ofNetwork w'.network = .ok now →
              ∃ reached, now.levelOf w'.network s.node = .ok reached ∧ reached ≤ level - 1) ∧
      (∀ log fault w', apply .associativity gate ⟨n, view, log⟩ = .error fault w' →
        fault = .counterOverflow ∨ Law.associativity.Stops n view gate fault) ∧
      ∀ x fault, Law.associativity.Reaches n view gate x → x.Strands fault →
        ∀ log replaced w', apply .associativity gate ⟨n, view, log⟩ ≠ .ok replaced w' := by
  have hview := hwatches.ofNetwork_eq_ok hfresh
  obtain ⟨hdescribes, hacyclic⟩ := DepthView.describes_ofNetwork hview
  have hready : ∀ log, Ready ⟨n, view, log⟩ := fun log => ⟨hn, hacyclic, hdescribes⟩
  have hsearch : search gate n view = .ok (.present ⟨p, a, b, n.level gate, n.level gate - 1⟩) :=
    (search_eq_present_iff hn hview).mpr ⟨⟨q, h⟩, rfl, rfl⟩
  obtain ⟨hdeeper, hpredicted⟩ := h.levels hn hview
  have hanswer : ∀ {v}, n.isLive v = true → view.levelOf n v = .ok (n.level v) :=
    fun hv => hdescribes.levelOf_eq_ok.mpr ⟨lt_size_of_isLive hv, rfl⟩
  obtain ⟨c, d, hgate⟩ := isLiveGate_iff.mp h.operands.isLiveGate
  obtain ⟨ha, hb⟩ := h.inner.live hn
  refine ⟨_, _, _, _, hanswer (h.operands.live hn).1, hanswer ha, hanswer hb,
    hanswer hgate.isLive, hdeeper, hpredicted, hsearch, ?_, ?_, ?_⟩
  · intro log replaced w' hrun
    obtain ⟨-, -, hnone⟩ | ⟨hreplaced, s, m, hbuilds, hplaces⟩ := apply_cases (hready log) hrun
    · exact absurd ⟨_, hsearch⟩ hnone
    have hsuggests := hbuilds.suggests hdescribes
    have hproposes := hsuggests.proposes hn hacyclic
    obtain ⟨o, ho, hbuild⟩ := id hsuggests
    have hless := (build_spec hn hacyclic ho hbuild).2
    have hbound : w'.network.NoDeeper s.node (n.level gate - 1) :=
      (hproposes.noDeeper hn hacyclic (hsuggests.ne_gate hn hacyclic) hplaces).mono (by omega)
    exact ⟨hreplaced, s, m, hbuilds, hplaces, hbound, fun now hnow =>
      hplaces.levelOf_le hproposes.wellFormed hproposes.isLive hbound hnow⟩
  · exact fun log fault w' hrun => apply_stops (hready log) hgate.lt_size hrun
  · exact fun x fault hx hstrands log replaced w' =>
      apply_ne_ok_of_strands (hready log) hx hstrands

/-- A late operand below an early one: the gate above them goes from level 3 to level 2. -/
theorem apply_of_passes_of_late : ∃ n view w' s m,
    Passes n view 7 (.ofNode 3) (.ofNode 6) (.ofNode 5) (.ofNode 4) ∧
      search 7 n view = .ok (.present ⟨.ofNode 3, .ofNode 5, .ofNode 4, 3, 2⟩) ∧
        apply .associativity 7 ⟨n, view, #[]⟩ = .ok true w' ∧
          Law.associativity.Builds n view 7 s m ∧ w'.network.NoDeeper s.node 2 := by
  let n := Network.empty.assemble [.input, .input, .input, .input, .gate 2 4, .gate 10 8,
    .gate 6 12, .output 14]
  obtain ⟨hn, -⟩ : n.Sound := Network.Sound.assemble wellFormed_empty _
  have hends : (match DepthView.ofNetwork n with
    | .ok view => decide (view.criticalAt n 7 = .ok true ∧ view.levelOf n 3 = .ok 0 ∧
        view.levelOf n 6 = .ok 2 ∧ view.criticalAt n 5 = .ok true ∧
          view.criticalAt n 4 = .ok false ∧ view.levelOf n 7 = .ok 3) &&
      match apply .associativity 7 ⟨n, view, #[]⟩ with
      | .ok _ _ => true | .error _ _ => false
    | .error _ => false) = true := by decide +kernel
  cases hview : DepthView.ofNetwork n with
  | error => simp [hview] at hends
  | ok view =>
  cases hrun : apply .associativity 7 ⟨n, view, #[]⟩ with
  | error => simp [hview, hrun] at hends
  | ok replaced w' =>
      simp only [hview, hrun, Bool.and_true, decide_eq_true_eq] at hends
      obtain ⟨h7, h3, h6, h5, h4, hlevel7⟩ := hends
      have hpasses : Passes n view 7 (.ofNode 3) (.ofNode 6) (.ofNode 5) (.ofNode 4) :=
        ⟨h7, .inl (by unfold Gate; decide +kernel), rfl, ⟨0, 2, h3, h6, by decide⟩,
          .inr (by unfold Gate; decide +kernel), h5, h4⟩
      have hfresh : view.isStale n = false := by
        simp [DepthView.isStale, (DepthView.describes_ofNetwork hview).1.generation]
      obtain ⟨_, _, _, level, -, -, -, hlevel, -, -, hsearch, hreplaces, -⟩ :=
        apply_of_passes hn (.taken hview) hfresh hpasses
      obtain rfl : 3 = level := by simpa [hlevel7] using hlevel
      obtain ⟨rfl, s, m, hbuilds, -, hbound, -⟩ := hreplaces _ _ _ hrun
      exact ⟨n, view, w', s, m, hpasses, hsearch, hrun, hbuilds, hbound⟩

/-- A critical gate that is always false, since its operands are opposed.  The law replaces it by
false, and the gates above it fold or meet one after the other until one of them is retired while
a request still leads to it. -/
def opposed : Network := Network.empty.assemble
  [.input, .input, .input, .input, .gate 2 4, .gate 10 7, .gate 6 12, .gate 15 8, .gate 8 16,
    .gate 16 18, .gate 15 18, .gate 16 22, .gate 18 22, .gate 26 8, .output 19]

/-- **A gate that passes the tests need not be replaced**: the substitution may give up. -/
theorem apply_of_passes_may_strand : ¬ ∀ (n : Network) (view : DepthView) (gate : Nat)
    (p q a b : Signal), n.WellFormed → n.Acyclic → DepthView.ofNetwork n = .ok view →
      Passes n view gate p q a b →
        ∃ w', apply .associativity gate ⟨n, view, #[]⟩ = .ok true w' := by
  intro h
  obtain ⟨hn, hacyclic⟩ : opposed.Sound := Network.Sound.assemble wellFormed_empty _
  have hfails : (match DepthView.ofNetwork opposed with
    | .ok view => decide (view.criticalAt opposed 7 = .ok true ∧ view.levelOf opposed 3 = .ok 0 ∧
        view.levelOf opposed 6 = .ok 2 ∧ view.criticalAt opposed 5 = .ok true ∧
          view.criticalAt opposed 3 = .ok false) &&
      match apply .associativity 7 ⟨opposed, view, #[]⟩ with
      | .ok _ _ => false
      | .error fault _ => fault == .deadReplacement (.ofNode 10) 13
    | .error _ => false) = true := by decide +kernel
  obtain ⟨view, hview⟩ := DepthView.exists_ofNetwork hn hacyclic
  simp only [hview, Bool.and_eq_true, decide_eq_true_eq] at hfails
  obtain ⟨⟨h7, h3, h6, h5, h3'⟩, hfails⟩ := hfails
  have hpasses : Passes opposed view 7 (.ofNode 3) (.ofNode 6) (.ofNode 5) ⟨3, true⟩ :=
    ⟨h7, .inl (by unfold Gate; decide +kernel), rfl, ⟨0, 2, h3, h6, by decide⟩,
      .inr (by unfold Gate; decide +kernel), h5, h3'⟩
  obtain ⟨w', hrun⟩ := h opposed view 7 _ _ _ _ hn hacyclic hview hpasses
  simp [hrun] at hfails

end AndInverter
