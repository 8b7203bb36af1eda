import AndInverter.Proofs.Network.Economy
import AndInverter.Proofs.Network.Unread
import AndInverter.Proofs.Restructure.Outcome

/-!
The distributive laws.  They take a common operand out of two gates which are used once, by the
gate above them, so that the three gates make room for two new ones at most.

* `Distributivity.Factorable`: the gates at which there is a common operand to take out;
* `Distributivity.finds_iff`: the law finds an opportunity at these gates and at no others;
* `Distributivity.build_unread`: no gate reads what was made for the purpose, so that the gate and
  its two fan-ins give way to it;
* `Distributivity.liveGates_le`: there are fewer gates afterwards, unless a cycle was closed;
* `apply_factors`: what comes of an attempt.
-/

namespace AndInverter

open Network Restructuring

variable {n m l : Network} {gate i v : Nat} {view : DepthView} {s : Signal}

namespace Distributivity

variable {o : Opportunity}

/-! ### Where there is something to take out -/

/-- **There is a common operand to take out** at a gate: both fan-ins are gates that are used
once, of the same polarity, and a signal is an operand of both. -/
def Factorable (n : Network) (gate : Nat) : Prop :=
  ∃ x y, n.Gate gate x y ∧ x.complemented = y.complemented ∧
    (n.fanout x.node = 1 ∧ n.fanout y.node = 1) ∧
      ∃ shared a b, n.Joins x.node shared a ∧ n.Joins y.node shared b

/-- Pairs with a common signal have one that is found. -/
lemma exists_common {xs ys : Signal × Signal} {shared a b : Signal}
    (hx : xs = (shared, a) ∨ xs = (a, shared)) (hy : ys = (shared, b) ∨ ys = (b, shared)) :
    ∃ found, common xs ys = some found := by
  rw [← Option.isSome_iff_exists]
  rcases hx with rfl | rfl <;> rcases hy with rfl | rfl <;> simp only [common] <;> split_ifs <;>
    simp_all

/-- The fan-ins of a gate that the law found are used once. -/
lemma fanout_of_search {x y : Signal} (h : search gate n view = .ok (.present o))
    (hgate : n.Gate gate x y) : n.fanout x.node = 1 ∧ n.fanout y.node = 1 := by
  simp only [search, bind_eq_except_ok] at h
  obtain ⟨fanIns, hfanIns, h⟩ := h
  cases hgate.liveFanIns?.symm.trans hfanIns
  simp only at h
  by_cases hused : n.fanout x.node ≠ 1 ∨ n.fanout y.node ≠ 1
  · rw [if_pos hused] at h
    exact (absent_ne_present h).elim
  · rwa [not_or, not_not, not_not] at hused

/-- **Exactly where the law finds an opportunity.** -/
theorem finds_iff (hview : view.Describes n) :
    Law.distributivity.Finds n view gate ↔ Factorable n gate := by
  constructor
  · rintro ⟨o, h⟩
    obtain ⟨x, y, hgate, hx, hy, hjoinsX, hjoinsY⟩ := search_spec h
    rcases hgate with hgate | hgate
    · exact ⟨x, y, hgate, hx.trans hy.symm, fanout_of_search h hgate, _, _, _, hjoinsX, hjoinsY⟩
    · exact ⟨y, x, hgate, hy.trans hx.symm, fanout_of_search h hgate, _, _, _, hjoinsY, hjoinsX⟩
  · rintro ⟨x, y, hgate, hpolarity, ⟨hfanoutX, hfanoutY⟩, shared, a, b, hx, hy⟩
    obtain ⟨xs, hxs, hendsX⟩ := hx.liveFanIns?
    obtain ⟨ys, hys, hendsY⟩ := hy.liveFanIns?
    obtain ⟨found, hcommon⟩ := exists_common hendsX hendsY
    refine ⟨⟨found.1, found.2.1, found.2.2, x.complemented, n.level gate⟩, ?_⟩
    rw [search]
    refine bind_eq_except_ok.mpr ⟨_, hgate.liveFanIns?, ?_⟩
    simp only [hfanoutX, hfanoutY, ne_eq, not_true_eq_false, or_self, if_false]
    refine bind_eq_except_ok.mpr ⟨_, hxs, bind_eq_except_ok.mpr ⟨_, hys, ?_⟩⟩
    simp only [hpolarity, not_true_eq_false, if_false, hcommon]
    exact bind_eq_except_ok.mpr ⟨_, hview.levelOf_eq_ok.mpr ⟨hgate.lt_size, rfl⟩, rfl⟩

/-! ### What is built -/

/-- At most two gates are built. -/
lemma build_length_gates_le (hn : n.WellFormed) (h : build o n = .ok s m) :
    m.gates.length ≤ n.gates.length + 2 := by
  obtain ⟨f, g, both, either, t, n₁, hboth, ht, -⟩ := exists_addAnd_of_build h
  have h₁ := (addAnd_spec hn hboth).2.2.1
  have hle := addAnd_length_gates_le hn hboth
  have hle' := addAnd_length_gates_le h₁ ht
  omega

/-- **Where anything is built, no gate reads the replacement.**  If it is the conjunction of the
two other operands that is new, then so is the one above it. -/
lemma build_unread (hn : n.WellFormed) (h : Matches n gate o) (hrun : build o n = .ok s m)
    (hsize : n.size < m.size) : s.node ≠ 0 ∧ ∀ i, ¬ m.Reads i s.node := by
  obtain ⟨f, g, both, either, t, n₁, hboth, ht, -, heither, hs⟩ := exists_addAnd_of_build hrun
  obtain ⟨x, y, -, -, -, hx, -⟩ := h
  obtain ⟨-, -, h₁, hext₁, -⟩ := addAnd_spec hn hboth
  obtain ⟨-, -, -, hext, -, -, hand⟩ := addAnd_spec h₁ ht
  have hpos : 0 < n.size := (Nat.zero_le _).trans_lt (lt_size_of_isLive (hx.live hn).1)
  rw [hs]
  by_cases hsize₁ : n₁.size < m.size
  · obtain ⟨hnode, hunread⟩ := addAnd_unread h₁ ht hsize₁
    have := hext₁.size_le
    exact ⟨by omega, hnode ▸ hunread⟩
  · -- the second conjunction would be an old gate that reads the first, which is new
    obtain rfl : m = n₁ := (addAnd_cases ht).resolve_right fun ⟨_, _, happends, _⟩ => by
      have := happends.size
      omega
    obtain ⟨hnode, hunread⟩ := addAnd_unread hn hboth hsize
    obtain ⟨-, hshared, -⟩ := hx.ne hn
    have hlt := lt_size_of_isLive (hx.live hn).1
    have hform := conjunction_of_ne (f := o.shared) (g := either) hshared (by omega) (by omega)
    exfalso
    rcases hand with hfolded | ⟨key, hkey, -, hgate⟩
    · rcases hform with hform | hform <;> cases hform.symm.trans hfolded
    · refine hunread t.node ?_
      rw [← hnode, ← heither]
      rcases key_of_conjunction hkey with rfl | rfl
      · exact hgate.reads_right
      · exact hgate.reads_left

/-- **What is built reads no node that only the gate read**, other than for the first time. -/
lemma build_private (hn : n.WellFormed) (hacyclic : n.Acyclic) (h : Matches n gate o)
    (hrun : build o n = .ok s m) (hprivate : n.Private gate v)
    (hshared : n.Reads v o.shared.node) : m.Private gate v := by
  obtain ⟨f, g, both, either, t, n₁, hfirst, ht, ⟨hf, hg⟩, heither, -⟩ :=
    exists_addAnd_of_build hrun
  obtain ⟨x, y, hgate, -, -, hx, hy⟩ := h
  obtain ⟨-, -, h₁, hext₁, -, -, hand⟩ := addAnd_spec hn hfirst
  obtain ⟨-, -, -, hext, -⟩ := addAnd_spec h₁ ht
  have hno : ∀ u, n.Reads gate u → ¬ n.Reads u v := by
    intro u hu huv
    obtain rfl := hprivate.reader u huv
    exact hacyclic u (.single hu)
  have hloop : ¬ n.Reads v v := fun hvv => hacyclic v (.single hvv)
  have hne : v ≠ o.shared.node ∧ v ≠ o.a.node ∧ v ≠ o.b.node := by
    refine ⟨?_, ?_, ?_⟩ <;> rintro rfl
    · exact hloop hshared
    · exact hno _ hgate.reads.1 hx.reads.2
    · exact hno _ hgate.reads.2 hy.reads.2
  have hboth : v ≠ both.node := by
    rintro rfl
    obtain ⟨c, d, hcd, hend⟩ := hshared
    rcases hand with hfolded | ⟨key, hkey, -, hkeyGate⟩
    · rcases node_of_conjunction_folded hfolded with h0 | heq | heq
      · exact hn.ne_zero_of_gate hcd h0
      · exact hne.2.1 ((congrArg Signal.node heq).trans hf)
      · exact hne.2.2 ((congrArg Signal.node heq).trans hg)
    · -- it would be one of the two gates with the common operand
      obtain ⟨rfl, rfl⟩ := (hext₁.gate_of hcd).unique hkeyGate
      rcases node_of_conjunction_gate hkey (hend.imp Eq.symm Eq.symm) with heq | heq
      · exact (hx.ne hn).1 (heq.trans hf)
      · exact (hy.ne hn).1 (heq.trans hg)
  obtain ⟨c, d, hcd, hend⟩ := hprivate.reads
  refine ⟨⟨c, d, (hext₁.trans hext).gate_of hcd, hend⟩, ?_, ?_⟩
  · intro i hi
    rcases addAnd_reads ht hi with hi | hi | hi
    · rcases addAnd_reads hfirst hi with hi | hi | hi
      · exact hprivate.reader i hi
      · exact absurd (hi.trans hf) hne.2.1
      · exact absurd (hi.trans hg) hne.2.2
    · exact absurd hi hne.1
    · exact absurd (hi.trans heither) hboth
  · intro t ht
    rw [hext.outputs, hext₁.outputs] at ht
    exact hprivate.outputs t ht

/-! ### What becomes of the gates -/

/-- **Where anything is built, more is retired.**  No gate reads the replacement, so the gate dies
and its two fan-ins with it. -/
lemma liveGates_lt_of_grown (hn : n.WellFormed) (hacyclic : n.Acyclic)
    (hsearch : search gate n view = .ok (.present o)) (hbuild : build o n = .ok s m)
    (hne : s.node ≠ gate) (hsize : n.size < m.size) (hplaces : Places n.size gate s m l) :
    l.liveGates < n.liveGates := by
  have hmatches := search_spec hsearch
  have hproposes := build_spec hn hacyclic hmatches hbuild
  obtain ⟨h0, hunread⟩ := build_unread hn hmatches hbuild hsize
  obtain ⟨hl, hshrinks⟩ := hplaces.wellFormed hproposes.wellFormed
  obtain ⟨x, y, hgate, -, -, hx, hy⟩ := id hmatches
  have hfanout : n.fanout x.node = 1 ∧ n.fanout y.node = 1 :=
    hgate.elim (fanout_of_search hsearch) fun hgate => (fanout_of_search hsearch hgate).symm
  have hprivateX := build_private hn hacyclic hmatches hbuild
    (hn.private_of_fanout hgate.reads.1 hfanout.1) hx.reads.1
  have hprivateY := build_private hn hacyclic hmatches hbuild
    (hn.private_of_fanout hgate.reads.2 hfanout.2) hy.reads.1
  obtain ⟨k, l', hsubstitute, hretire⟩ := hplaces
  have hl' := (substitute_wellFormed hproposes.wellFormed hsubstitute).1
  have hstay : ∀ v, l'.isDead v = true → l.isDead v = true := fun v hv =>
    ((retireUnused_spec hl' hretire).2.1.decays.dead v hv).1
  have hold := (hgate.extends hproposes.grows).isLiveGate
  have hdead : ∀ v, m.isLiveGate v = true → m.Private gate v → l.isDead v = true := fun v hv hp =>
    hstay v (isDead_of_private hproposes.wellFormed hold hne h0 hunread hv hp hsubstitute)
  have hgateX := (hx.extends hproposes.grows).isLiveGate
  have hgateY := (hy.extends hproposes.grows).isLiveGate
  have hgone : l.isDead gate = true := hstay gate
    (substitute_of_unread hproposes.wellFormed hold hne h0 hunread hsubstitute).1.isDead
  have hapart : ∀ v, n.Reads gate v → gate ≠ v := by
    rintro v hread rfl
    exact hacyclic _ (.single hread)
  have hcount : l.gates.length + [gate, x.node, y.node].length ≤ m.gates.length :=
    hshrinks.length_gates_le hproposes.wellFormed hl
      (by simp [hapart _ hgate.reads.1, hapart _ hgate.reads.2, (hgate.ne hn).1])
      (by simp [hold, hgateX, hgateY])
      (by simp [hgone, hdead _ hgateX hprivateX, hdead _ hgateY hprivateY])
  have hbuilt := build_length_gates_le hn hbuild
  rw [hn.liveGates_eq, hl.liveGates_eq]
  rw [show [gate, x.node, y.node].length = 3 from rfl] at hcount
  omega

/-- **There are never more gates afterwards**, and there are fewer, also where nothing is built,
unless a cycle was closed. -/
lemma liveGates_le (hn : n.WellFormed) (hacyclic : n.Acyclic)
    (hsearch : search gate n view = .ok (.present o)) (hbuild : build o n = .ok s m)
    (hne : s.node ≠ gate) (hplaces : Places n.size gate s m l) :
    l.liveGates ≤ n.liveGates ∧ (n.size < m.size ∨ l.Acyclic → l.liveGates < n.liveGates) := by
  have hmatches := search_spec hsearch
  have hproposes := build_spec hn hacyclic hmatches hbuild
  rcases hproposes.grows.size_le.lt_or_eq with hsize | hsize
  · have hlt := liveGates_lt_of_grown hn hacyclic hsearch hbuild hne hsize hplaces
    exact ⟨hlt.le, fun _ => hlt⟩
  obtain ⟨hl, hshrinks⟩ := hplaces.wellFormed hproposes.wellFormed
  have hgates : m.gates = n.gates := hproposes.grows.gates_eq hsize.symm
  rw [hn.liveGates_eq, hl.liveGates_eq, ← hgates]
  refine ⟨(hshrinks.gates_sublist hproposes.wellFormed hl).length_le, fun hcase => ?_⟩
  obtain ⟨k, hsubstitute⟩ := hplaces.substitute hproposes.wellFormed hsize.ge
  obtain ⟨x, y, hgate, -⟩ := hmatches
  obtain ⟨v, hv, hdead⟩ := substitute_retires hproposes.wellFormed
    (hgate.extends hproposes.grows).isLiveGate hne hsubstitute (hcase.resolve_left hsize.not_lt)
  have hcount : l.gates.length + [v].length ≤ m.gates.length :=
    hshrinks.length_gates_le hproposes.wellFormed hl (List.nodup_singleton v)
      (by simpa using hv) (by simpa using hdead)
  exact hcount

end Distributivity

open Distributivity

/-- **What comes of an attempt with the distributive laws.**  The law finds something exactly at
the gates with a common operand to take out; at any other node it changes nothing.  At such a gate
the attempt replaces the gate, by a signal that ends on no higher level than the gate was, and
there are fewer gates afterwards, or as many if nothing was built and a cycle was closed; it fails
only when a counter is full, or when the substitution strands a request or does not end for a cycle;
and where a request is stranded it does fail. -/
theorem apply_factors (hn : n.WellFormed) (hwatches : view.Watches n)
    (hfresh : view.isStale n = false) (hgate : gate < n.size) (log : Array LogEntry) :
    (¬ Factorable n gate →
      ∃ w', apply .distributivity gate ⟨n, view, log⟩ = .ok false w' ∧ w'.network = n) ∧
    (Factorable n gate →
      (∀ replaced w', apply .distributivity gate ⟨n, view, log⟩ = .ok replaced w' →
        replaced = true ∧ ∃ s m level, Law.distributivity.Builds n view gate s m ∧
          Places n.size gate s m w'.network ∧ view.levelOf n gate = .ok level ∧
            w'.network.NoDeeper s.node level ∧
            (∀ now, DepthView.ofNetwork w'.network = .ok now →
              ∃ reached, now.levelOf w'.network s.node = .ok reached ∧ reached ≤ level) ∧
            w'.network.liveGates ≤ n.liveGates ∧
            (n.size < m.size ∨ w'.network.Acyclic → w'.network.liveGates < n.liveGates)) ∧
      (∀ fault w', apply .distributivity gate ⟨n, view, log⟩ = .error fault w' →
        fault = .counterOverflow ∨ Law.distributivity.Stops n view gate fault) ∧
      ∀ x fault, Law.distributivity.Reaches n view gate x → x.Strands fault →
        ∀ replaced w', apply .distributivity gate ⟨n, view, log⟩ ≠ .ok replaced w') := by
  obtain ⟨hdescribes, hacyclic⟩ :=
    DepthView.describes_ofNetwork (hwatches.ofNetwork_eq_ok hfresh)
  have hready : Ready ⟨n, view, log⟩ := ⟨hn, hacyclic, hdescribes⟩
  refine ⟨fun hnot => ?_, fun hfactorable => ⟨?_, ?_, ?_⟩⟩
  · exact apply_of_not_finds hready hgate fun hfinds => hnot ((finds_iff hdescribes).mp hfinds)
  · intro replaced w' hrun
    obtain ⟨-, -, hnone⟩ | ⟨hreplaced, s, m, hbuilds, hplaces⟩ := apply_cases hready hrun
    · exact absurd ((finds_iff hdescribes).mpr hfactorable) hnone
    have hne := (hbuilds.suggests hdescribes).ne_gate hn hacyclic
    have hproposes := (hbuilds.suggests hdescribes).proposes hn hacyclic
    have hbound : w'.network.NoDeeper s.node (n.level gate) :=
      (hproposes.noDeeper hn hacyclic hne hplaces).mono hproposes.level
    obtain ⟨o, hsearch, hbuild⟩ := id hbuilds
    exact ⟨hreplaced, s, m, n.level gate, hbuilds, hplaces,
      hdescribes.levelOf_eq_ok.mpr ⟨hgate, rfl⟩, hbound,
      fun now hnow => hplaces.levelOf_le hproposes.wellFormed hproposes.isLive hbound hnow,
      liveGates_le hn hacyclic hsearch hbuild hne hplaces⟩
  · exact fun fault w' hrun => apply_stops hready hgate hrun
  · exact fun x fault hx hstrands replaced w' => apply_ne_ok_of_strands hready hx hstrands

/-- Two conjunctions with a common operand: three gates become two. -/
theorem apply_factors_of_common : ∃ n view w' s m, Factorable n 6 ∧
    DepthView.ofNetwork n = .ok view ∧ apply .distributivity 6 ⟨n, view, #[]⟩ = .ok true w' ∧
      Law.distributivity.Builds n view 6 s m ∧ w'.network.NoDeeper s.node 2 ∧
        n.liveGates = 3 ∧ w'.network.liveGates = 2 := by
  let n := Network.empty.assemble [.input, .input, .input, .gate 2 4, .gate 2 6, .gate 8 10,
    .output 12]
  obtain ⟨hn, -⟩ : n.Sound := Network.Sound.assemble wellFormed_empty _
  have hfactorable : Factorable n 6 :=
    ⟨.ofNode 4, .ofNode 5, by unfold Gate; decide +kernel, rfl, by decide +kernel, .ofNode 1,
      .ofNode 2, .ofNode 3, .inl (by unfold Gate; decide +kernel),
      .inl (by unfold Gate; decide +kernel)⟩
  have hends : (match DepthView.ofNetwork n with
    | .ok view => decide (view.levelOf n 6 = .ok 2) &&
      match apply .distributivity 6 ⟨n, view, #[]⟩ with
      | .ok _ w' => w'.network.liveGates == 2 | .error _ _ => false
    | .error _ => false) = true := by decide +kernel
  cases hview : DepthView.ofNetwork n with
  | error => simp [hview] at hends
  | ok view =>
  cases hrun : apply .distributivity 6 ⟨n, view, #[]⟩ with
  | error => simp [hview, hrun] at hends
  | ok replaced w' =>
      simp only [hview, hrun, Bool.and_eq_true, decide_eq_true_eq, beq_iff_eq] at hends
      have hfresh : view.isStale n = false := by
        simp [DepthView.isStale, (DepthView.describes_ofNetwork hview).1.generation]
      obtain ⟨rfl, s, m, level, hbuilds, -, hlevel, hbound, -⟩ :=
        ((apply_factors hn (.taken hview) hfresh (by decide +kernel) #[]).2 hfactorable).1 _ _ hrun
      obtain rfl : 2 = level := by simpa [hends.1] using hlevel
      exact ⟨n, view, w', s, m, hfactorable, hview, hrun, hbuilds, hbound, by decide +kernel,
        hends.2⟩

/-- Two conjunctions of opposed operands below a gate that is always false.  The law replaces it
by false, and the gates above it fold or meet one after the other until one of them is retired
while a request still leads to it. -/
def contradictory : Network := Network.empty.assemble
  [.input, .input, .input, .gate 2 4, .gate 2 5, .gate 8 10, .gate 13 6, .gate 6 14, .gate 14 16,
    .gate 13 16, .gate 14 20, .gate 16 20, .gate 24 6, .output 17]

/-- **A gate with a common operand to take out need not be replaced**: the substitution may give
up. -/
theorem apply_factors_may_strand : ¬ ∀ (n : Network) (view : DepthView) (gate : Nat),
    n.WellFormed → n.Acyclic → DepthView.ofNetwork n = .ok view → Factorable n gate →
      ∃ w', apply .distributivity gate ⟨n, view, #[]⟩ = .ok true w' := by
  intro h
  obtain ⟨hn, hacyclic⟩ : contradictory.Sound := Network.Sound.assemble wellFormed_empty _
  have hfactorable : Factorable contradictory 6 :=
    ⟨.ofNode 4, .ofNode 5, by unfold Gate; decide +kernel, rfl, by decide +kernel, .ofNode 1,
      .ofNode 2, ⟨2, true⟩, .inl (by unfold Gate; decide +kernel),
      .inl (by unfold Gate; decide +kernel)⟩
  have hfails : (match DepthView.ofNetwork contradictory with
    | .ok view => match apply .distributivity 6 ⟨contradictory, view, #[]⟩ with
      | .ok _ _ => false
      | .error fault _ => fault == .deadReplacement (.ofNode 9) 12
    | .error _ => false) = true := by decide +kernel
  obtain ⟨view, hview⟩ := DepthView.exists_ofNetwork hn hacyclic
  obtain ⟨w', hrun⟩ := h contradictory view 6 hn hacyclic hview hfactorable
  simp [hview, hrun] at hfails

end AndInverter
