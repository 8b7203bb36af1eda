import AndInverter.Proofs.Freshness

/-!
Laws that do not replace a gate.  What a law builds from what it found is never the gate itself,
although each part of it may be there already, so a law that refuses built nothing at all.

* `Network.Conjoins.ne_gate`: a conjunction with an operand below the fan-ins of a gate is
  another node than the gate;
* `Law.Suggests.ne_gate`: a suggestion is another node than the gate;
* `Law.Builds`: what a law builds from what its search found;
* `apply_refusal`: a law that refuses leaves the network as it was.
-/

namespace AndInverter

open Network

variable {n m l : Network} {gate : Nat} {f g s x y : Signal} {law : Law} {view : DepthView}

namespace Network

/-- **A conjunction is not a gate above it**, if one of its operands is below both fan-ins of the
gate and the other one is below the gate. -/
lemma Conjoins.ne_gate (h : n.Conjoins m f g s) (hn : n.WellFormed) (hacyclic : n.Acyclic)
    (hgate : n.Joins gate x y) (hx : n.level f.node < n.level x.node)
    (hy : n.level f.node < n.level y.node) (hg : n.level g.node < n.level gate) :
    s.node ≠ gate := by
  rintro rfl
  have habove := hgate.level hacyclic
  rcases h.isAnd with hform | ⟨key, hform, -, hkey⟩
  · rcases node_of_conjunction_folded hform with h0 | rfl | rfl
    · rw [h0, hn.level_zero] at habove
      omega
    · omega
    · omega
  · -- the gate would read the operand, which is too far below to be one of its fan-ins
    have hread : m.Reads s.node f.node := by
      rcases key_of_conjunction hform with rfl | rfl
      · exact hkey.reads_left
      · exact hkey.reads_right
    obtain ⟨c, d, hcd, hend⟩ := hread
    have hend' : f.node = x.node ∨ f.node = y.node := by
      rcases hgate.extends h.grows with hxy | hyx
      · obtain ⟨rfl, rfl⟩ := hcd.unique hxy
        exact hend.imp Eq.symm Eq.symm
      · obtain ⟨rfl, rfl⟩ := hcd.unique hyx
        exact hend.symm.imp Eq.symm Eq.symm
    rcases hend' with heq | heq
    · exact Nat.ne_of_lt hx (congrArg n.level heq)
    · exact Nat.ne_of_lt hy (congrArg n.level heq)

/-- A replacement below the gate is another node. -/
lemma Proposes.ne_gate (h : n.Proposes m gate s) (hn : n.WellFormed) (hacyclic : n.Acyclic)
    (hless : m.level s.node < n.level gate) : s.node ≠ gate := by
  rintro rfl
  obtain ⟨a, b, hg⟩ := isLiveGate_iff.mp h.isLiveGate
  rw [h.grows.level hn hacyclic h.wellFormed hg.isLive] at hless
  exact Nat.lt_irrefl _ hless

end Network

namespace Distributivity

/-- Above the conjunction of the other two operands, the common one does not make the gate, for
it is two levels below it. -/
lemma Matches.ne_gate {o : Opportunity} {either t : Signal} (h : Matches n gate o)
    (hn : n.WellFormed) (hacyclic : n.Acyclic) (h₁ : n.Conjoins l f g s)
    (h₂ : l.Conjoins m o.shared either t) (hf : f.node = o.a.node) (hg : g.node = o.b.node)
    (heither : either.node = s.node) : t.node ≠ gate := by
  have hlevel := h.level_le hacyclic
  have hle := h₁.level_le
  obtain ⟨x, y, hgate, -, -, hx, hy⟩ := h
  have hxlevel := hx.level hacyclic
  have hylevel := hy.level hacyclic
  have hshared := h₁.level _ (hx.live hn).1
  obtain ⟨hxlive, hylive⟩ := hgate.live hn
  obtain ⟨a, b, hab⟩ := isLiveGate_iff.mp hgate.isLiveGate
  rw [hf, hg] at hle
  refine h₂.ne_gate h₁.wellFormed h₁.acyclic (hgate.extends h₁.grows) ?_ ?_ ?_
  · rw [hshared, h₁.level _ hxlive]
    omega
  · rw [hshared, h₁.level _ hylive]
    omega
  · rw [heither, h₁.level _ hab.isLive]
    omega

/-- **What a distributive law builds** is not the gate. -/
lemma build_ne_gate {o : Opportunity} (hn : n.WellFormed) (hacyclic : n.Acyclic)
    (h : Matches n gate o) (hrun : build o n = .ok s m) : s.node ≠ gate := by
  obtain ⟨f, g, both, either, t, n₁, hboth, ht, ⟨hf, hg⟩, heither, hs⟩ :=
    exists_addAnd_of_build hrun
  have h₁ := conjoins_of_addAnd hn hacyclic hboth
  have h₂ := conjoins_of_addAnd h₁.wellFormed h₁.acyclic ht
  rw [hs]
  exact h.ne_gate hn hacyclic h₁ h₂ hf hg heither

end Distributivity

/-- **What a law suggests for a gate is another node.** -/
theorem Law.Suggests.ne_gate (h : law.Suggests n gate s m) (hn : n.WellFormed)
    (hacyclic : n.Acyclic) : s.node ≠ gate := by
  cases law <;> obtain ⟨o, hmatches, hbuild⟩ := h
  · obtain ⟨hproposes, hless⟩ := Associativity.build_spec hn hacyclic hmatches hbuild
    exact hproposes.ne_gate hn hacyclic hless
  · exact Distributivity.build_ne_gate hn hacyclic hmatches hbuild
  · obtain ⟨hproposes, hless⟩ := ThreeLevel.build_spec hn hacyclic hmatches hbuild
    exact hproposes.ne_gate hn hacyclic hless

/-- **What a law builds** for a gate, from an opportunity that its search finds there. -/
def Law.Builds (law : Law) (n : Network) (view : DepthView) (gate : Nat) (s : Signal)
    (m : Network) : Prop :=
  match law with
  | .associativity =>
    ∃ o, Associativity.search gate n view = .ok (.present o) ∧ Associativity.build o n = .ok s m
  | .distributivity =>
    ∃ o, Distributivity.search gate n view = .ok (.present o) ∧ Distributivity.build o n = .ok s m
  | .threeLevel =>
    ∃ o, ThreeLevel.search gate n view = .ok (.present o) ∧ ThreeLevel.build o n = .ok s m

/-- What a law builds is what it suggests. -/
lemma Law.Builds.suggests (h : law.Builds n view gate s m) (hview : view.Describes n) :
    law.Suggests n gate s m := by
  cases law <;> obtain ⟨o, hsearch, hbuild⟩ := h
  · exact ⟨o, Associativity.search_spec hview hsearch, hbuild⟩
  · exact ⟨o, Distributivity.search_spec hsearch, hbuild⟩
  · exact ⟨o, ThreeLevel.search_spec hview hsearch, hbuild⟩

namespace Restructuring

variable {w w' : Workspace}

/-- A law that refuses leaves the workspace as it was, but for the log. -/
lemma apply_eq_ok_false (hw : Ready w) (h : apply law gate w = .ok false w') :
    w'.network = w.network ∧ w'.depthView = w.depthView := by
  obtain ⟨-, hnetwork, hview⟩ | ⟨s, n, hsuggests, hcommits, -⟩ := apply_eq_ok hw h
  · exact ⟨hnetwork, hview⟩
  · obtain ⟨hgate, -⟩ | ⟨-, hreplaced, -⟩ := hcommits
    · exact absurd hgate (hsuggests.ne_gate hw.wellFormed hw.acyclic)
    · cases hreplaced

end Restructuring

open Restructuring

/-- **A law that refuses changes nothing**: with a view that is not stale, a law that does not
replace a gate leaves the network exactly as it was, and what a law builds for a gate is never
the gate itself. -/
theorem apply_refusal (hn : n.WellFormed) (hwatches : view.Watches n)
    (hfresh : view.isStale n = false) (law : Law) (gate : Nat) :
    (∀ log w', apply law gate ⟨n, view, log⟩ = .ok false w' →
      w'.network = n ∧ w'.depthView = view) ∧
      ∀ s m, law.Builds n view gate s m → s.node ≠ gate := by
  obtain ⟨hdescribes, hacyclic⟩ :=
    DepthView.describes_ofNetwork (hwatches.ofNetwork_eq_ok hfresh)
  refine ⟨fun log w' h => apply_eq_ok_false ⟨hn, hacyclic, hdescribes⟩ h, ?_⟩
  exact fun s m h => (h.suggests hdescribes).ne_gate hn hacyclic

/-- The distributive law refuses a gate of inputs, and what it builds for the gate above two such
gates is another node. -/
theorem apply_refusal_of_common : ∃ n view w' s m, n.WellFormed ∧
    DepthView.ofNetwork n = .ok view ∧
      (apply .distributivity 4 ⟨n, view, #[]⟩ = .ok false w' ∧ w'.network = n) ∧
        Law.distributivity.Builds n view 6 s m ∧ n.size < m.size ∧ s.node ≠ 6 := by
  let n := Network.empty.assemble [.input, .input, .input, .gate 2 4, .gate 2 6, .gate 8 10,
    .output 12]
  obtain ⟨hn, -⟩ : n.Sound := Network.Sound.assemble wellFormed_empty _
  have hends : (match DepthView.ofNetwork n with
    | .ok view => (match apply .distributivity 4 ⟨n, view, #[]⟩ with
      | .ok replaced _ => !replaced | .error _ _ => false) &&
        match Distributivity.search 6 n view with
        | .ok (.present o) => (match Distributivity.build o n with
          | .ok _ m => decide (n.size < m.size) | .error _ _ => false)
        | _ => false
    | .error _ => false) = true := by decide +kernel
  cases hview : DepthView.ofNetwork n with
  | error => simp [hview] at hends
  | ok view =>
  cases happly : apply .distributivity 4 ⟨n, view, #[]⟩ with
  | error => simp [hview, happly] at hends
  | ok replaced w' =>
  cases hsearch : Distributivity.search 6 n view with
  | error => simp [hview, hsearch] at hends
  | ok found =>
  cases found with
  | absent => simp [hview, hsearch] at hends
  | present o =>
  cases hbuild : Distributivity.build o n with
  | error => simp [hview, hsearch, hbuild] at hends
  | ok s m =>
      simp only [hview, happly, hsearch, hbuild, Bool.and_eq_true, Bool.not_eq_true',
        decide_eq_true_eq] at hends
      obtain ⟨rfl, hsize⟩ := hends
      have hfresh : view.isStale n = false := by
        simp [DepthView.isStale, (DepthView.describes_ofNetwork hview).1.generation]
      have hbuilds : Law.distributivity.Builds n view 6 s m := ⟨o, hsearch, hbuild⟩
      exact ⟨n, view, w', s, m, hn, hview,
        ⟨happly, ((apply_refusal hn (.taken hview) hfresh .distributivity 4).1 _ _ happly).1⟩,
        hbuilds, hsize, (apply_refusal hn (.taken hview) hfresh .distributivity 6).2 s m hbuilds⟩

end AndInverter
