import AndInverter.Proofs.Restructure.Outcome

/-!
The three-level law.  Where it replaces a gate `¬(¬(b ∧ a) ∧ c) ∧ d`, the replacement has the
function of the gate, whatever folds or is there already, and it is on a lower level.

* `redistribution_lowers`: an attempt with this law that replaces a gate;
* `redistribution_lowers_of_skewed`: a gate on which the law acts.
-/

namespace AndInverter

open Network Restructuring ThreeLevel

variable {n : Network} {gate : Nat} {view : DepthView} {log : Array LogEntry} {w' : Workspace}

/-- **The three-level law keeps the function of a gate and takes it a level down.**  Where the law
replaces a gate, it found the operands of `¬(¬(b ∧ a) ∧ c) ∧ d` below it.  The replacement
computes the function of the gate when it is put in place, and still does afterwards if it is
live then; and its level in the resulting network is below that of the gate. -/
theorem redistribution_lowers (hn : n.WellFormed) (hwatches : view.Watches n)
    (hfresh : view.isStale n = false)
    (h : apply .threeLevel gate ⟨n, view, log⟩ = .ok true w') :
    ∃ o z w s m level, search gate n view = .ok (.present o) ∧
      n.Joins gate z o.d ∧ z.complemented = true ∧ n.Joins z.node w o.c ∧ w.complemented = true ∧
      n.Joins w.node o.b o.a ∧ build o n = .ok s m ∧ Places n.size gate s m w'.network ∧
      (∀ f, n.Computes (.ofNode gate) f ↔ m.Computes s f) ∧
      (w'.network.isLive s.node = true →
        ∀ f, n.Computes (.ofNode gate) f ↔ w'.network.Computes s f) ∧
      view.levelOf n gate = .ok (level + 1) ∧ w'.network.NoDeeper s.node level ∧
      ∀ now, DepthView.ofNetwork w'.network = .ok now →
        ∃ reached, now.levelOf w'.network s.node = .ok reached ∧ reached ≤ level := by
  obtain ⟨hdescribes, hacyclic⟩ :=
    DepthView.describes_ofNetwork (hwatches.ofNetwork_eq_ok hfresh)
  obtain ⟨hfalse, -⟩ | ⟨-, s, m, hbuilds, hplaces⟩ := apply_cases ⟨hn, hacyclic, hdescribes⟩ h
  · cases hfalse
  have hne := (hbuilds.suggests hdescribes).ne_gate hn hacyclic
  obtain ⟨o, hsearch, hbuild⟩ := hbuilds
  have hmatches := search_spec hdescribes hsearch
  obtain ⟨hproposes, hless⟩ := build_spec hn hacyclic hmatches hbuild
  obtain ⟨z, w, hgate, hz, hinner, hw, hoperands, -⟩ := hmatches
  obtain ⟨level, hlevel⟩ := Nat.exists_eq_add_one_of_ne_zero (Nat.ne_zero_of_lt hless)
  have hbound : w'.network.NoDeeper s.node level :=
    (hproposes.noDeeper hn hacyclic hne hplaces).mono (by omega)
  have hlevelOf : view.levelOf n gate = .ok (level + 1) := by
    obtain ⟨x, y, hxy⟩ := isLiveGate_iff.mp hgate.isLiveGate
    exact hdescribes.levelOf_eq_ok.mpr ⟨hxy.lt_size, hlevel⟩
  have hcomputes := hproposes.computes_iff hn hacyclic
  refine ⟨o, z, w, s, m, level, hsearch, hgate, hz, hinner, hw, hoperands, hbuild, hplaces,
    hcomputes, ?_, hlevelOf, hbound, ?_⟩
  · intro hlive f
    exact (hcomputes f).trans (hproposes.computes_placed_iff hn hacyclic hne hplaces hlive f)
  · exact fun now hnow => hplaces.levelOf_le hproposes.wellFormed hproposes.isLive hbound hnow

/-- A chain of conjunctions, with two complements on its way up to a gate of level 5, which the
law takes to level 4. -/
theorem redistribution_lowers_of_skewed : ∃ n view w' s m, DepthView.ofNetwork n = .ok view ∧
    view.levelOf n 11 = .ok 5 ∧ apply .threeLevel 11 ⟨n, view, #[]⟩ = .ok true w' ∧
      Places n.size 11 s m w'.network ∧ w'.network.isLive s.node = true ∧
        (∀ f, n.Computes (.ofNode 11) f ↔ w'.network.Computes s f) ∧
          w'.network.NoDeeper s.node 4 := by
  let n := Network.empty.assemble [.input, .input, .input, .input, .input, .input, .gate 2 4,
    .gate 14 6, .gate 16 8, .gate 19 10, .gate 21 12, .output 22]
  obtain ⟨hn, -⟩ : n.Sound := Network.Sound.assemble wellFormed_empty _
  have hends : (match DepthView.ofNetwork n with
    | .ok view => match apply .threeLevel 11 ⟨n, view, #[]⟩ with
      | .ok replaced w' => replaced && decide (view.levelOf n 11 = .ok 5) &&
        match search 11 n view with
        | .ok (.present o) => (match build o n with
          | .ok s _ => w'.network.isLive s.node | .error _ _ => false)
        | _ => false
      | .error _ _ => false
    | .error _ => false) = true := by decide +kernel
  cases hview : DepthView.ofNetwork n with
  | error => simp [hview] at hends
  | ok view =>
  cases hrun : apply .threeLevel 11 ⟨n, view, #[]⟩ with
  | error => simp [hview, hrun] at hends
  | ok replaced w' =>
      simp only [hview, hrun, Bool.and_eq_true, decide_eq_true_eq] at hends
      obtain ⟨⟨rfl, hlevel5⟩, hlive⟩ := hends
      have hfresh : view.isStale n = false := by
        simp [DepthView.isStale, (DepthView.describes_ofNetwork hview).1.generation]
      obtain ⟨o, z, w, s, m, level, hsearch, -, -, -, -, -, hbuild, hplaces, -, hcomputes,
        hlevel, hbound, -⟩ := redistribution_lowers hn (.taken hview) hfresh hrun
      simp only [hsearch, hbuild] at hlive
      obtain rfl : level = 4 := by simpa [hlevel5] using hlevel.symm
      exact ⟨n, view, w', s, m, hview, hlevel5, hrun, hplaces, hlive, hcomputes hlive, hbound⟩

end AndInverter
