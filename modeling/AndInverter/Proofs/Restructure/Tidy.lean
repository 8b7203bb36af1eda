import AndInverter.Proofs.Network.Assembly
import AndInverter.Proofs.Restructure.Weight

/-!
Restructuring leaves no useless gate behind.  In an acyclic network a gate is useless to the
outputs only if some gate above it, or the gate itself, has no use at all; and no attempt leaves
a gate unused that was in use.

* `Network.Tidy`: every live gate is in the cone of an output, and `tidy_iff`: no live gate is
  without a use;
* `Network.Attempt`: what one law does at one gate, and `restructure_attempts`: a run makes
  attempts and nothing else;
* `restructure_tidy`: a run keeps a network tidy.
-/

namespace AndInverter

open Network Relation

namespace Network

variable {n : Network} {v : Nat}

/-! ### Tidy networks -/

/-- **A tidy network**: every live gate is in the cone of an output. -/
def Tidy (n : Network) : Prop :=
  ∀ g, n.isLiveGate g = true → ∃ s ∈ n.outputs, n.DependsOn s.node g

/-- What an output depends on is in use. -/
lemma WellFormed.not_dangling_of_dependsOn {s : Signal} (hn : n.WellFormed) (hs : s ∈ n.outputs)
    (hdep : n.DependsOn s.node v) : ¬ n.Dangling v := by
  rintro ⟨-, h0⟩
  rcases hdep.cases_tail with rfl | ⟨u, -, hread⟩
  · exact hn.fanout_ne_zero_of_output hs h0
  · exact hn.fanout_ne_zero_of_reads hread h0

/-- **An acyclic network is tidy** exactly when all its gates are in use. -/
theorem tidy_iff (hn : n.WellFormed) (h : n.Acyclic) : n.Tidy ↔ ∀ v, ¬ n.Dangling v := by
  constructor
  · intro htidy v hv
    obtain ⟨s, hs, hdep⟩ := htidy v hv.1
    exact hn.not_dangling_of_dependsOn hs hdep hv
  · intro hunused g hg
    obtain ⟨root, hdep, hroot⟩ := exists_root hn h hg
    rcases hroot with hroot | ⟨s, hs, rfl⟩
    · exact absurd hroot (hunused root)
    · exact ⟨s, hs, hdep⟩

end Network

/-! ### A run, attempt by attempt -/

open Restructuring in
/-- **An attempt**: what one law does at one gate, from a workspace in which attempts may be
made. -/
def Network.Attempt (n m : Network) : Prop :=
  ∃ law gate replaced w w', Ready w ∧ applyAndRefresh law gate w = .ok replaced w' ∧
    w.network = n ∧ w'.network = m

namespace Restructuring

variable {w w' : Workspace} {law : Law} {gate : Nat} {laws : List Law} {limit : Option Nat}

lemma attempt_of_applyAndRefresh {replaced : Bool} (hw : Ready w)
    (h : applyAndRefresh law gate w = .ok replaced w') : w.network.Attempt w'.network :=
  ⟨law, gate, replaced, w, w', hw, h, rfl, rfl⟩

lemma applyFirst_attempts {law : Option Law} (hw : Ready w)
    (h : applyFirst gate laws w = .ok law w') : ReflTransGen Attempt w.network w'.network := by
  induction laws generalizing w with
  | nil =>
      obtain ⟨-, rfl⟩ := pure_eq_ok.mp h
      exact .refl
  | cons first laws ih =>
      simp only [applyFirst, bind_eq_ok] at h
      obtain ⟨replaced, w₁, hattempt, h⟩ := h
      have hfirst := attempt_of_applyAndRefresh hw hattempt
      cases replaced with
      | true =>
          obtain ⟨-, rfl⟩ := pure_eq_ok.mp h
          exact .single hfirst
      | false => exact .head hfirst (ih (attempt_spec hw hattempt).1 h)

lemma offer_attempts {gates : List Nat} {tally tally' : Tally} (hw : Ready w)
    (h : offer laws tally gates w = .ok tally' w') :
    ReflTransGen Attempt w.network w'.network := by
  induction gates generalizing w tally with
  | nil =>
      obtain ⟨-, rfl⟩ := pure_eq_ok.mp h
      exact .refl
  | cons gate gates ih =>
      simp only [offer, bind_eq_ok, query_eq_ok] at h
      obtain ⟨slot, _, ⟨-, rfl⟩, h⟩ := h
      split_ifs at h with hdead
      · exact ih hw h
      · obtain ⟨law, w₁, hfirst, h⟩ := bind_eq_ok.mp h
        have hw₁ := (applyFirst_spec hw hfirst).1
        refine (applyFirst_attempts hw hfirst).trans ?_
        cases law with
        | none => exact ih hw₁ h
        | some law => exact ih hw₁ h

lemma nextPass_attempts {count : Nat} {tally : Tally} (hw : Ready w)
    (h : nextPass laws count w = .ok tally w') : ReflTransGen Attempt w.network w'.network := by
  simp only [nextPass, runPass, bind_eq_ok, look_eq_ok, query_eq_ok, note_eq_ok,
    pure_eq_ok] at h
  obtain ⟨_, w₁, ⟨_, _, ⟨-, rfl⟩, hoffer⟩, depth, _, ⟨-, rfl⟩, _, _, ⟨-, rfl⟩, _, _, rfl, -,
    rfl⟩ := h
  have hattempts := offer_attempts hw hoffer
  exact hattempts

lemma runPasses_attempts {bound : Nat} {done passes : Passes} (hw : Ready w)
    (h : runPasses laws limit bound done w = .ok passes w') :
    ReflTransGen Attempt w.network w'.network := by
  induction bound generalizing w done with
  | zero => exact (throw_eq_ok.mp h).elim
  | succ bound ih =>
      rw [runPasses] at h
      split_ifs at h with hlimit
      · simp only [bind_eq_ok, note_eq_ok, pure_eq_ok] at h
        obtain ⟨_, _, rfl, -, rfl⟩ := h
        exact .refl
      · obtain ⟨tally, w₁, hpass, h⟩ := bind_eq_ok.mp h
        refine (nextPass_attempts hw hpass).trans ?_
        split_ifs at h with hzero
        · obtain ⟨-, rfl⟩ := pure_eq_ok.mp h
          exact .refl
        · exact ih (nextPass_spec hw hpass).1 h

end Restructuring

open Restructuring

variable {n m : Network} {o : RestructureOptions} {report : RestructureReport} {w : Workspace}

/-- **A run of restructuring makes attempts** and changes the network by nothing else. -/
theorem restructure_attempts (hn : n.WellFormed) (h : n.restructure o = .ok report w) :
    ReflTransGen Attempt n w.network := by
  simp only [Network.restructure, restructure, bind_eq_ok, query_eq_ok, look_eq_ok, note_eq_ok,
    pure_eq_ok] at h
  obtain ⟨_, w₁, hprepare, _, _, ⟨-, rfl⟩, passes, w₂, hpasses, _, _, ⟨-, rfl⟩, _, _,
    ⟨-, rfl⟩, _, w₃, hcheck, _, _, ⟨-, rfl⟩, _, _, rfl, -, rfl⟩ := h
  obtain ⟨hw₁, hnetwork, -⟩ := prepare_spec hn hprepare
  have hattempts := runPasses_attempts hw₁ hpasses
  rw [hnetwork] at hattempts
  simp only [checkAcyclic_network hcheck]
  exact hattempts

/-! ### What attempts leave behind -/

/-- **An attempt leaves no gate unused** that was in use. -/
theorem Network.Attempt.dangling {v : Nat} (h : n.Attempt m) (hv : m.Dangling v) :
    n.Dangling v := by
  obtain ⟨law, gate, replaced, w, w', hw, hattempt, rfl, rfl⟩ := h
  simp only [applyAndRefresh, bind_eq_ok, look_eq_ok] at hattempt
  obtain ⟨_, _, ⟨-, rfl⟩, replaced', w₁, happly, _, _, ⟨-, rfl⟩, hrest⟩ := hattempt
  have hnetwork : w'.network = w₁.network := by
    split_ifs at hrest
    · obtain ⟨_, w₂, hrefresh, hpure⟩ := bind_eq_ok.mp hrest
      obtain ⟨-, rfl⟩ := pure_eq_ok.mp hpure
      exact (refresh_eq_ok hrefresh).1
    · obtain ⟨-, rfl⟩ := pure_eq_ok.mp hrest
      rfl
  rw [hnetwork] at hv
  obtain ⟨-, hsame, -⟩ | ⟨s, n₁, hsuggests, hcommits, -⟩ := apply_eq_ok hw happly
  · exact hsame ▸ hv
  · have hproposes := hsuggests.proposes hw.wellFormed hw.acyclic
    exact hcommits.dangling hw.wellFormed hproposes.wellFormed hproposes.grows hv

/-- So do any number of them. -/
lemma dangling_of_attempts {v : Nat} (h : ReflTransGen Attempt n m) (hv : m.Dangling v) :
    n.Dangling v := by
  induction h with
  | refl => exact hv
  | tail _ hattempt ih => exact ih (hattempt.dangling hv)

/-- **Restructuring keeps a network tidy**: where every live gate was in the cone of an output,
every live gate of the result is. -/
theorem restructure_tidy (hn : n.WellFormed) (htidy : n.Tidy)
    (h : n.restructure o = .ok report w) : w.network.Tidy := by
  have hderivation := (restructure_derivation hn h).1
  obtain ⟨hm, hmacyclic⟩ := hderivation.target
  have hused := (tidy_iff hn hderivation.source.2).mp htidy
  refine (tidy_iff hm hmacyclic).mpr ?_
  exact fun v hv => hused v (dangling_of_attempts (restructure_attempts hn h) hv)

/-- A common operand is taken out of two gates, which are retired with the one above them. -/
theorem restructure_tidy_of_common : ∃ (n : Network) (report : RestructureReport)
    (w : Workspace), (n.WellFormed ∧ n.Tidy) ∧ n.restructure {} = .ok report w ∧
      w.network.gates ≠ n.gates ∧ w.network.Tidy := by
  let n := Network.empty.assemble [.input, .input, .input, .gate 2 4, .gate 2 6, .gate 8 10,
    .output 12]
  obtain ⟨hn, hacyclic⟩ : n.Sound := Network.Sound.assemble wellFormed_empty _
  have hnone : n.dangling = ∅ := by decide +kernel
  have htidy : n.Tidy := by
    refine (tidy_iff hn hacyclic).mpr ?_
    intro v hv
    have hmem := mem_dangling.mpr hv
    rw [hnone] at hmem
    exact Finset.notMem_empty v hmem
  have hends : (match n.restructure {} with
    | .ok _ w => w.network.gates != n.gates | .error _ _ => false) = true := by
    decide +kernel
  cases hrun : n.restructure {} with
  | error => simp [hrun] at hends
  | ok report w =>
      simp only [hrun, bne_iff_ne] at hends
      exact ⟨n, report, w, ⟨hn, htidy⟩, hrun, hends, restructure_tidy hn htidy hrun⟩

end AndInverter
