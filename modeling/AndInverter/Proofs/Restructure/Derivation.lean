import AndInverter.Proofs.Restructure.Attempt

/-!
The rewrites of a run of restructuring, one after the other.

* `Network.rewrites` lists them with the networks before and after each;
* `Network.Derivation`: a list of rewrites leads from one network to another;
* `restructure_derivation`: the rewrites of a run lead to its result.
-/

namespace AndInverter

open Network

/-- **A rewrite**: the gate that was replaced, and the networks before and after that. -/
structure Rewrite where
  before : Network
  gate : Nat
  after : Network

/-! ### The rewrites of a run -/

namespace Restructuring

/-- The replacement that ends the attempts at a gate, if there is one. -/
def rewritesAt (gate : Nat) : List Law → Workspace → List Rewrite
  | [], _ => []
  | law :: laws, w =>
    match applyAndRefresh law gate w with
    | .ok true w' => [⟨w.network, gate, w'.network⟩]
    | .ok false w' => rewritesAt gate laws w'
    | .error _ _ => []

/-- The rewrites while gates are offered to the laws. -/
def rewritesAmong (laws : List Law) : List Nat → Workspace → List Rewrite
  | [], _ => []
  | gate :: gates, w =>
    if w.network.isLive gate then
      match applyFirst gate laws w with
      | .ok _ w' => rewritesAt gate laws w ++ rewritesAmong laws gates w'
      | .error _ _ => rewritesAt gate laws w
    else rewritesAmong laws gates w

/-- The rewrites of all passes. -/
def rewritesOfPasses (laws : List Law) (limit : Option Nat) :
    (bound : Nat) → Passes → Workspace → List Rewrite
  | 0, _, _ => []
  | bound + 1, done, w =>
    if limit.any (· ≤ done.count) then []
    else
      rewritesAmong laws w.network.gates w ++
        match nextPass laws (done.count + 1) w with
        | .ok tally w' =>
          if tally.total = 0 then []
          else rewritesOfPasses laws limit bound ⟨done.count + 1, done.tally + tally, false⟩ w'
        | .error _ _ => []

end Restructuring

open Restructuring in
/-- **The rewrites of a run**, in the order in which they were made. -/
def Network.rewrites (n : Network) (o : RestructureOptions) : List Rewrite :=
  match prepare o.laws { network := n } with
  | .ok _ w => rewritesOfPasses o.laws o.maxPasses (passBound w.network o.maxPasses) {} w
  | .error _ _ => []

/-! ### Derivations -/

namespace Network

/-- **A derivation**: rewrites one after the other, with idle attempts in between, and every
network on the way well-formed and acyclic. -/
inductive Derivation : Network → List Rewrite → Network → Prop
  | done {n : Network} (hn : n.WellFormed) (hacyclic : n.Acyclic) : Derivation n [] n
  | idle {n l m : Network} {rewrites : List Rewrite} (hn : n.WellFormed) (hacyclic : n.Acyclic)
      (h : n.Idles l) (rest : Derivation l rewrites m) : Derivation n rewrites m
  | rewrite {n l m : Network} {gate : Nat} {rewrites : List Rewrite} (hn : n.WellFormed)
      (hacyclic : n.Acyclic) (h : n.Rewrites gate l) (rest : Derivation l rewrites m) :
    Derivation n (⟨n, gate, l⟩ :: rewrites) m

variable {n m l : Network} {rewrites rewrites' : List Rewrite}

/-- A derivation starts from a well-formed and acyclic network. -/
lemma Derivation.source (h : Derivation n rewrites m) : n.WellFormed ∧ n.Acyclic := by
  cases h with
  | done hn hacyclic => exact ⟨hn, hacyclic⟩
  | idle hn hacyclic => exact ⟨hn, hacyclic⟩
  | rewrite hn hacyclic => exact ⟨hn, hacyclic⟩

/-- A derivation ends in a well-formed and acyclic network. -/
lemma Derivation.target (h : Derivation n rewrites m) : m.WellFormed ∧ m.Acyclic := by
  induction h with
  | done hn hacyclic => exact ⟨hn, hacyclic⟩
  | idle _ _ _ _ ih => exact ih
  | rewrite _ _ _ _ ih => exact ih

lemma Derivation.append (h : Derivation n rewrites m) (h' : Derivation m rewrites' l) :
    Derivation n (rewrites ++ rewrites') l := by
  induction h with
  | done => exact h'
  | idle hn hacyclic hidle _ ih => exact .idle hn hacyclic hidle (ih h')
  | rewrite hn hacyclic hrewrites _ ih => exact .rewrite hn hacyclic hrewrites (ih h')

end Network

/-! ### Runs are derivations -/

namespace Restructuring

variable {w w' : Workspace} {gate : Nat} {laws : List Law} {limit : Option Nat}

lemma Ready.done (hw : Ready w) : Derivation w.network [] w.network :=
  .done hw.wellFormed hw.acyclic

/-- The first law that replaces a gate makes one rewrite. -/
lemma applyFirst_spec {law : Option Law} (hw : Ready w)
    (h : applyFirst gate laws w = .ok law w') :
    Ready w' ∧ Derivation w.network (rewritesAt gate laws w) w'.network ∧
      (rewritesAt gate laws w).length = if law.isSome then 1 else 0 := by
  induction laws generalizing w with
  | nil =>
      obtain ⟨rfl, rfl⟩ := pure_eq_ok.mp h
      exact ⟨hw, hw.done, rfl⟩
  | cons first laws ih =>
      simp only [applyFirst, bind_eq_ok] at h
      obtain ⟨replaced, w₁, hattempt, h⟩ := h
      obtain ⟨hw₁, hrewrites, hidles⟩ := attempt_spec hw hattempt
      cases replaced with
      | true =>
          obtain ⟨rfl, rfl⟩ := pure_eq_ok.mp h
          rw [rewritesAt, hattempt]
          exact ⟨hw₁, .rewrite hw.wellFormed hw.acyclic (hrewrites rfl) hw₁.done, rfl⟩
      | false =>
          obtain ⟨hw', hderivation, hlength⟩ := ih hw₁ h
          rw [rewritesAt, hattempt]
          exact ⟨hw', .idle hw.wellFormed hw.acyclic (hidles rfl) hderivation, hlength⟩

lemma isLive_of_read {n : Network} {slot : Slot} (h : n.read gate = .ok slot) :
    n.isLive gate = !slot.dead := by
  rw [Network.read] at h
  rw [Network.isLive]
  cases hslot : n.slot? gate <;> simp_all

/-- A pass over gates makes as many rewrites as it counts. -/
lemma offer_spec {gates : List Nat} {tally tally' : Tally} (hw : Ready w)
    (h : offer laws tally gates w = .ok tally' w') :
    Ready w' ∧ Derivation w.network (rewritesAmong laws gates w) w'.network ∧
      tally'.total = tally.total + (rewritesAmong laws gates w).length := by
  induction gates generalizing w tally with
  | nil =>
      obtain ⟨rfl, rfl⟩ := pure_eq_ok.mp h
      exact ⟨hw, hw.done, rfl⟩
  | cons gate gates ih =>
      simp only [offer, bind_eq_ok, query_eq_ok] at h
      obtain ⟨slot, _, ⟨hslot, rfl⟩, h⟩ := h
      rw [rewritesAmong, isLive_of_read hslot]
      cases hdead : slot.dead with
      | true =>
          rw [hdead, if_pos rfl] at h
          exact ih hw h
      | false =>
          rw [hdead, if_neg Bool.false_ne_true] at h
          obtain ⟨law, w₁, hfirst, h⟩ := bind_eq_ok.mp h
          obtain ⟨hw₁, hderivation₁, hlength₁⟩ := applyFirst_spec hw hfirst
          rw [Bool.not_false, if_pos rfl, hfirst]
          cases law with
          | none =>
              obtain ⟨hw', hderivation, htotal⟩ := ih hw₁ h
              refine ⟨hw', hderivation₁.append hderivation, ?_⟩
              rw [htotal, List.length_append, hlength₁]
              simp
          | some law =>
              obtain ⟨hw', hderivation, htotal⟩ := ih hw₁ h
              refine ⟨hw', hderivation₁.append hderivation, ?_⟩
              rw [htotal, List.length_append, hlength₁, Tally.total_record]
              simp only [Option.isSome_some, if_true]
              omega

lemma Ready.note {entry : LogEntry} (hw : Ready w) :
    Ready { w with log := w.log.push entry } :=
  ⟨hw.wellFormed, hw.acyclic, hw.describes⟩

lemma nextPass_spec {count : Nat} {tally : Tally} (hw : Ready w)
    (h : nextPass laws count w = .ok tally w') : Ready w' ∧
      Derivation w.network (rewritesAmong laws w.network.gates w) w'.network ∧
        tally.total = (rewritesAmong laws w.network.gates w).length := by
  simp only [nextPass, runPass, bind_eq_ok, look_eq_ok, query_eq_ok, note_eq_ok,
    pure_eq_ok] at h
  obtain ⟨_, w₁, ⟨_, _, ⟨rfl, rfl⟩, hoffer⟩, depth, _, ⟨-, rfl⟩, _, _, ⟨rfl, rfl⟩, _, _, rfl, rfl,
    rfl⟩ := h
  obtain ⟨hw₁, hderivation, htotal⟩ := offer_spec hw hoffer
  exact ⟨hw₁.note, hderivation, htotal.trans (Nat.zero_add _)⟩

/-- All passes together make as many rewrites as they count. -/
lemma runPasses_spec {bound : Nat} {done passes : Passes} (hw : Ready w)
    (h : runPasses laws limit bound done w = .ok passes w') : Ready w' ∧
      Derivation w.network (rewritesOfPasses laws limit bound done w) w'.network ∧
        passes.tally.total
          = done.tally.total + (rewritesOfPasses laws limit bound done w).length := by
  induction bound generalizing w done with
  | zero => exact (throw_eq_ok.mp h).elim
  | succ bound ih =>
      rw [runPasses] at h
      rw [rewritesOfPasses]
      split_ifs at h with hlimit
      · simp only [bind_eq_ok, note_eq_ok, pure_eq_ok] at h
        obtain ⟨_, _, rfl, rfl, rfl⟩ := h
        rw [if_pos hlimit]
        exact ⟨hw.note, hw.done, rfl⟩
      · obtain ⟨tally, w₁, hpass, h⟩ := bind_eq_ok.mp h
        obtain ⟨hw₁, hderivation₁, htotal₁⟩ := nextPass_spec hw hpass
        rw [if_neg hlimit, hpass]
        simp only
        split_ifs at h with hzero
        · obtain ⟨rfl, rfl⟩ := pure_eq_ok.mp h
          rw [if_pos hzero, List.append_nil]
          exact ⟨hw₁, hderivation₁, by rw [← htotal₁, hzero]; rfl⟩
        · obtain ⟨hw', hderivation, htotal⟩ := ih hw₁ h
          rw [if_neg hzero]
          refine ⟨hw', hderivation₁.append hderivation, ?_⟩
          rw [htotal, Tally.total_add, List.length_append, htotal₁, Nat.add_assoc]

/-- What a run begins with. -/
lemma prepare_spec {found : Nat × Nat} (hn : w.network.WellFormed)
    (h : prepare laws w = .ok found w') :
    Ready w' ∧ w'.network = w.network ∧ found.1 = w.network.depth := by
  simp only [prepare, bind_eq_ok, query_eq_ok, look_eq_ok, note_eq_ok, pure_eq_ok] at h
  obtain ⟨_, w₁, hrefresh, depth, _, ⟨hdepth, rfl⟩, gates, _, ⟨-, rfl⟩, _, _, rfl, rfl, rfl⟩ := h
  obtain ⟨hnetwork, hview⟩ := refresh_eq_ok hrefresh
  obtain ⟨hdescribes, hacyclic⟩ := DepthView.describes_ofNetwork hview
  rw [← hnetwork] at hn hdescribes hacyclic
  have hw₁ : Ready w₁ := ⟨hn, hacyclic, hdescribes⟩
  refine ⟨hw₁.note, hnetwork, ?_⟩
  rw [← hnetwork]
  exact (hdescribes.currentDepth_eq_ok.mp hdepth).symm

/-- The check against cycles changes the log at most. -/
lemma checkAcyclic_network {context : String} {u : Unit}
    (h : checkAcyclic context w = .ok u w') : w'.network = w.network := by
  simp only [checkAcyclic, bind_eq_ok, look_eq_ok, query_eq_ok] at h
  obtain ⟨_, _, ⟨rfl, rfl⟩, ⟨⟩, w₁, hloop, -, rfl⟩ := h
  refine forM_induction (fun w₂ => w₂.network = w.network) ?_ rfl hloop
  intro entry _ s t hs hnote
  rw [← note_eq_ok.mp hnote]
  exact hs

end Restructuring

open Restructuring

variable {n : Network} {o : RestructureOptions} {report : RestructureReport} {w : Workspace}

/-- **A run of restructuring is a derivation**: its rewrites, which are as many as the report
says, lead from the network to the result, and the reported depths are those of the two. -/
theorem restructure_derivation (hn : n.WellFormed) (h : n.restructure o = .ok report w) :
    n.Derivation (n.rewrites o) w.network ∧ (n.rewrites o).length = report.tally.total ∧
      report.depthBefore = n.depth ∧ report.depthAfter = w.network.depth := by
  simp only [Network.restructure, restructure, bind_eq_ok, query_eq_ok, look_eq_ok, note_eq_ok,
    pure_eq_ok] at h
  obtain ⟨⟨depthBefore, gatesBefore⟩, w₁, hprepare, _, _, ⟨rfl, rfl⟩, passes, w₂, hpasses,
    depthAfter, _, ⟨hdepth, rfl⟩, gatesAfter, _, ⟨rfl, rfl⟩, _, w₃, hcheck, _, _, ⟨-, rfl⟩, _, _,
    rfl, rfl, rfl⟩ := h
  obtain ⟨hw₁, hnetwork₁, hbefore⟩ := prepare_spec hn hprepare
  obtain ⟨hw₂, hderivation, htotal⟩ := runPasses_spec hw₁ hpasses
  have hnetwork₃ := checkAcyclic_network hcheck
  have hrewrites : n.rewrites o = rewritesOfPasses o.laws o.maxPasses
      (passBound w₁.network o.maxPasses) {} w₁ := by rw [Network.rewrites, hprepare]
  rw [hrewrites]
  refine ⟨?_, ?_, hbefore, ?_⟩
  · simp only [hnetwork₃]
    exact hnetwork₁ ▸ hderivation
  · rw [htotal]
    exact (Nat.zero_add _).symm
  · simp only [hnetwork₃]
    exact (hw₂.describes.currentDepth_eq_ok.mp hdepth).symm

end AndInverter
