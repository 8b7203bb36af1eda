import AndInverter.Proofs.Network.Evaluation
import AndInverter.Proofs.Restructure.Derivation
import AndInverter.Proofs.Restructure.Progress

/-!
How a run of restructuring ends.  Each rewrite takes from the burden of the network, which is
less than the number of passes that a run allows itself, so without a limit a run goes on until a
pass finds nothing to do.  A run that does not get there was stopped by a full counter or by an
attempt that foundered, or brought back an expression that it had replaced.

* `Relieves`: rewrites each of which took from the burden;
* `runPasses_eq_error`: the causes for which the passes do not come to an end;
* `restructure_fixpoint`: a run reaches a fixpoint, or there is one of these causes.
-/

namespace AndInverter

open Network

variable {n m l : Network} {rewrites rewrites' : List Rewrite} {gate : Nat} {fault : Fault}

/-! ### The burden along a run -/

/-- **Rewrites that relieve a network**: each took from the burden, unless one of them brought
back the expression that it replaced. -/
def Relieves (n : Network) (rewrites : List Rewrite) (m : Network) : Prop :=
  (∃ r ∈ rewrites, r.Recurs) ∨ m.burden + rewrites.length ≤ n.burden

lemma Relieves.refl (n : Network) : Relieves n [] n := .inr le_rfl

lemma Relieves.append (h : Relieves n rewrites m) (h' : Relieves m rewrites' l) :
    Relieves n (rewrites ++ rewrites') l := by
  rcases h with ⟨r, hr, hrecurs⟩ | hle
  · exact .inl ⟨r, List.mem_append_left _ hr, hrecurs⟩
  rcases h' with ⟨r, hr, hrecurs⟩ | hle'
  · exact .inl ⟨r, List.mem_append_right _ hr, hrecurs⟩
  · right
    rw [List.length_append]
    omega

/-! ### Sizes along a run -/

namespace Network

/-- No position is given up. -/
lemma Derivation.size_le (h : n.Derivation rewrites m) : n.size ≤ m.size := by
  induction h with
  | done => exact le_rfl
  | idle _ _ hidles _ ih =>
      obtain ⟨n₁, hext, -, hret⟩ := hidles
      exact (hext.size_le.trans_eq hret.size.symm).trans ih
  | rewrite _ _ hrewrites _ ih =>
      obtain ⟨n₁, s, k, n₂, hproposes, -, hsubstitute, hret⟩ := hrewrites
      have hsize := (substitute_wellFormed hproposes.wellFormed hsubstitute).2.size
      exact (hproposes.grows.size_le.trans_eq (hret.size.trans hsize).symm).trans ih

end Network

namespace Restructuring

variable {w w' : Workspace} {law : Law} {laws laws' : List Law} {limit : Option Nat}

/-! ### What attempts and passes do to the burden -/

/-- An attempt that replaces the gate relieves the network, and any other does not burden it. -/
lemma attempt_relieves {replaced : Bool} (hw : Ready w)
    (h : applyAndRefresh law gate w = .ok replaced w') :
    Relieves w.network (if replaced then [⟨w.network, gate, w'.network⟩] else []) w'.network := by
  have hacyclic := (attempt_spec hw h).1.acyclic
  simp only [applyAndRefresh, bind_eq_ok, look_eq_ok] at h
  obtain ⟨_, _, ⟨rfl, rfl⟩, replaced', w₁, happly, _, _, ⟨rfl, rfl⟩, h⟩ := h
  have hsame : w'.network = w₁.network ∧ replaced' = replaced := by
    split_ifs at h
    · obtain ⟨_, w₂, hrefresh, hrest⟩ := bind_eq_ok.mp h
      obtain ⟨rfl, rfl⟩ := pure_eq_ok.mp hrest
      exact ⟨(refresh_eq_ok hrefresh).1, rfl⟩
    · obtain ⟨rfl, rfl⟩ := pure_eq_ok.mp h
      exact ⟨rfl, rfl⟩
  obtain ⟨hnetwork, rfl⟩ := hsame
  rw [hnetwork] at hacyclic ⊢
  obtain ⟨hidle, hrewrite⟩ := apply_burden hw happly hacyclic
  cases replaced' with
  | false => exact .inr (hidle rfl)
  | true =>
      rcases hrewrite rfl with hlt | hrecurs
      · exact .inr hlt
      · exact .inl ⟨_, List.mem_singleton_self _, hrecurs⟩

lemma applyFirst_relieves {law : Option Law} (hw : Ready w)
    (h : applyFirst gate laws w = .ok law w') :
    Relieves w.network (rewritesAt gate laws w) w'.network := by
  induction laws generalizing w with
  | nil =>
      obtain ⟨rfl, rfl⟩ := pure_eq_ok.mp h
      exact .refl _
  | cons first laws ih =>
      simp only [applyFirst, bind_eq_ok] at h
      obtain ⟨replaced, w₁, hattempt, h⟩ := h
      have hrelieves := attempt_relieves hw hattempt
      rw [rewritesAt, hattempt]
      cases replaced with
      | true =>
          obtain ⟨rfl, rfl⟩ := pure_eq_ok.mp h
          exact hrelieves
      | false => exact hrelieves.append (ih (attempt_spec hw hattempt).1 h)

lemma offer_relieves {gates : List Nat} {tally tally' : Tally} (hw : Ready w)
    (h : offer laws tally gates w = .ok tally' w') :
    Relieves w.network (rewritesAmong laws gates w) w'.network := by
  induction gates generalizing w tally with
  | nil =>
      obtain ⟨rfl, rfl⟩ := pure_eq_ok.mp h
      exact .refl _
  | cons gate gates ih =>
      simp only [offer, bind_eq_ok, query_eq_ok] at h
      obtain ⟨slot, _, ⟨hslot, rfl⟩, h⟩ := h
      rw [rewritesAmong, isLive_of_read hslot]
      cases hdead : slot.dead with
      | true =>
          rw [hdead, if_pos rfl] at h
          exact ih hw h
      | false =>
          rw [hdead, if_neg Bool.false_ne_true] at h
          obtain ⟨law, w₁, hfirst, h⟩ := bind_eq_ok.mp h
          have hw₁ := (applyFirst_spec hw hfirst).1
          rw [Bool.not_false, if_pos rfl, hfirst]
          refine (applyFirst_relieves hw hfirst).append ?_
          cases law with
          | none => exact ih hw₁ h
          | some law => exact ih hw₁ h

/-- **A pass relieves the network** by each of its rewrites. -/
lemma nextPass_relieves {count : Nat} {tally : Tally} (hw : Ready w)
    (h : nextPass laws count w = .ok tally w') :
    Relieves w.network (rewritesAmong laws w.network.gates w) w'.network := by
  simp only [nextPass, runPass, bind_eq_ok, look_eq_ok, query_eq_ok, note_eq_ok,
    pure_eq_ok] at h
  obtain ⟨_, w₁, ⟨_, _, ⟨rfl, rfl⟩, hoffer⟩, depth, _, ⟨-, rfl⟩, _, _, ⟨rfl, rfl⟩, _, _, rfl, rfl,
    rfl⟩ := h
  have hrelieves := offer_relieves hw hoffer
  exact hrelieves

/-! ### Where a run stops short -/

/-- A run stops short on a full counter, or its rewrites lead to where an attempt founders. -/
def Stops (n : Network) (laws : List Law) (rewrites : List Rewrite) (fault : Fault) : Prop :=
  fault = .counterOverflow ∨ ∃ m, n.Derivation rewrites m ∧ m.Founders laws fault

lemma Stops.append (h : Stops m laws rewrites' fault) (hbefore : n.Derivation rewrites m) :
    Stops n laws (rewrites ++ rewrites') fault := by
  refine h.imp_right ?_
  rintro ⟨l, hderivation, hfounders⟩
  exact ⟨l, hbefore.append hderivation, hfounders⟩

lemma applyFirst_eq_error (hw : Ready w) (hgate : gate < w.network.size) (hlaws : laws ⊆ laws')
    (h : applyFirst gate laws w = .error fault w') :
    Stops w.network laws' (rewritesAt gate laws w) fault := by
  induction laws generalizing w with
  | nil => exact absurd h pure_ne_error
  | cons law laws ih =>
      obtain ⟨hlaw, hlaws⟩ := List.cons_subset.mp hlaws
      rcases bind_eq_error.mp h with h | ⟨replaced, w₁, hattempt, h⟩
      · rw [rewritesAt, h]
        refine (attempt_eq_error hw hgate hlaw h).imp_right ?_
        exact fun hfounders => ⟨w.network, hw.done, hfounders⟩
      · obtain ⟨hw₁, -, hidles⟩ := attempt_spec hw hattempt
        cases replaced with
        | true => exact absurd h pure_ne_error
        | false =>
            have hidle : w.network.Derivation [] w₁.network :=
              .idle hw.wellFormed hw.acyclic (hidles rfl) hw₁.done
            rw [rewritesAt, hattempt]
            exact (ih hw₁ (hgate.trans_le hidle.size_le) hlaws h).append hidle

lemma offer_eq_error {gates : List Nat} {tally : Tally} (hw : Ready w)
    (hgates : ∀ gate ∈ gates, gate < w.network.size)
    (h : offer laws tally gates w = .error fault w') :
    Stops w.network laws (rewritesAmong laws gates w) fault := by
  induction gates generalizing w tally with
  | nil => exact absurd h pure_ne_error
  | cons gate gates ih =>
      obtain ⟨hgate, hgates⟩ := List.forall_mem_cons.mp hgates
      have hread : w.network.read gate = .ok w.network.nodes[gate] := by
        rw [Network.read, show w.network.slot? gate = some w.network.nodes[gate] from
          Array.getElem?_eq_getElem hgate]
      rcases bind_eq_error.mp h with h | ⟨slot, _, hquery, h⟩
      · rw [query_eq_error, hread] at h
        cases h.1
      obtain ⟨hslot, rfl⟩ := query_eq_ok.mp hquery
      rw [rewritesAmong, isLive_of_read hslot]
      cases hdead : slot.dead with
      | true =>
          rw [hdead, if_pos rfl] at h
          exact ih hw hgates h
      | false =>
          rw [hdead, if_neg Bool.false_ne_true] at h
          rw [Bool.not_false, if_pos rfl]
          rcases bind_eq_error.mp h with h | ⟨law, w₁, hfirst, h⟩
          · rw [h]
            exact applyFirst_eq_error hw hgate (List.Subset.refl _) h
          · obtain ⟨hw₁, hderivation, -⟩ := applyFirst_spec hw hfirst
            have hgates₁ : ∀ gate ∈ gates, gate < w₁.network.size :=
              fun gate hmem => (hgates gate hmem).trans_le hderivation.size_le
            rw [hfirst]
            cases law with
            | none => exact (ih hw₁ hgates₁ h).append hderivation
            | some law => exact (ih hw₁ hgates₁ h).append hderivation

lemma Ready.currentDepth (hw : Ready w) :
    query (fun n v => v.currentDepth n) w ≠ .error fault w' := by
  rw [Ne, query_eq_error, hw.describes.currentDepth_eq_ok.mpr rfl]
  exact fun h => nomatch h.1

/-- **A pass stops short** only where an attempt of it does. -/
lemma nextPass_eq_error {count : Nat} (hw : Ready w)
    (h : nextPass laws count w = .error fault w') :
    Stops w.network laws (rewritesAmong laws w.network.gates w) fault := by
  rcases bind_eq_error.mp h with h | ⟨tally, w₁, hpass, h⟩
  · rcases bind_eq_error.mp h with h | ⟨gates, _, hlook, h⟩
    · exact absurd h look_ne_error
    obtain ⟨rfl, rfl⟩ := look_eq_ok.mp hlook
    refine offer_eq_error hw ?_ h
    intro gate hgate
    obtain ⟨a, b, hg⟩ := mem_gates.mp hgate
    exact hg.lt_size
  simp only [runPass, bind_eq_ok, look_eq_ok] at hpass
  obtain ⟨_, _, ⟨rfl, rfl⟩, hoffer⟩ := hpass
  have hw₁ := (offer_spec hw hoffer).1
  rcases bind_eq_error.mp h with h | ⟨depth, _, -, h⟩
  · exact absurd h hw₁.currentDepth
  rcases bind_eq_error.mp h with h | ⟨gates, _, -, h⟩
  · exact absurd h look_ne_error
  rcases bind_eq_error.mp h with h | ⟨_, _, -, h⟩
  · exact absurd h note_ne_error
  · exact absurd h pure_ne_error

/-! ### Passes without a limit -/

/-- Without a limit, passes end only when one finds nothing to do. -/
lemma reachedFixpoint_of_runPasses {bound : Nat} {done passes : Passes}
    (h : runPasses laws none bound done w = .ok passes w') : passes.reachedFixpoint = true := by
  induction bound generalizing w done with
  | zero => exact (throw_eq_ok.mp h).elim
  | succ bound ih =>
      rw [runPasses, Option.any_none, if_neg Bool.false_ne_true] at h
      obtain ⟨tally, w₁, -, h⟩ := bind_eq_ok.mp h
      split_ifs at h
      · obtain ⟨rfl, rfl⟩ := pure_eq_ok.mp h
        rfl
      · exact ih h

/-- **Passes that do not come to an end** stopped short, or there were as many of them as the
network has burden, unless an expression was brought back that a rewrite had replaced. -/
theorem runPasses_eq_error {bound : Nat} {done : Passes} (hw : Ready w)
    (h : runPasses laws none bound done w = .error fault w') :
    Stops w.network laws (rewritesOfPasses laws none bound done w) fault ∨
      (fault = .unfinished ∧ (bound ≤ w.network.burden ∨
        ∃ r ∈ rewritesOfPasses laws none bound done w, r.Recurs)) := by
  induction bound generalizing w done with
  | zero => exact .inr ⟨(throw_eq_error.mp h).1.symm, .inl (Nat.zero_le _)⟩
  | succ bound ih =>
      rw [runPasses, Option.any_none, if_neg Bool.false_ne_true] at h
      rw [rewritesOfPasses, Option.any_none, if_neg Bool.false_ne_true]
      rcases bind_eq_error.mp h with h | ⟨tally, w₁, hpass, h⟩
      · rw [h, List.append_nil]
        exact .inl (nextPass_eq_error hw h)
      obtain ⟨hw₁, hderivation, htotal⟩ := nextPass_spec hw hpass
      split_ifs at h with hzero
      · exact absurd h pure_ne_error
      rw [hpass]
      simp only [if_neg hzero]
      refine (ih hw₁ h).imp (·.append hderivation) ?_
      rintro ⟨hfault, hmany | ⟨r, hr, hrecurs⟩⟩
      · refine ⟨hfault, ?_⟩
        rcases nextPass_relieves hw hpass with ⟨r, hr, hrecurs⟩ | hle
        · exact .inr ⟨r, List.mem_append_left _ hr, hrecurs⟩
        · left
          omega
      · exact ⟨hfault, .inr ⟨r, List.mem_append_right _ hr, hrecurs⟩⟩

/-! ### Before and after the passes -/

/-- A run of restructuring gets to its passes. -/
lemma prepare_ne_error (hn : w.network.WellFormed) (hacyclic : w.network.Acyclic) :
    prepare laws w ≠ .error fault w' := by
  intro h
  rcases bind_eq_error.mp h with h | ⟨_, w₁, hrefresh, h⟩
  · exact (refresh_eq_error hn h).1 hacyclic
  obtain ⟨hnetwork, hview⟩ := refresh_eq_ok hrefresh
  have hdescribes := (DepthView.describes_ofNetwork hview).1
  rw [← hnetwork] at hn hacyclic hdescribes
  rcases bind_eq_error.mp h with h | ⟨depth, _, -, h⟩
  · exact Ready.currentDepth ⟨hn, hacyclic, hdescribes⟩ h
  rcases bind_eq_error.mp h with h | ⟨gates, _, -, h⟩
  · exact look_ne_error h
  rcases bind_eq_error.mp h with h | ⟨_, _, -, h⟩
  · exact note_ne_error h
  · exact pure_ne_error h

/-- The check against cycles passes. -/
lemma checkAcyclic_ne_error {context : String} (hn : w.network.WellFormed)
    (hacyclic : w.network.Acyclic) : checkAcyclic context w ≠ .error fault w' := by
  intro h
  rcases bind_eq_error.mp h with h | ⟨entries, w₁, hlook, h⟩
  · exact look_ne_error h
  obtain ⟨rfl, rfl⟩ := look_eq_ok.mp hlook
  rcases bind_eq_error.mp h with h | ⟨⟨⟩, w₁, hnotes, h⟩
  · exact forM_ne_error (fun _ _ _ _ => note_ne_error) h
  · have hnetwork : w₁.network = w.network := by
      refine forM_induction (fun w₂ => w₂.network = w.network) ?_ rfl hnotes
      intro entry _ s t hs hnote
      rw [← note_eq_ok.mp hnote]
      exact hs
    rw [query_eq_error, hnetwork, (checkAcyclic_iff hn.fanIns_live).mpr hacyclic] at h
    cases h.1

end Restructuring

open Restructuring

variable {o : RestructureOptions}

/-- **How a run of restructuring without a limit ends**: at a fixpoint, unless a counter is full,
the rewrites lead to where an attempt founders, or one of them brings back the expression that it
replaced. -/
theorem restructure_fixpoint (hn : n.WellFormed) (hacyclic : n.Acyclic)
    (hlimit : o.maxPasses = none) :
    (∃ report w, n.restructure o = .ok report w ∧ report.reachedFixpoint = true) ∨
      ∃ fault w, n.restructure o = .error fault w ∧ (fault = .counterOverflow ∨
        (∃ m, n.Derivation (n.rewrites o) m ∧ m.Founders o.laws fault) ∨
        (fault = .unfinished ∧ ∃ r ∈ n.rewrites o, r.Recurs)) := by
  cases hrun : n.restructure o with
  | ok report w =>
      left
      refine ⟨report, w, rfl, ?_⟩
      simp only [Network.restructure, restructure, bind_eq_ok, query_eq_ok, look_eq_ok, note_eq_ok,
        pure_eq_ok, hlimit] at hrun
      obtain ⟨_, _, -, _, _, ⟨rfl, rfl⟩, passes, _, hpasses, _, _, ⟨-, rfl⟩, _, _, ⟨rfl, rfl⟩, _,
        _, -, _, _, ⟨-, rfl⟩, _, _, rfl, rfl, rfl⟩ := hrun
      exact reachedFixpoint_of_runPasses hpasses
  | error fault w =>
      right
      refine ⟨fault, w, rfl, ?_⟩
      simp only [Network.restructure, restructure, hlimit] at hrun
      rcases bind_eq_error.mp hrun with hrun | ⟨⟨depth, gates⟩, w₁, hprepare, hrun⟩
      · exact absurd hrun (prepare_ne_error hn hacyclic)
      obtain ⟨hw₁, hnetwork, -⟩ := prepare_spec hn hprepare
      have hrewrites : n.rewrites o
          = rewritesOfPasses o.laws none (passBound w₁.network none) {} w₁ := by
        rw [Network.rewrites, hprepare, hlimit]
      rcases bind_eq_error.mp hrun with hrun | ⟨bound, _, hlook, hrun⟩
      · exact absurd hrun look_ne_error
      obtain ⟨rfl, rfl⟩ := look_eq_ok.mp hlook
      rcases bind_eq_error.mp hrun with hrun | ⟨passes, w₂, hpasses, hrun⟩
      · have hburden := burden_lt_passBound hw₁.wellFormed hw₁.acyclic
        rcases runPasses_eq_error hw₁ hrun with hstops | ⟨hfault, hmany | hrecurs⟩
        · rw [hrewrites, ← show w₁.network = n from hnetwork]
          exact hstops.imp_right .inl
        · exact absurd hmany (Nat.not_le_of_lt hburden)
        · rw [hrewrites]
          exact .inr (.inr ⟨hfault, hrecurs⟩)
      -- nothing after the passes fails
      obtain ⟨hw₂, -⟩ := runPasses_spec hw₁ hpasses
      exfalso
      rcases bind_eq_error.mp hrun with hrun | ⟨depth, _, hquery, hrun⟩
      · exact hw₂.currentDepth hrun
      obtain ⟨-, rfl⟩ := query_eq_ok.mp hquery
      rcases bind_eq_error.mp hrun with hrun | ⟨gates, _, hlook, hrun⟩
      · exact look_ne_error hrun
      obtain ⟨-, rfl⟩ := look_eq_ok.mp hlook
      rcases bind_eq_error.mp hrun with hrun | ⟨_, w₃, hcheck, hrun⟩
      · exact checkAcyclic_ne_error hw₂.wellFormed hw₂.acyclic hrun
      rcases bind_eq_error.mp hrun with hrun | ⟨_, _, -, hrun⟩
      · have hn₃ : w₃.network.WellFormed := checkAcyclic_network hcheck ▸ hw₂.wellFormed
        rw [query_eq_error, checkInvariants_eq_ok hn₃] at hrun
        cases hrun.1
      rcases bind_eq_error.mp hrun with hrun | ⟨_, _, -, hrun⟩
      · exact note_ne_error hrun
      · exact pure_ne_error hrun

/-- A conjunction that is shared by two gates is factored out, after which there is nothing more
to do. -/
theorem restructure_fixpoint_of_common : ∃ (n : Network) (report : RestructureReport)
    (w : Workspace), n.restructure {} = .ok report w ∧ report.tally.distributivity = 1 ∧
      report.reachedFixpoint = true := by
  let n := Network.empty.assemble [.input, .input, .input, .gate 2 6, .gate 4 6, .gate 8 10,
    .output 12]
  obtain ⟨hn, hacyclic⟩ : n.Sound := Network.Sound.assemble wellFormed_empty _
  have hends : (match n.restructure {} with
    | .ok report _ => report.tally.distributivity == 1 | .error _ _ => false) = true := by
    decide +kernel
  rcases restructure_fixpoint (o := {}) hn hacyclic rfl with
    ⟨report, w, hrun, hfixpoint⟩ | ⟨fault, w, hrun, -⟩
  · simp only [hrun, beq_iff_eq] at hends
    exact ⟨n, report, w, hrun, hends, hfixpoint⟩
  · simp [hrun] at hends

/-- **A run may stop short of a fixpoint**: here the distributive laws suggest a replacement the
substitution of which leaves the network cyclic. -/
theorem restructure_may_stop_short : ¬ ∀ (n : Network) (o : RestructureOptions), n.WellFormed →
    n.Acyclic → o.maxPasses = none →
      ∃ report w, n.restructure o = .ok report w ∧ report.reachedFixpoint = true := by
  intro h
  obtain ⟨hn, hacyclic⟩ : disguised.Sound := Network.Sound.assemble wellFormed_empty _
  have hfails : (match disguised.restructure (.only .distributivity) with
    | .ok _ _ => false
    | .error fault _ => fault = .noOrder 14 [20, 21, 23, 25]) = true := by
    decide +kernel
  obtain ⟨report, w, hrun, -⟩ := h disguised (.only .distributivity) hn hacyclic rfl
  simp [hrun] at hfails

end AndInverter
