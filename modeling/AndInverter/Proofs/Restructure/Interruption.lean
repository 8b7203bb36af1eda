import AndInverter.Proofs.Restructure.Function
import AndInverter.Proofs.Restructure.Settled

/-!
A run of restructuring that is interrupted between two passes and taken up again.  Nothing but
the network crosses the end of a pass: the view is current there, so that a run which begins
afresh takes the same one, and no step looks at the log.

* `Restructuring.Blind`: a step that does not look at the log;
* `nextPass_leads`: a pass is one, and its number only gets into the log;
* `runPasses_leads`: passes can be counted from anywhere, and more may be allowed;
* `runPasses_split`: passes with a limit, and then without one;
* `restructure_interrupted`: two runs in the place of one.
-/

namespace AndInverter

open Network

/-! ### Tallies -/

namespace Tally

lemma zero_add (t : Tally) : {} + t = t := by
  change Tally.mk (0 + t.associativity) (0 + t.distributivity) (0 + t.threeLevel) = t
  rw [Nat.zero_add, Nat.zero_add, Nat.zero_add]

lemma add_zero (t : Tally) : t + {} = t := rfl

lemma add_assoc (s t u : Tally) : s + t + u = s + (t + u) := by
  change Tally.mk _ _ _ = Tally.mk _ _ _
  rw [Tally.mk.injEq]
  exact ⟨Nat.add_assoc _ _ _, Nat.add_assoc _ _ _, Nat.add_assoc _ _ _⟩

end Tally

namespace Restructuring

variable {α β : Type} {laws : List Law} {w w' : Workspace}

/-! ### Steps that do not look at the log -/

/-- **A step that does not look at the log**: where it ends well, it does so with any log. -/
def Blind (r : Restructuring α) : Prop := ∀ ⦃w a w'⦄, r w = .ok a w' →
  Leads r w.network w.depthView a w'.network w'.depthView

lemma Blind.bind {r : Restructuring α} {f : α → Restructuring β} (hr : Blind r)
    (hf : ∀ a, Blind (f a)) : Blind (r >>= f) := by
  intro w b w' h
  obtain ⟨a, w₁, h₁, h₂⟩ := bind_eq_ok.mp h
  exact (hr h₁).bind (hf a h₂)

lemma blind_pure (a : α) : Blind (pure a : Restructuring α) := by
  intro w b w' h
  obtain ⟨rfl, rfl⟩ := pure_eq_ok.mp h
  exact logsOnly_pure a

lemma blind_note (entry : LogEntry) : Blind (note entry) := by
  intro w a w' h
  obtain rfl := note_eq_ok.mp h
  exact logsOnly_note entry

lemma blind_look (f : Network → α) : Blind (look f) := by
  intro w a w' h
  obtain ⟨rfl, rfl⟩ := look_eq_ok.mp h
  exact logsOnly_look f

lemma blind_query (f : Network → DepthView → Except Fault α) : Blind (query f) := by
  intro w a w' h
  obtain ⟨hf, rfl⟩ := query_eq_ok.mp h
  exact logsOnly_query hf

lemma blind_edit (e : Edit α) : Blind (edit e) := by
  intro w a w' h log
  obtain ⟨m, hm, rfl⟩ := edit_eq_ok.mp h
  exact ⟨log, edit_eq_ok.mpr ⟨m, hm, rfl⟩⟩

lemma Blind.ite {c : Prop} {_ : Decidable c} {r r' : Restructuring α} (hr : Blind r)
    (hr' : Blind r') : Blind (if c then r else r') := by
  split
  · exact hr
  · exact hr'

lemma blind_refresh : Blind refresh := by
  refine (blind_query _).bind fun fresh => (blind_look _).bind fun nodes => ?_
  refine .bind ?_ fun _ => blind_note _
  rintro ⟨n, view, log⟩ a w' h log'
  cases h
  exact ⟨log', rfl⟩

lemma blind_commit (gate : Nat) (s : Signal) (first : Nat) : Blind (commit gate s first) := by
  have hsubstitute : Blind (substitute gate s) :=
    (blind_edit _).bind fun _ => blind_note _
  have hrest : ∀ progress : Bool, Blind (do
      edit (Edit.retireUnused first)
      return progress) := fun _ => (blind_edit _).bind fun _ => blind_pure _
  exact .ite (hsubstitute.bind fun _ => hrest _) (hrest _)

lemma blind_act (gate : Nat) (build : α → Edit Signal) (entry : α → Signal → LogEntry)
    (found : Search α) : Blind (act gate build entry found) := by
  cases found with
  | absent reason =>
      cases reason with
      | none => exact blind_pure _
      | some reason => exact (blind_note _).bind fun _ => blind_pure _
  | present o =>
      refine (blind_look _).bind fun _ => (blind_edit _).bind fun _ => ?_
      refine (blind_commit _ _ _).bind fun _ => ?_
      exact .ite ((blind_note _).bind fun _ => blind_pure _) (blind_pure _)

lemma blind_apply (law : Law) (gate : Nat) : Blind (apply law gate) := by
  cases law <;> exact (blind_query _).bind fun _ => blind_act _ _ _ _

lemma blind_applyAndRefresh (law : Law) (gate : Nat) : Blind (applyAndRefresh law gate) := by
  refine (blind_look _).bind fun _ => (blind_apply _ _).bind fun _ => ?_
  refine (blind_look _).bind fun _ => ?_
  exact .ite (blind_refresh.bind fun _ => blind_pure _) (blind_pure _)

lemma blind_applyFirst (gate : Nat) (laws : List Law) : Blind (applyFirst gate laws) := by
  induction laws with
  | nil => exact blind_pure _
  | cons law laws ih =>
      exact (blind_applyAndRefresh _ _).bind fun _ => .ite (blind_pure _) ih

lemma blind_offer (laws : List Law) (tally : Tally) (gates : List Nat) :
    Blind (offer laws tally gates) := by
  induction gates generalizing tally with
  | nil => exact blind_pure _
  | cons gate gates ih =>
      refine (blind_query _).bind fun slot => .ite (ih _) ?_
      refine (blind_applyFirst _ _).bind fun law => ?_
      cases law with
      | none => exact ih _
      | some law => exact ih _

/-- **A pass does not look at the log**, and its number only gets into the log. -/
lemma nextPass_leads {count : Nat} {tally : Tally} (h : nextPass laws count w = .ok tally w')
    (count' : Nat) :
    Leads (nextPass laws count') w.network w.depthView tally w'.network w'.depthView := by
  obtain ⟨tally', w₁, hpass, h⟩ := bind_eq_ok.mp h
  have hblind : Blind (runPass laws) := (blind_look _).bind fun _ => blind_offer _ _ _
  simp only [bind_eq_ok, query_eq_ok, look_eq_ok, note_eq_ok, pure_eq_ok] at h
  obtain ⟨depth, _, ⟨hdepth, rfl⟩, _, _, ⟨-, rfl⟩, _, _, rfl, rfl, rfl⟩ := h
  refine (hblind hpass).bind (LogsOnly.leads ?_)
  exact (logsOnly_query hdepth).bind ((logsOnly_look _).bind
    ((logsOnly_note _).bind (logsOnly_pure _)))

lemma blind_runPasses (laws : List Law) (limit : Option Nat) (bound : Nat) (done : Passes) :
    Blind (runPasses laws limit bound done) := by
  induction bound generalizing done with
  | zero => exact fun _ _ _ h => (throw_eq_ok.mp h).elim
  | succ bound ih =>
      refine .ite ((blind_note _).bind fun _ => blind_pure _) ?_
      have hpass : Blind (nextPass laws (done.count + 1)) := fun _ _ _ h => nextPass_leads h _
      exact hpass.bind fun _ => .ite (blind_pure _) (ih _)

/-! ### Passes, in one run or in two -/

/-- **Passes can be counted from anywhere**, and more of them may be allowed: those that ended
without a limit end in the same network, and have the same rewrites to count. -/
lemma runPasses_leads {bound bound' : Nat} {done passes : Passes} (hle : bound ≤ bound')
    (h : runPasses laws none bound done w = .ok passes w') (done' : Passes) :
    ∃ passes' tally, passes.tally = done.tally + tally ∧ passes'.tally = done'.tally + tally ∧
      Leads (runPasses laws none bound' done') w.network w.depthView passes' w'.network
        w'.depthView := by
  induction bound generalizing w done done' bound' with
  | zero => exact (throw_eq_ok.mp h).elim
  | succ bound ih =>
      obtain ⟨bound', rfl⟩ := Nat.exists_eq_add_of_le' (Nat.one_le_of_lt hle)
      have hle' : bound ≤ bound' := Nat.le_of_succ_le_succ hle
      rw [runPasses, if_neg (by simp)] at h
      obtain ⟨tally, w₁, hpass, h⟩ := bind_eq_ok.mp h
      have hpass' := nextPass_leads hpass (done'.count + 1)
      split_ifs at h with hzero
      · obtain ⟨rfl, rfl⟩ := pure_eq_ok.mp h
        refine ⟨{ done' with count := done'.count + 1, reachedFixpoint := true }, {}, rfl, rfl, ?_⟩
        rw [runPasses, if_neg (by simp)]
        refine hpass'.bind ?_
        rw [if_pos hzero]
        exact (logsOnly_pure _).leads
      · obtain ⟨passes', rest, hpasses, hpasses', hleads⟩ :=
          ih hle' h ⟨done'.count + 1, done'.tally + tally, false⟩
        refine ⟨passes', tally + rest, hpasses.trans (Tally.add_assoc _ _ _),
          hpasses'.trans (Tally.add_assoc _ _ _), ?_⟩
        rw [runPasses, if_neg (by simp)]
        refine hpass'.bind ?_
        rw [if_neg hzero]
        exact hleads

/-- **Passes can be interrupted**: those that ended without a limit end in the same network if
they stop at a limit first and then are begun again. -/
lemma runPasses_split {k bound bound₁ : Nat} {done passes : Passes} (hw : Current w)
    (h : runPasses laws none bound done w = .ok passes w') (hbound₁ : 0 < bound₁)
    (hk : k < bound₁ + done.count) :
    ∃ first w₁, runPasses laws (some k) bound₁ done w = .ok first w₁ ∧ Current w₁ ∧
      ∀ bound₂, bound ≤ bound₂ → ∃ rest,
        Leads (runPasses laws none bound₂ {}) w₁.network w₁.depthView rest w'.network
          w'.depthView ∧
        passes.tally = first.tally + rest.tally := by
  induction bound generalizing w done bound₁ with
  | zero => exact (throw_eq_ok.mp h).elim
  | succ bound ih =>
      obtain ⟨bound₁, rfl⟩ := Nat.exists_eq_add_of_le' hbound₁
      by_cases hlimit : k ≤ done.count
      · -- the first run stops here, and the second one does the rest
        refine ⟨done, { w with log := w.log.push (.passLimitReached done.count) }, ?_,
          ⟨hw.wellFormed, hw.view⟩, fun bound₂ hle => ?_⟩
        · rw [runPasses, if_pos (by simpa using hlimit)]
          exact bind_eq_ok.mpr ⟨(), _, note_eq_ok.mpr rfl, rfl⟩
        · obtain ⟨rest, tally, hpasses, hrest, hleads⟩ := runPasses_leads hle h {}
          rw [Tally.zero_add] at hrest
          exact ⟨rest, hleads, hrest ▸ hpasses⟩
      · rw [runPasses, if_neg (by simp)] at h
        obtain ⟨tally, w₁, hpass, h⟩ := bind_eq_ok.mp h
        obtain ⟨hw₁, hsettled⟩ := nextPass_current hw hpass
        split_ifs at h with hzero
        · -- the first run ends at the fixpoint, where a second one has nothing to do
          obtain ⟨rfl, rfl⟩ := pure_eq_ok.mp h
          obtain ⟨hnetwork, hview, hlaws⟩ := hsettled hzero
          rw [← hnetwork, ← hview] at hlaws
          refine ⟨{ done with count := done.count + 1, reachedFixpoint := true }, w₁, ?_, hw₁,
            fun bound₂ hle => ⟨⟨1, {}, true⟩, ?_, rfl⟩⟩
          · rw [runPasses, if_neg (by simpa using hlimit)]
            refine bind_eq_ok.mpr ⟨tally, w₁, hpass, ?_⟩
            rw [if_pos hzero]
            rfl
          · obtain ⟨bound₂, rfl⟩ := Nat.exists_eq_add_of_le' (Nat.one_le_of_lt hle)
            exact (hlaws.runPasses hw₁.ready.describes (Option.some_ne_none 0).symm bound₂).leads
        · have hpos : 0 < bound₁ := by omega
          have hk' : k < bound₁ + (done.count + 1) := by omega
          obtain ⟨first, w₂, hfirst, hw₂, hrest⟩ := ih hw₁ h hpos hk'
          refine ⟨first, w₂, ?_, hw₂, fun bound₂ hle => hrest bound₂ (by omega)⟩
          rw [runPasses, if_neg (by simpa using hlimit)]
          refine bind_eq_ok.mpr ⟨tally, w₁, hpass, ?_⟩
          rw [if_neg hzero]
          exact hfirst

/-- A larger network is given more passes. -/
lemma passBound_mono {n m : Network} (hsize : n.size ≤ m.size)
    (houtputs : n.outputs.size = m.outputs.size) : passBound n none ≤ passBound m none := by
  simp only [passBound, Nat.shiftLeft_eq, houtputs]
  exact Nat.mul_le_mul (by omega) (Nat.pow_le_pow_right (by omega) (by omega))

end Restructuring

/-! ### Runs -/

open Restructuring

variable {n : Network} {o : RestructureOptions} {report : RestructureReport} {w : Workspace}

/-- **A run that is interrupted** after any number of passes and begun again without a limit leaves
exactly the network that one run without a limit leaves: nothing but the network crosses the end
of a pass.  The counts of the two runs add up, law by law, and the second run begins with the
depth and the number of gates with which the first one ended. -/
theorem restructure_interrupted (hn : n.WellFormed)
    (h : n.restructure { o with maxPasses := none } = .ok report w) (k : Nat) :
    ∃ report₁ w₁ report₂ w₂,
      n.restructure { o with maxPasses := some k } = .ok report₁ w₁ ∧
      w₁.network.restructure { o with maxPasses := none } = .ok report₂ w₂ ∧
      w₂.network = w.network ∧
      (∀ law, report.tally.count law = report₁.tally.count law + report₂.tally.count law) ∧
      report₁.depthBefore = report.depthBefore ∧ report₁.gatesBefore = report.gatesBefore ∧
      report₁.depthAfter = report₂.depthBefore ∧ report₁.gatesAfter = report₂.gatesBefore ∧
      report₂.depthAfter = report.depthAfter ∧ report₂.gatesAfter = report.gatesAfter := by
  simp only [Network.restructure, restructure, bind_eq_ok, query_eq_ok, look_eq_ok, note_eq_ok,
    pure_eq_ok] at h
  obtain ⟨⟨depthBefore, gatesBefore⟩, w₀, hprepare, _, _, ⟨rfl, rfl⟩, passes, w', hpasses,
    depthAfter, _, ⟨hdepth, rfl⟩, gatesAfter, _, ⟨rfl, rfl⟩, _, w'', hcheck, _, _, ⟨-, rfl⟩, _, _,
    rfl, rfl, rfl⟩ := h
  obtain ⟨hw₀, rfl, hbefore⟩ := prepare_current hn hprepare
  cases hbefore
  obtain ⟨hw', -⟩ := settled_of_runPasses hw₀ hpasses rfl (reachedFixpoint_of_runPasses hpasses)
  obtain ⟨first, w₁, hfirst, hw₁, hrest⟩ := runPasses_split (k := k) hw₀ hpasses
    (Nat.succ_pos k) (Nat.lt_succ_self k)
  have hderivation := (runPasses_spec hw₀.ready hfirst).2.1
  obtain ⟨rest, hleads, htally⟩ := hrest (passBound w₁.network none)
    (passBound_mono hderivation.size_le hderivation.outputs_size.symm)
  obtain ⟨log₁, hrun₁⟩ := restructure_of_runPasses (o := { o with maxPasses := some k }) hw₀.view
    hw₁.wellFormed hw₁.view (blind_runPasses _ _ _ _ hfirst)
  obtain ⟨log₂, hrun₂⟩ := restructure_of_runPasses (o := { o with maxPasses := none }) hw₁.view
    hw'.wellFormed hw'.view hleads
  refine ⟨_, _, _, _, hrun₁, hrun₂, (checkAcyclic_network hcheck).symm, fun law => ?_, rfl, rfl,
    rfl, rfl, hw'.ready.describes.currentDepth_eq_ok.mp hdepth, rfl⟩
  rw [← Tally.count_add, ← htally]

/-- A gate that the associative law replaces in the first pass and the distributive law in the
second one, with a limit of one pass. -/
theorem restructure_interrupted_of_nested : ∃ (n : Network)
    (report report₁ report₂ : RestructureReport) (w w₁ w₂ : Workspace),
      n.WellFormed ∧ n.restructure {} = .ok report w ∧ report.tally = ⟨1, 1, 0⟩ ∧
        n.restructure { maxPasses := some 1 } = .ok report₁ w₁ ∧ report₁.tally = ⟨1, 0, 0⟩ ∧
        w₁.network.restructure {} = .ok report₂ w₂ ∧ w₂.network = w.network ∧
        report₁.depthAfter = report₂.depthBefore := by
  let n := Network.empty.assemble [.input, .input, .input, .gate 2 6, .gate 4 8, .gate 2 10,
    .output 12]
  obtain ⟨hn, -⟩ : n.Sound := Network.Sound.assemble wellFormed_empty _
  have hends : (match n.restructure {} with
    | .ok report _ => report.tally == ⟨1, 1, 0⟩
    | .error _ _ => false) = true := by decide +kernel
  have hfirst : (match n.restructure { maxPasses := some 1 } with
    | .ok report _ => report.tally == ⟨1, 0, 0⟩
    | .error _ _ => false) = true := by decide +kernel
  cases hrun : n.restructure {} with
  | error => simp [hrun] at hends
  | ok report w =>
      obtain ⟨report₁, w₁, report₂, w₂, hrun₁, hrun₂, hsame, -, -, -, hdepth, -⟩ :=
        restructure_interrupted (o := {}) hn hrun 1
      simp only [hrun, beq_iff_eq] at hends
      simp only [hrun₁, beq_iff_eq] at hfirst
      exact ⟨n, report, report₁, report₂, w, w₁, w₂, hn, hrun, hends, hrun₁, hfirst, hrun₂, hsame,
        hdepth⟩

end AndInverter
