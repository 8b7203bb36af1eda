import AndInverter.Proofs.Restructure.Fixpoint
import AndInverter.Proofs.Restructure.Refusal

/-!
Networks on which restructuring has nothing to do.  A run that reaches its fixpoint ends with a
pass that replaces nothing; since a law that refuses leaves the network alone, every gate of the
result was offered to every law in the network as it is in the end.

* `Restructuring.LogsOnly`: a step that does nothing but note something, and `Leads`: one that
  does the same whatever the log is;
* `Restructuring.Settled`: no law replaces any gate;
* `offer_current`, `settled_of_runPasses`: what a pass without a replacement, and passes that end
  with one, leave behind;
* `restructure_of_runPasses`: a run is its passes;
* `restructure_of_settled`: a run on a settled network is a single pass;
* `restructure_settles`: a run that reaches its fixpoint settles the network.
-/

namespace AndInverter

open Network

namespace Restructuring

variable {α β : Type} {n m l : Network} {view view' view'' : DepthView} {gate : Nat} {law : Law}
  {laws : List Law} {w w' : Workspace}

/-! ### Steps that only add to the log -/

/-- **A step that only adds to the log**, with this result. -/
def LogsOnly (n : Network) (view : DepthView) (r : Restructuring α) (a : α) : Prop :=
  ∀ log, ∃ log', r ⟨n, view, log⟩ = .ok a ⟨n, view, log'⟩

lemma logsOnly_pure (a : α) : LogsOnly n view (pure a) a := fun log => ⟨log, rfl⟩

lemma LogsOnly.bind {r : Restructuring α} {f : α → Restructuring β} {a : α} {b : β}
    (hr : LogsOnly n view r a) (hf : LogsOnly n view (f a) b) : LogsOnly n view (r >>= f) b := by
  intro log
  obtain ⟨log₁, h₁⟩ := hr log
  obtain ⟨log₂, h₂⟩ := hf log₁
  exact ⟨log₂, bind_eq_ok.mpr ⟨a, _, h₁, h₂⟩⟩

lemma logsOnly_note (entry : LogEntry) : LogsOnly n view (note entry) () :=
  fun log => ⟨log.push entry, rfl⟩

lemma logsOnly_look (f : Network → α) : LogsOnly n view (look f) (f n) := fun log => ⟨log, rfl⟩

lemma logsOnly_query {f : Network → DepthView → Except Fault α} {a : α} (h : f n view = .ok a) :
    LogsOnly n view (query f) a :=
  fun log => ⟨log, query_eq_ok.mpr ⟨h, rfl⟩⟩

lemma logsOnly_notes (entries : List LogEntry) : LogsOnly n view (entries.forM note) ⟨⟩ := by
  induction entries with
  | nil => exact logsOnly_pure _
  | cons entry entries ih => exact (logsOnly_note entry).bind ih

/-- **A step leads somewhere**, whatever the log is: to this result, network and view. -/
def Leads (r : Restructuring α) (n : Network) (view : DepthView) (a : α) (m : Network)
    (view' : DepthView) : Prop :=
  ∀ log, ∃ log', r ⟨n, view, log⟩ = .ok a ⟨m, view', log'⟩

lemma Leads.bind {r : Restructuring α} {f : α → Restructuring β} {a : α} {b : β}
    (hr : Leads r n view a m view') (hf : Leads (f a) m view' b l view'') :
    Leads (r >>= f) n view b l view'' := by
  intro log
  obtain ⟨log₁, h₁⟩ := hr log
  obtain ⟨log₂, h₂⟩ := hf log₁
  exact ⟨log₂, bind_eq_ok.mpr ⟨a, _, h₁, h₂⟩⟩

lemma LogsOnly.leads {r : Restructuring α} {a : α} (h : LogsOnly n view r a) :
    Leads r n view a n view := h

/-! ### Laws that refuse -/

/-- What was refused once is refused again, if it is never the gate that is built. -/
lemma logsOnly_act {build : α → Edit Signal} {entry : α → Signal → LogEntry} {found : Search α}
    (h : act gate build entry found w = .ok false w')
    (hne : ∀ o s m, found = .present o → build o w.network = .ok s m → s.node ≠ gate) :
    LogsOnly w.network w.depthView (act gate build entry found) false := by
  cases found with
  | absent reason =>
      cases reason with
      | none => exact logsOnly_pure _
      | some reason => exact (logsOnly_note reason).bind (logsOnly_pure _)
  | present o =>
      obtain ⟨s, m, hbuild, hcommits, -⟩ := replace_eq_ok h
      obtain ⟨hgate, -⟩ | ⟨-, hreplaced, -⟩ := hcommits
      · exact absurd hgate (hne o s m rfl hbuild)
      · cases hreplaced

/-- **A law that refused a gate refuses it again**, as long as network and view stay as they
are. -/
lemma logsOnly_apply (hw : Ready w) (h : apply law gate w = .ok false w') :
    LogsOnly w.network w.depthView (apply law gate) false := by
  have hne : ∀ s m, law.Builds w.network w.depthView gate s m → s.node ≠ gate :=
    fun s m hb => (hb.suggests hw.describes).ne_gate hw.wellFormed hw.acyclic
  cases law
  all_goals
    simp only [apply, bind_eq_ok, query_eq_ok] at h
    obtain ⟨found, _, ⟨hsearch, rfl⟩, h⟩ := h
    refine (logsOnly_query hsearch).bind (logsOnly_act h ?_)
    rintro o s m rfl hbuild
    exact hne s m ⟨o, hsearch, hbuild⟩

/-- The view need not be taken afresh when nothing changed. -/
lemma LogsOnly.applyAndRefresh (h : LogsOnly n view (apply law gate) false) :
    LogsOnly n view (applyAndRefresh law gate) false := by
  refine (logsOnly_look _).bind (h.bind ((logsOnly_look _).bind ?_))
  rw [if_neg (not_not.mpr rfl)]
  exact logsOnly_pure _

/-- **A settled network**: no law replaces any gate of it. -/
def Settled (laws : List Law) (n : Network) (view : DepthView) : Prop :=
  ∀ law ∈ laws, ∀ gate ∈ n.gates, LogsOnly n view (apply law gate) false

/-! ### Views that are taken of the network as it is -/

/-- **A workspace whose view is current**: it is the view that would be taken now. -/
structure Current (w : Workspace) : Prop where
  wellFormed : w.network.WellFormed
  view : DepthView.ofNetwork w.network = .ok w.depthView

lemma Current.ready (h : Current w) : Ready w := by
  obtain ⟨hdescribes, hacyclic⟩ := DepthView.describes_ofNetwork h.view
  exact ⟨h.wellFormed, hacyclic, hdescribes⟩

/-- **An attempt keeps the view current**, and one that replaces nothing leaves network and view
alone. -/
lemma attempt_current {replaced : Bool} (hw : Current w)
    (h : applyAndRefresh law gate w = .ok replaced w') :
    Current w' ∧ (replaced = false → w'.network = w.network ∧ w'.depthView = w.depthView ∧
      LogsOnly w.network w.depthView (apply law gate) false) := by
  have hw' := (attempt_spec hw.ready h).1.wellFormed
  simp only [applyAndRefresh, bind_eq_ok, look_eq_ok] at h
  obtain ⟨_, _, ⟨rfl, rfl⟩, replaced', w₁, happly, _, _, ⟨rfl, rfl⟩, h⟩ := h
  have hout := apply_spec hw.ready happly
  split_ifs at h with hsame
  · obtain ⟨_, w₂, hrefresh, hrest⟩ := bind_eq_ok.mp h
    obtain ⟨rfl, rfl⟩ := pure_eq_ok.mp hrest
    obtain ⟨hnetwork, hview⟩ := refresh_eq_ok hrefresh
    refine ⟨⟨hw', hnetwork ▸ hview⟩, ?_⟩
    rintro rfl
    exact absurd (congrArg _ (apply_eq_ok_false hw.ready happly).1) hsame
  · obtain ⟨rfl, rfl⟩ := pure_eq_ok.mp h
    have hgeneration := not_not.mp hsame
    refine ⟨⟨hw', ?_⟩, ?_⟩
    · rw [hout.depthView, ← hw.view]
      exact DepthView.ofNetwork_congr (hout.paces.same hgeneration) hgeneration
    · rintro rfl
      obtain ⟨hnetwork, hview⟩ := apply_eq_ok_false hw.ready happly
      exact ⟨hnetwork, hview, logsOnly_apply hw.ready happly⟩

lemma prepare_current {found : Nat × Nat} (hn : w.network.WellFormed)
    (h : prepare laws w = .ok found w') : Current w' ∧ w'.network = w.network ∧
      found = (w.network.depth, w.network.liveGates) := by
  simp only [prepare, bind_eq_ok, query_eq_ok, look_eq_ok, note_eq_ok, pure_eq_ok] at h
  obtain ⟨_, w₁, hrefresh, depth, _, ⟨hdepth, rfl⟩, gates, _, ⟨hgates, rfl⟩, _, _, rfl, rfl,
    rfl⟩ := h
  obtain ⟨hnetwork, hview⟩ := refresh_eq_ok hrefresh
  rw [← hnetwork] at hn hview ⊢
  have hw₁ : Current w₁ := ⟨hn, hview⟩
  refine ⟨⟨hn, hview⟩, rfl, ?_⟩
  rw [hw₁.ready.describes.currentDepth_eq_ok.mp hdepth, hgates]

/-! ### Passes that replace nothing -/

lemma applyFirst_current {law : Option Law} (hw : Current w)
    (h : applyFirst gate laws w = .ok law w') :
    Current w' ∧ (law = none → w'.network = w.network ∧ w'.depthView = w.depthView ∧
      ∀ law ∈ laws, LogsOnly w.network w.depthView (apply law gate) false) := by
  induction laws generalizing w with
  | nil =>
      obtain ⟨-, rfl⟩ := pure_eq_ok.mp h
      exact ⟨hw, fun _ => ⟨rfl, rfl, nofun⟩⟩
  | cons first laws ih =>
      obtain ⟨replaced, w₁, hattempt, h⟩ := bind_eq_ok.mp h
      obtain ⟨hw₁, hrefused⟩ := attempt_current hw hattempt
      cases replaced with
      | true =>
          obtain ⟨rfl, rfl⟩ := pure_eq_ok.mp h
          exact ⟨hw₁, nofun⟩
      | false =>
          obtain ⟨hnetwork, hview, hfirst⟩ := hrefused rfl
          obtain ⟨hw', hrest⟩ := ih hw₁ h
          refine ⟨hw', fun hnone => ?_⟩
          obtain ⟨hnetwork', hview', hlaws⟩ := hrest hnone
          rw [hnetwork, hview] at hlaws
          exact ⟨hnetwork'.trans hnetwork, hview'.trans hview,
            List.forall_mem_cons.mpr ⟨hfirst, hlaws⟩⟩

/-- **A pass over gates that counts nothing** found nothing to do. -/
lemma offer_current {gates : List Nat} {tally tally' : Tally} (hw : Current w)
    (h : offer laws tally gates w = .ok tally' w') :
    Current w' ∧ (tally'.total = tally.total → tally' = tally ∧ w'.network = w.network ∧
      w'.depthView = w.depthView ∧ ∀ law ∈ laws, ∀ gate ∈ gates, w.network.isLive gate = true →
        LogsOnly w.network w.depthView (apply law gate) false) := by
  induction gates generalizing w tally with
  | nil =>
      obtain ⟨rfl, rfl⟩ := pure_eq_ok.mp h
      exact ⟨hw, fun _ => ⟨rfl, rfl, rfl, fun _ _ _ hg => absurd hg List.not_mem_nil⟩⟩
  | cons gate gates ih =>
      simp only [offer, bind_eq_ok, query_eq_ok] at h
      obtain ⟨slot, _, ⟨hslot, rfl⟩, h⟩ := h
      have hlive := isLive_of_read hslot
      cases hdead : slot.dead with
      | true =>
          rw [hdead, if_pos rfl] at h
          obtain ⟨hw', hrest⟩ := ih hw h
          refine ⟨hw', fun htotal => ?_⟩
          obtain ⟨htally, hnetwork, hview, hlaws⟩ := hrest htotal
          refine ⟨htally, hnetwork, hview, fun law hlaw => ?_⟩
          refine List.forall_mem_cons.mpr ⟨?_, hlaws law hlaw⟩
          rw [hlive, hdead]
          exact fun hl => absurd hl Bool.false_ne_true
      | false =>
          rw [hdead, if_neg Bool.false_ne_true] at h
          obtain ⟨law, w₁, hfirst, h⟩ := bind_eq_ok.mp h
          obtain ⟨hw₁, hrefused⟩ := applyFirst_current hw hfirst
          cases law with
          | none =>
              obtain ⟨hnetwork₁, hview₁, hgate⟩ := hrefused rfl
              obtain ⟨hw', hrest⟩ := ih hw₁ h
              refine ⟨hw', fun htotal => ?_⟩
              obtain ⟨htally, hnetwork, hview, hlaws⟩ := hrest htotal
              rw [hnetwork₁, hview₁] at hlaws
              exact ⟨htally, hnetwork.trans hnetwork₁, hview.trans hview₁, fun law hlaw =>
                List.forall_mem_cons.mpr ⟨fun _ => hgate law hlaw, hlaws law hlaw⟩⟩
          | some law =>
              have htotal := (offer_spec hw₁.ready h).2.2
              refine ⟨(ih hw₁ h).1, fun hsame => ?_⟩
              rw [hsame, Tally.total_record] at htotal
              omega

lemma nextPass_current {count : Nat} {tally : Tally} (hw : Current w)
    (h : nextPass laws count w = .ok tally w') :
    Current w' ∧ (tally.total = 0 → w'.network = w.network ∧
      w'.depthView = w.depthView ∧ Settled laws w.network w.depthView) := by
  simp only [nextPass, runPass, bind_eq_ok, look_eq_ok, query_eq_ok, note_eq_ok,
    pure_eq_ok] at h
  obtain ⟨_, w₁, ⟨_, _, ⟨rfl, rfl⟩, hoffer⟩, depth, _, ⟨-, rfl⟩, _, _, ⟨rfl, rfl⟩, _, _, rfl, rfl,
    rfl⟩ := h
  obtain ⟨hw₁, hsettled⟩ := offer_current hw hoffer
  refine ⟨⟨hw₁.wellFormed, hw₁.view⟩, fun hzero => ?_⟩
  obtain ⟨-, hnetwork, hview, hlaws⟩ := hsettled hzero
  refine ⟨hnetwork, hview, fun law hlaw gate hgate => hlaws law hlaw gate hgate ?_⟩
  obtain ⟨a, b, hg⟩ := mem_gates.mp hgate
  exact hg.isLive

/-- **Passes that end at a fixpoint** leave a settled network behind, and there was room for a
pass. -/
lemma settled_of_runPasses {limit : Option Nat} {bound : Nat} {done passes : Passes}
    (hw : Current w) (h : runPasses laws limit bound done w = .ok passes w')
    (hdone : done.reachedFixpoint = false) (hfixpoint : passes.reachedFixpoint = true) :
    Current w' ∧ Settled laws w'.network w'.depthView ∧ limit ≠ some 0 := by
  induction bound generalizing w done with
  | zero => exact (throw_eq_ok.mp h).elim
  | succ bound ih =>
      rw [runPasses] at h
      split_ifs at h with hlimit
      · simp only [bind_eq_ok, note_eq_ok, pure_eq_ok] at h
        obtain ⟨_, _, rfl, rfl, rfl⟩ := h
        rw [hdone] at hfixpoint
        cases hfixpoint
      · obtain ⟨tally, w₁, hpass, h⟩ := bind_eq_ok.mp h
        obtain ⟨hw₁, hsettled⟩ := nextPass_current hw hpass
        split_ifs at h with hzero
        · obtain ⟨rfl, rfl⟩ := pure_eq_ok.mp h
          obtain ⟨hnetwork, hview, hlaws⟩ := hsettled hzero
          refine ⟨hw₁, hnetwork ▸ hview ▸ hlaws, ?_⟩
          rintro rfl
          exact hlimit (by simp)
        · exact ih hw₁ h rfl

/-! ### A run on a settled network -/

lemma Settled.applyFirst (hgate : ∀ law ∈ laws, LogsOnly n view (apply law gate) false) :
    LogsOnly n view (applyFirst gate laws) none := by
  induction laws with
  | nil => exact logsOnly_pure _
  | cons law laws ih =>
      obtain ⟨hfirst, hrest⟩ := List.forall_mem_cons.mp hgate
      exact hfirst.applyAndRefresh.bind (ih hrest)

lemma Settled.offer (h : Settled laws n view) (tally : Tally) {gates : List Nat}
    (hgates : ∀ gate ∈ gates, gate ∈ n.gates) : LogsOnly n view (offer laws tally gates) tally := by
  induction gates with
  | nil => exact logsOnly_pure _
  | cons gate gates ih =>
      obtain ⟨hgate, hrest⟩ := List.forall_mem_cons.mp hgates
      obtain ⟨a, b, hg⟩ := mem_gates.mp hgate
      obtain ⟨slot, hslot, hkind⟩ := Option.map_eq_some_iff.mp (gate_iff.mp hg)
      have hread : n.read gate = .ok slot := by rw [Network.read, hslot]
      refine (logsOnly_query hread).bind ?_
      rw [(Prod.mk.inj hkind).2, if_neg Bool.false_ne_true]
      have hnone : LogsOnly n view (Restructuring.applyFirst gate laws) none :=
        Settled.applyFirst fun law hlaw => h law hlaw gate hgate
      exact hnone.bind (ih hrest)

/-- The first pass over a settled network is the last one. -/
lemma Settled.runPasses {limit : Option Nat} (h : Settled laws n view)
    (hview : view.Describes n) (hlimit : limit ≠ some 0) (bound : Nat) :
    LogsOnly n view (runPasses laws limit (bound + 1) {}) ⟨1, {}, true⟩ := by
  have hroom : ¬ limit.any (· ≤ ({} : Passes).count) = true := by
    cases limit with
    | none => simp
    | some k => simpa [Nat.pos_iff_ne_zero] using hlimit
  have hpass : LogsOnly n view (nextPass laws 1) {} := by
    refine ((logsOnly_look _).bind (h.offer {} fun _ => id)).bind ?_
    refine (logsOnly_query (hview.currentDepth_eq_ok.mpr rfl)).bind ((logsOnly_look _).bind ?_)
    exact (logsOnly_note _).bind (logsOnly_pure _)
  rw [Restructuring.runPasses, if_neg hroom]
  refine hpass.bind ?_
  rw [if_pos (show ({} : Tally).total = 0 from rfl)]
  exact logsOnly_pure _

lemma logsOnly_checkAcyclic {context : String} (hn : n.WellFormed) (hacyclic : n.Acyclic) :
    LogsOnly n view (checkAcyclic context) () :=
  (logsOnly_look _).bind ((logsOnly_notes _).bind
    (logsOnly_query ((checkAcyclic_iff hn.fanIns_live).mpr hacyclic)))

/-- A run takes the view first, whatever view there was. -/
lemma exists_prepare {f : Nat × Nat → Restructuring α} {a : α}
    (hview : DepthView.ofNetwork n = .ok view)
    (hf : Leads (f (n.depth, n.liveGates)) n view a m view') : ∃ log,
      (prepare laws >>= f) { network := n } = .ok a ⟨m, view', log⟩ := by
  have hdescribes := (DepthView.describes_ofNetwork hview).1
  have hrest : LogsOnly n view (do
      let depth ← query fun n v => v.currentDepth n
      let gates ← look (·.liveGates)
      note (.started depth gates laws)
      return (depth, gates)) (n.depth, n.liveGates) := by
    refine (logsOnly_query (hdescribes.currentDepth_eq_ok.mpr rfl)).bind ?_
    exact (logsOnly_look _).bind ((logsOnly_note _).bind (logsOnly_pure _))
  obtain ⟨log₁, h₁⟩ := hrest #[.levelsUpdated n.liveNodes.length view.depth view.criticalCount]
  obtain ⟨log₂, h₂⟩ := hf log₁
  refine ⟨log₂, bind_eq_ok.mpr ⟨_, _, bind_eq_ok.mpr ⟨(), _, ?_, h₁⟩, h₂⟩⟩
  exact bind_eq_ok.mpr ⟨view, _, query_eq_ok.mpr ⟨hview, rfl⟩, rfl⟩

end Restructuring

open Restructuring

variable {n : Network} {o : RestructureOptions} {report : RestructureReport} {w : Workspace}
  {view : DepthView}

lemma RestructureOptions.mem_laws {law : Law} : law ∈ o.laws ↔ o.enables law = true := by
  rw [laws, List.mem_filter, and_iff_right]
  cases law <;> simp

/-- **A run is its passes**: where they end well, in a network that is well-formed and with a
current view, the checks that follow pass, and the report says what the passes did. -/
theorem restructure_of_runPasses {m : Network} {view' : DepthView} {passes : Passes}
    (hview : DepthView.ofNetwork n = .ok view) (hm : m.WellFormed)
    (hview' : DepthView.ofNetwork m = .ok view')
    (hpasses : Leads (runPasses o.laws o.maxPasses (passBound n o.maxPasses) {}) n view passes m
      view') :
    ∃ log, n.restructure o = .ok ⟨passes.count, passes.tally, n.depth, m.depth, n.liveGates,
      m.liveGates, passes.reachedFixpoint⟩ ⟨m, view', log⟩ := by
  obtain ⟨hdescribes, hacyclic⟩ := DepthView.describes_ofNetwork hview'
  refine exists_prepare hview ((logsOnly_look _).leads.bind (hpasses.bind (LogsOnly.leads ?_)))
  refine (logsOnly_query (hdescribes.currentDepth_eq_ok.mpr rfl)).bind ((logsOnly_look _).bind ?_)
  refine (logsOnly_checkAcyclic hm hacyclic).bind ?_
  refine (logsOnly_query (checkInvariants_eq_ok hm)).bind ?_
  exact (logsOnly_note _).bind (logsOnly_pure _)

/-- **A run on a settled network** is a single pass, and leaves the network as it is. -/
theorem restructure_of_settled (hn : n.WellFormed) (hview : DepthView.ofNetwork n = .ok view)
    (hsettled : Settled o.laws n view) (hlimit : o.maxPasses ≠ some 0) :
    ∃ report w, n.restructure o = .ok report w ∧ w.network = n ∧ report.passes = 1 ∧
      report.tally = {} ∧ report.reachedFixpoint = true := by
  obtain ⟨hdescribes, -⟩ := DepthView.describes_ofNetwork hview
  obtain ⟨bound, hbound⟩ : ∃ bound, passBound n o.maxPasses = bound + 1 := by
    refine Nat.exists_eq_succ_of_ne_zero ?_
    cases o.maxPasses with
    | none => simp [passBound, Nat.shiftLeft_eq]
    | some passes => exact Nat.succ_ne_zero passes
  have hpasses := hsettled.runPasses hdescribes hlimit bound
  rw [← hbound] at hpasses
  obtain ⟨log, hrun⟩ := restructure_of_runPasses hview hn hview hpasses.leads
  exact ⟨_, _, hrun, rfl, rfl, rfl, rfl⟩

lemma settled_of_restructure (hn : n.WellFormed) (h : n.restructure o = .ok report w)
    (hfixpoint : report.reachedFixpoint = true) : w.network.WellFormed ∧ o.maxPasses ≠ some 0 ∧
      ∃ view, DepthView.ofNetwork w.network = .ok view ∧ Settled o.laws w.network view := by
  simp only [Network.restructure, restructure, bind_eq_ok, query_eq_ok, look_eq_ok, note_eq_ok,
    pure_eq_ok] at h
  obtain ⟨found, w₁, hprepare, _, _, ⟨-, rfl⟩, passes, w₂, hpasses, _, _, ⟨-, rfl⟩, _, _,
    ⟨-, rfl⟩, _, w₃, hcheck, _, _, ⟨-, rfl⟩, _, _, rfl, rfl, rfl⟩ := h
  have hw₁ := (prepare_current hn hprepare).1
  obtain ⟨hw₂, hsettled, hlimit⟩ := settled_of_runPasses hw₁ hpasses rfl hfixpoint
  simp only [checkAcyclic_network hcheck]
  exact ⟨hw₂.wellFormed, hlimit, w₂.depthView, hw₂.view, hsettled⟩

/-- **A run that reaches its fixpoint settles the network**: no law that it may use replaces any
gate of the result, and a second run is a single pass that leaves the network exactly as it is. -/
theorem restructure_settles (hn : n.WellFormed) (h : n.restructure o = .ok report w)
    (hfixpoint : report.reachedFixpoint = true) :
    ∃ view, DepthView.ofNetwork w.network = .ok view ∧
      (∀ law, o.enables law = true → ∀ gate ∈ w.network.gates, ∀ log, ∃ log',
        apply law gate ⟨w.network, view, log⟩ = .ok false ⟨w.network, view, log'⟩) ∧
      ∃ report' w', w.network.restructure o = .ok report' w' ∧ w'.network = w.network ∧
        report'.passes = 1 ∧ report'.tally = {} ∧ report'.reachedFixpoint = true := by
  obtain ⟨hm, hlimit, view, hview, hsettled⟩ := settled_of_restructure hn h hfixpoint
  refine ⟨view, hview, ?_, restructure_of_settled hm hview hsettled hlimit⟩
  intro law hlaw gate hgate log
  exact hsettled law (RestructureOptions.mem_laws.mpr hlaw) gate hgate log

/-- After a common operand is taken out of two gates, there is nothing more to do. -/
theorem restructure_settles_of_common : ∃ (n : Network) (report report' : RestructureReport)
    (w w' : Workspace), n.WellFormed ∧ n.restructure {} = .ok report w ∧ report.passes = 2 ∧
      report.reachedFixpoint = true ∧ w.network.restructure {} = .ok report' w' ∧
        w'.network = w.network ∧ report'.passes = 1 := by
  let n := Network.empty.assemble [.input, .input, .input, .gate 2 4, .gate 2 6, .gate 8 10,
    .output 12]
  obtain ⟨hn, -⟩ : n.Sound := Network.Sound.assemble wellFormed_empty _
  have hends : (match n.restructure {} with
    | .ok report _ => report.passes == 2 && report.reachedFixpoint
    | .error _ _ => false) = true := by decide +kernel
  cases hrun : n.restructure {} with
  | error => simp [hrun] at hends
  | ok report w =>
      simp only [hrun, Bool.and_eq_true, beq_iff_eq] at hends
      obtain ⟨hpasses, hfixpoint⟩ := hends
      obtain ⟨-, -, -, report', w', hagain, hsame, hone, -⟩ :=
        restructure_settles hn hrun hfixpoint
      exact ⟨n, report, report', w, w', hn, hrun, hpasses, hfixpoint, hagain, hsame, hone⟩

end AndInverter
