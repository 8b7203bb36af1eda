import AndInverter.Restructure.Engine
import AndInverter.Proofs.Network.Generation
import AndInverter.Proofs.Network.Substitution
import AndInverter.Proofs.Restructure.Laws

/-!
An attempt to replace one gate by one law.

* `Network.Rewrites`: what an attempt does that replaces the gate;
* `Network.Idles`: what an attempt does that does not;
* `Law.Suggests.ensures`: a suggestion is built in elementary changes;
* `Restructuring.Ready`: a workspace in which attempts may be made;
* `apply_eq_ok`: a law that is applied puts in place what it suggests, or does nothing;
* `attempt_spec`: an attempt does one or the other and leaves the workspace ready.
-/

namespace AndInverter

open Network

/-! ### Steps of restructuring that end well -/

namespace Restructuring

variable {α : Type} {w w' : Workspace}

lemma note_eq_ok {entry : LogEntry} {u : Unit} :
    note entry w = .ok u w' ↔ { w with log := w.log.push entry } = w' := by
  simp [note]

lemma query_eq_ok {f : Network → DepthView → Except Fault α} {a : α} :
    query f w = .ok a w' ↔ f w.network w.depthView = .ok a ∧ w = w' := by
  simp only [query]
  cases h : f w.network w.depthView <;> simp

lemma look_eq_ok {f : Network → α} {a : α} :
    look f w = .ok a w' ↔ f w.network = a ∧ w = w' := by
  simp [look]

lemma edit_eq_ok {e : Edit α} {a : α} :
    edit e w = .ok a w' ↔ ∃ m, e w.network = .ok a m ∧ { w with network := m } = w' := by
  obtain ⟨n, view, log⟩ := w
  simp only [edit]
  cases h : e n with
  | ok b m =>
      simp only [EStateM.Result.ok.injEq]
      constructor
      · rintro ⟨rfl, rfl⟩
        exact ⟨m, ⟨rfl, rfl⟩, rfl⟩
      · rintro ⟨_, ⟨rfl, rfl⟩, rfl⟩
        exact ⟨rfl, rfl⟩
  | error fault m => simp

/-- Taking the view afresh leaves the network alone. -/
lemma refresh_eq_ok {u : Unit} (h : refresh w = .ok u w') :
    w'.network = w.network ∧ DepthView.ofNetwork w.network = .ok w'.depthView := by
  simp only [refresh, bind_eq_ok, query_eq_ok, look_eq_ok] at h
  obtain ⟨fresh, _, ⟨hfresh, rfl⟩, _, _, ⟨-, rfl⟩, h⟩ := h
  obtain ⟨_, w₁, hw₁, hnote⟩ := bind_eq_ok.mp h
  cases hw₁
  obtain rfl := note_eq_ok.mp hnote
  exact ⟨rfl, hfresh⟩

end Restructuring

variable {n m l : Network} {gate k : Nat} {s : Signal}

/-! ### What an attempt does to the network -/

namespace Network

/-- **A gate is replaced**: a replacement is built and put in its place, and what was built
for nothing is retired. -/
def Rewrites (n : Network) (gate : Nat) (m : Network) : Prop :=
  ∃ n₁ s k n₂, n.Proposes n₁ gate s ∧ s.node ≠ gate ∧
    Edit.substitute gate s n₁ = .ok k n₂ ∧ n₂.Retires m

/-- **No gate is replaced**: at most, something is built and unused gates are retired. -/
def Idles (n m : Network) : Prop := ∃ n₁, n.Extends n₁ ∧ n₁.WellFormed ∧ n₁.Retires m

lemma Idles.refl (hn : n.WellFormed) : n.Idles n := ⟨n, .refl n, hn, .refl n⟩

lemma Idles.outputs (h : n.Idles m) : m.outputs = n.outputs := by
  obtain ⟨n₁, hext, -, hret⟩ := h
  rw [hret.outputs, hext.outputs]

lemma Idles.inputs (h : n.Idles m) : m.inputs = n.inputs := by
  obtain ⟨n₁, hext, -, hret⟩ := h
  rw [hret.inputs, hext.inputs]

lemma Idles.acyclic (h : n.Idles m) (hn : n.WellFormed) (hacyclic : n.Acyclic) : m.Acyclic := by
  obtain ⟨n₁, hext, -, hret⟩ := h
  exact hret.acyclic (hext.acyclic hacyclic hn.fanIns_live)

/-- Where no gate is replaced, the nodes that were there and stay keep their values. -/
lemma Idles.interpret_of_live {M : Type} {A : Connectives M} {α : Nat → M} {v : Nat}
    (h : n.Idles m) (hn : n.WellFormed) (hacyclic : n.Acyclic) (hm : m.WellFormed)
    (hv : n.isLive v = true) (hv' : m.isLive v = true) :
    m.interpret A α v = n.interpret A α v := by
  have hmacyclic := h.acyclic hn hacyclic
  obtain ⟨n₁, hext, h₁, hret⟩ := h
  have hacyclic₁ := hext.acyclic hacyclic hn.fanIns_live
  have hmodels : A.Models α (n₁.interpret A α) m :=
    (models_interpret h₁ hacyclic₁).mono hret.inputs fun _ _ _ hg => hret.gate hg
  rw [← eq_interpret_of_models hmodels hm hmacyclic hv']
  exact hext.interpret hn hacyclic h₁ hv

/-- Where no gate is replaced, the nodes behind the outputs keep their values. -/
lemma Idles.interpret {M : Type} {A : Connectives M} {α : Nat → M} (h : n.Idles m)
    (hn : n.WellFormed) (hacyclic : n.Acyclic) (hm : m.WellFormed) (hs : s ∈ n.outputs) :
    m.interpret A α s.node = n.interpret A α s.node :=
  h.interpret_of_live hn hacyclic hm (hn.outputs_live s hs)
    (hm.outputs_live s (h.outputs.symm ▸ hs))

end Network

/-- **Unused gates are retired**, and no gate from the first position on is left unused. -/
lemma retireUnused_spec {first : Nat} {u : Unit} (hn : n.WellFormed)
    (hrun : Edit.retireUnused first n = .ok u m) :
    m.WellFormed ∧ n.Retires m ∧ ∀ v, m.Dangling v → n.Dangling v ∧ v < first := by
  have hloop : ∀ (nodes : List Nat) (n : Network), n.WellFormed →
      (nodes.forM fun node => do
        if ← Edit.view fun n => n.isLiveGate node && n.fanout node == 0 then
          Edit.retire node) n = .ok u m →
      m.WellFormed ∧ n.Retires m ∧ ∀ v, m.Dangling v → n.Dangling v ∧ v ∉ nodes := by
    intro nodes
    induction nodes with
    | nil =>
        intro n hn hrun
        obtain ⟨-, rfl⟩ := pure_eq_ok.mp hrun
        exact ⟨hn, .refl n, fun v hv => ⟨hv, List.not_mem_nil⟩⟩
    | cons node nodes ih =>
        intro n hn hrun
        obtain ⟨n₁, hone, hrest⟩ := forM_cons_eq_ok.mp hrun
        simp only [bind_eq_ok, Edit.view_eq_ok] at hone
        obtain ⟨_, _, ⟨rfl, rfl⟩, hone⟩ := hone
        have hstep : n₁.WellFormed ∧ n.Retires n₁ ∧
            ∀ v, n₁.Dangling v → n.Dangling v ∧ v ≠ node := by
          split_ifs at hone with hunused
          · simp only [Bool.and_eq_true, beq_iff_eq] at hunused
            exact retire_spec hn (fun _ => hunused.2) hone
          · obtain ⟨-, rfl⟩ := pure_eq_ok.mp hone
            refine ⟨hn, .refl n, fun v hv => ⟨hv, ?_⟩⟩
            rintro rfl
            exact hunused (by simpa [Dangling] using hv)
        obtain ⟨h₁, hret₁, hdangling₁⟩ := hstep
        obtain ⟨hm, hret, hdangling⟩ := ih n₁ h₁ hrest
        refine ⟨hm, hret₁.trans hret, ?_⟩
        intro v hv
        obtain ⟨hv₁, hnodes⟩ := hdangling v hv
        obtain ⟨hv, hne⟩ := hdangling₁ v hv₁
        exact ⟨hv, List.not_mem_cons_of_ne_of_not_mem hne hnodes⟩
  simp only [Edit.retireUnused, bind_eq_ok, Edit.view_eq_ok] at hrun
  obtain ⟨_, _, ⟨rfl, rfl⟩, hrun⟩ := hrun
  obtain ⟨hm, hret, hdangling⟩ := hloop _ n hn hrun
  refine ⟨hm, hret, ?_⟩
  intro v hv
  obtain ⟨hv, hnot⟩ := hdangling v hv
  refine ⟨hv, ?_⟩
  obtain ⟨a, b, hg⟩ := isLiveGate_iff.mp hv.1
  have hlt := hg.lt_size
  by_contra hle
  exact hnot (List.mem_reverse.mpr (List.mem_range'_1.mpr ⟨by omega, by omega⟩))

/-! ### What an attempt does, step by step -/

section Suggestions

variable {R : Network → Network → Prop} (h : Edit.Steady R)

include h

lemma Associativity.ensures_build (o : Opportunity) : Edit.Ensures R (build o) :=
  h.bind (h.addAnd _ _) fun _ => h.addAnd _ _

lemma Distributivity.ensures_build (o : Opportunity) : Edit.Ensures R (build o) := by
  refine .ite ?_ ?_
  · exact h.bind (h.addNand _ _) fun _ => h.bind (h.addAnd _ _) fun _ => h.pure _
  · exact h.bind (h.addAnd _ _) fun _ => h.addAnd _ _

lemma ThreeLevel.ensures_build (o : Opportunity) : Edit.Ensures R (build o) :=
  h.bind (h.addAnd _ _) fun _ => h.bind (h.addAnd _ _) fun _ =>
    h.bind (h.addAnd _ _) fun _ => h.addNand _ _

/-- To build what a law suggests goes by elementary changes. -/
lemma Law.Suggests.ensures {law : Law} (hsuggests : law.Suggests n gate s m) : R n m := by
  cases law <;> obtain ⟨o, -, hbuild⟩ := hsuggests
  · exact Associativity.ensures_build h o _ _ _ hbuild
  · exact Distributivity.ensures_build h o _ _ _ hbuild
  · exact ThreeLevel.ensures_build h o _ _ _ hbuild

end Suggestions

namespace Restructuring

variable {w w' : Workspace} {law : Law} {first : Nat} {replaced : Bool}

/-- **A workspace in which attempts may be made**: the network is well-formed and acyclic, and
the view describes it. -/
structure Ready (w : Workspace) : Prop where
  wellFormed : w.network.WellFormed
  acyclic : w.network.Acyclic
  describes : w.depthView.Describes w.network

/-- A replacement that was built is put in place, unless it is the gate itself; then what is
unused is retired, from the first position on. -/
def Commits (first gate : Nat) (s : Signal) (n : Network) (replaced : Bool) (m : Network) :
    Prop :=
  (s.node = gate ∧ replaced = false ∧ Edit.retireUnused first n = .ok () m) ∨
    (s.node ≠ gate ∧ replaced = true ∧ ∃ k l, Edit.substitute gate s n = .ok k l ∧
      Edit.retireUnused first l = .ok () m)

lemma substitute_eq_ok {target : Signal} {u : Unit} (h : substitute gate target w = .ok u w') :
    ∃ k, Edit.substitute gate target w.network = .ok k w'.network ∧
      w'.depthView = w.depthView := by
  simp only [substitute, bind_eq_ok, edit_eq_ok, note_eq_ok] at h
  obtain ⟨k, _, ⟨m, hm, rfl⟩, rfl⟩ := h
  exact ⟨k, hm, rfl⟩

lemma commit_eq_ok (h : commit gate s first w = .ok replaced w') :
    Commits first gate s w.network replaced w'.network ∧ w'.depthView = w.depthView := by
  by_cases hgate : s.node = gate
  · have hstay : (s.node != gate) = false := by simp [hgate]
    simp only [commit, hstay, if_neg Bool.false_ne_true, bind_eq_ok, pure_eq_ok, edit_eq_ok] at h
    obtain ⟨_, _, ⟨m, hretire, rfl⟩, rfl, rfl⟩ := h
    exact ⟨.inl ⟨hgate, rfl, hretire⟩, rfl⟩
  · have hmove : (s.node != gate) = true := by simp [hgate]
    simp only [commit, hmove, if_true, bind_eq_ok, pure_eq_ok, edit_eq_ok] at h
    obtain ⟨_, w₁, hsubstitute, _, _, ⟨m, hretire, rfl⟩, rfl, rfl⟩ := h
    obtain ⟨k, hk, hview⟩ := substitute_eq_ok hsubstitute
    exact ⟨.inr ⟨hgate, rfl, k, _, hk, hretire⟩, hview⟩

lemma replace_eq_ok {build : Edit Signal} {entry : Signal → LogEntry}
    (h : replace gate build entry w = .ok replaced w') : ∃ s n, build w.network = .ok s n ∧
      Commits w.network.size gate s n replaced w'.network ∧ w'.depthView = w.depthView := by
  simp only [replace, bind_eq_ok, look_eq_ok, edit_eq_ok] at h
  obtain ⟨_, _, ⟨rfl, rfl⟩, s, _, ⟨n, hs, rfl⟩, progress, w₂, hcommit, hrest⟩ := h
  obtain ⟨hcommits, hview⟩ := commit_eq_ok hcommit
  cases progress with
  | true =>
      simp only [if_true, bind_eq_ok, note_eq_ok, pure_eq_ok] at hrest
      obtain ⟨_, _, rfl, rfl, rfl⟩ := hrest
      exact ⟨s, n, hs, hcommits, hview⟩
  | false =>
      simp only [if_neg Bool.false_ne_true, pure_eq_ok] at hrest
      obtain ⟨rfl, rfl⟩ := hrest
      exact ⟨s, n, hs, hcommits, hview⟩

/-- What was found is built and put in place, and what was not found changes nothing. -/
lemma act_eq_ok {α : Type} {build : α → Edit Signal} {entry : α → Signal → LogEntry}
    {found : Search α} (h : act gate build entry found w = .ok replaced w') :
    (replaced = false ∧ w'.network = w.network ∧ w'.depthView = w.depthView) ∨
      ∃ o s n, found = .present o ∧ build o w.network = .ok s n ∧
        Commits w.network.size gate s n replaced w'.network ∧ w'.depthView = w.depthView := by
  cases found with
  | absent reason =>
      left
      cases reason with
      | none =>
          obtain ⟨rfl, rfl⟩ := pure_eq_ok.mp h
          exact ⟨rfl, rfl, rfl⟩
      | some reason =>
          simp only [act, bind_eq_ok, note_eq_ok, pure_eq_ok] at h
          obtain ⟨_, _, rfl, rfl, rfl⟩ := h
          exact ⟨rfl, rfl, rfl⟩
  | present o =>
      obtain ⟨s, n, hbuild, hcommits⟩ := replace_eq_ok h
      exact .inr ⟨o, s, n, rfl, hbuild, hcommits⟩

/-- **What one law does at one gate**: nothing, or it puts in place what it suggests. -/
theorem apply_eq_ok (hw : Ready w) (h : apply law gate w = .ok replaced w') :
    (replaced = false ∧ w'.network = w.network ∧ w'.depthView = w.depthView) ∨
      ∃ s n, law.Suggests w.network gate s n ∧
        Commits w.network.size gate s n replaced w'.network ∧ w'.depthView = w.depthView := by
  cases law <;> simp only [apply, bind_eq_ok, query_eq_ok] at h <;>
    obtain ⟨found, _, ⟨hsearch, rfl⟩, h⟩ := h <;>
      refine (act_eq_ok h).imp_right ?_ <;>
        rintro ⟨o, s, n, rfl, hbuild, hcommits⟩
  · exact ⟨s, n, ⟨o, Associativity.search_spec hw.describes hsearch, hbuild⟩, hcommits⟩
  · exact ⟨s, n, ⟨o, Distributivity.search_spec hsearch, hbuild⟩, hcommits⟩
  · exact ⟨s, n, ⟨o, ThreeLevel.search_spec hw.describes hsearch, hbuild⟩, hcommits⟩

/-! ### The outcome of an attempt -/

/-- The outcome of an attempt, before the view is taken afresh. -/
structure Outcome (w : Workspace) (gate : Nat) (replaced : Bool) (w' : Workspace) : Prop where
  wellFormed : w'.network.WellFormed
  paces : w.network.Paces w'.network
  depthView : w'.depthView = w.depthView
  rewrites : replaced = true → w.network.Rewrites gate w'.network
  idles : replaced = false → w.network.Idles w'.network

/-- **One law at one gate.** -/
theorem apply_spec (hw : Ready w) (h : apply law gate w = .ok replaced w') :
    Outcome w gate replaced w' := by
  have hn := hw.wellFormed
  obtain ⟨rfl, hnetwork, hview⟩ | ⟨s, n, hsuggests, hcommits, hview⟩ := apply_eq_ok hw h
  · rw [← hnetwork] at hn
    exact ⟨hn, hnetwork ▸ .refl _, hview, nofun, fun _ => hnetwork ▸ .refl hn⟩
  · have hproposes := hsuggests.proposes hn hw.acyclic
    obtain ⟨-, rfl, hretire⟩ | ⟨hne, rfl, k, l, hsubstitute, hretire⟩ := hcommits
    · obtain ⟨hm, hret, -⟩ := retireUnused_spec hproposes.wellFormed hretire
      have hpace := Edit.keepsPace_retireUnused _ _ _ _ hretire
      exact ⟨hm, (hsuggests.ensures Edit.steady_paces).trans hpace, hview, nofun,
        fun _ => ⟨n, hproposes.grows, hproposes.wellFormed, hret⟩⟩
    · have hl := (substitute_wellFormed hproposes.wellFormed hsubstitute).1
      obtain ⟨hm, hret, -⟩ := retireUnused_spec hl hretire
      have hpace := (Edit.keepsPace_substitute _ _ _ _ _ hsubstitute).trans
        (Edit.keepsPace_retireUnused _ _ _ _ hretire)
      exact ⟨hm, (hsuggests.ensures Edit.steady_paces).trans hpace, hview,
        fun _ => ⟨n, s, k, l, hproposes, hne, hsubstitute, hret⟩, nofun⟩

/-- **An attempt leaves the workspace ready**, for the view is taken afresh as soon as the
network changed. -/
theorem attempt_spec (hw : Ready w) (h : applyAndRefresh law gate w = .ok replaced w') :
    Ready w' ∧ (replaced = true → w.network.Rewrites gate w'.network) ∧
      (replaced = false → w.network.Idles w'.network) := by
  simp only [applyAndRefresh, bind_eq_ok, look_eq_ok] at h
  obtain ⟨_, _, ⟨rfl, rfl⟩, replaced', w₁, happly, _, _, ⟨rfl, rfl⟩, h⟩ := h
  have hout := apply_spec hw happly
  split_ifs at h with hsame
  · obtain ⟨_, w₂, hrefresh, hrest⟩ := bind_eq_ok.mp h
    obtain ⟨rfl, rfl⟩ := pure_eq_ok.mp hrest
    obtain ⟨hnetwork, hview⟩ := refresh_eq_ok hrefresh
    obtain ⟨hdescribes, hacyclic⟩ := DepthView.describes_ofNetwork hview
    rw [← hnetwork] at hdescribes hacyclic
    exact ⟨⟨hnetwork ▸ hout.wellFormed, hacyclic, hdescribes⟩, hnetwork ▸ hout.rewrites,
      hnetwork ▸ hout.idles⟩
  · obtain ⟨rfl, rfl⟩ := pure_eq_ok.mp h
    have hgeneration := not_not.mp hsame
    have hgraph := hout.paces.same hgeneration
    exact ⟨⟨hout.wellFormed, hw.acyclic.mono fun _ _ hread => hgraph.reads.mp hread,
      hout.depthView ▸ hw.describes.congr hgraph hgeneration⟩, hout.rewrites, hout.idles⟩

end Restructuring

end AndInverter
