import AndInverter.Proofs.Network.Invariant
import AndInverter.Proofs.Restructure.Refusal
import AndInverter.Proofs.Restructure.Weight

/-!
What can go wrong in an attempt.  The searches look at nodes that are there and at a view that is
fresh, so they never fail, and the laws join live signals, so they only fail when a counter is
full.  What is left is the substitution of the gate by what was built for it, which may give up
or make the network cyclic.

* `Law.Stops`: the substitution that a law asks for fails, and `apply_stops`: a law at a gate
  fails on nothing else, but for a full counter;
* `Network.Founders`: the faults that a substitution may lead to;
* `attempt_eq_error`: there are no others in an attempt, but for a full counter.
-/

namespace AndInverter

open Network Relation Serving

variable {n m : Network} {gate v : Nat} {view : DepthView} {a b f g s : Signal} {fault : Fault}

/-! ### Looking for an opportunity -/

section Succeeds

variable {α β : Type}

/-- **A computation without a fault.** -/
def Succeeds (x : Except Fault α) : Prop := ∃ a, x = .ok a

lemma succeeds_pure (a : α) : Succeeds (pure a) := ⟨a, rfl⟩

lemma Succeeds.bind {x : Except Fault α} {next : α → Except Fault β} (hx : Succeeds x)
    (hnext : ∀ a, x = .ok a → Succeeds (next a)) : Succeeds (x >>= next) := by
  obtain ⟨a, rfl⟩ := hx
  exact hnext a rfl

lemma Succeeds.ite {c : Prop} [Decidable c] {x y : Except Fault α} (hx : Succeeds x)
    (hy : ¬ c → Succeeds y) : Succeeds (if c then x else y) := by
  split_ifs with hc
  · exact hx
  · exact hy hc

lemma Succeeds.ne_error {x : Except Fault α} (hx : Succeeds x) : x ≠ .error fault := by
  obtain ⟨a, rfl⟩ := hx
  simp

end Succeeds

lemma Network.succeeds_liveFanIns? (hv : v < n.size) : Succeeds (n.liveFanIns? v) := by
  have hslot : n.slot? v = some n.nodes[v] := Array.getElem?_eq_getElem hv
  refine Succeeds.bind ⟨n.nodes[v], by rw [Network.read, hslot]⟩ ?_
  intro slot _
  exact succeeds_pure _

/-- Fan-ins that were looked up are there. -/
lemma Network.WellFormed.fanIns_lt (hn : n.WellFormed) (h : n.liveFanIns? v = .ok (some (a, b))) :
    a.node < n.size ∧ b.node < n.size := by
  obtain ⟨ha, hb⟩ := hn.fanIns_live v a b (liveFanIns?_eq_ok h)
  exact ⟨lt_size_of_isLive ha, lt_size_of_isLive hb⟩

lemma DepthView.Describes.succeeds_levelOf (h : view.Describes n) (hv : v < n.size) :
    Succeeds (view.levelOf n v) := ⟨_, h.levelOf_eq_ok.mpr ⟨hv, rfl⟩⟩

lemma DepthView.Describes.succeeds_criticalAt (h : view.Describes n) (hv : v < n.size) :
    Succeeds (view.criticalAt n v) := h.exists_criticalAt hv

section Searches

variable (hn : n.WellFormed) (hview : view.Describes n) (hgate : gate < n.size)

include hn hview hgate

lemma Associativity.succeeds_search : Succeeds (search gate n view) := by
  refine (succeeds_liveFanIns? hgate).bind ?_
  rintro (_ | ⟨f₀, f₁⟩) hf
  · exact succeeds_pure _
  obtain ⟨h₀, h₁⟩ := hn.fanIns_lt hf
  refine (hview.succeeds_criticalAt hgate).bind fun critical _ => ?_
  refine .ite (succeeds_pure _) fun _ => .ite (succeeds_pure _) fun _ => ?_
  refine (hview.succeeds_levelOf h₀).bind fun level₀ _ => ?_
  refine (hview.succeeds_levelOf h₁).bind fun level₁ _ => ?_
  rcases hskewed : skewed f₀ f₁ level₀ level₁ with _ | ⟨p, q⟩
  · exact succeeds_pure _
  have hends : p.node < n.size ∧ q.node < n.size := by
    rcases (skewed_eq_some hskewed).1 with ⟨rfl, rfl⟩ | ⟨rfl, rfl⟩
    · exact ⟨h₀, h₁⟩
    · exact ⟨h₁, h₀⟩
  refine (succeeds_liveFanIns? hends.2).bind ?_
  rintro (_ | ⟨g₀, g₁⟩) hg
  · exact succeeds_pure _
  obtain ⟨h₂, h₃⟩ := hn.fanIns_lt hg
  refine (hview.succeeds_criticalAt h₂).bind fun critical₀ _ => ?_
  refine (hview.succeeds_criticalAt h₃).bind fun critical₁ _ => ?_
  rcases hsingle : singleCritical g₀ g₁ critical₀ critical₁ with _ | ⟨a, b⟩
  · exact succeeds_pure _
  have hends' : a.node < n.size ∧ b.node < n.size := by
    rcases singleCritical_eq_some hsingle with ⟨rfl, rfl⟩ | ⟨rfl, rfl⟩
    · exact ⟨h₂, h₃⟩
    · exact ⟨h₃, h₂⟩
  refine (hview.succeeds_levelOf hgate).bind fun level _ => ?_
  refine (hview.succeeds_levelOf hends.1).bind fun levelP _ => ?_
  refine (hview.succeeds_levelOf hends'.2).bind fun levelB _ => ?_
  refine (hview.succeeds_levelOf hends'.1).bind fun levelA _ => ?_
  exact .ite (succeeds_pure _) fun _ => succeeds_pure _

lemma Distributivity.succeeds_search : Succeeds (search gate n view) := by
  refine (succeeds_liveFanIns? hgate).bind ?_
  rintro (_ | ⟨x, y⟩) hf
  · exact succeeds_pure _
  obtain ⟨hx, hy⟩ := hn.fanIns_lt hf
  refine .ite (succeeds_pure _) fun _ => ?_
  refine (succeeds_liveFanIns? hx).bind ?_
  rintro (_ | xs) -
  · exact succeeds_pure _
  refine (succeeds_liveFanIns? hy).bind ?_
  rintro (_ | ys) -
  · exact succeeds_pure _
  refine .ite (succeeds_pure _) fun _ => ?_
  rcases common xs ys with _ | ⟨shared, a, b⟩
  · exact succeeds_pure _
  exact (hview.succeeds_levelOf hgate).bind fun level _ => succeeds_pure _

omit hn hgate in
lemma ThreeLevel.succeeds_deeperFirst (ha : a.node < n.size) (hb : b.node < n.size) :
    Succeeds (deeperFirst n view a b) := by
  refine (hview.succeeds_levelOf ha).bind fun level₀ _ => ?_
  refine (hview.succeeds_levelOf hb).bind fun level₁ _ => ?_
  exact succeeds_pure _

omit hn hgate in
/-- The deeper of two nodes that are there is there. -/
lemma ThreeLevel.deeperFirst_lt {x y : Signal × Nat} (ha : a.node < n.size) (hb : b.node < n.size)
    (h : deeperFirst n view a b = .ok (x, y)) : x.1.node < n.size := by
  obtain ⟨x, levelX⟩ := x
  obtain ⟨y, levelY⟩ := y
  rcases (deeperFirst_eq_ok hview h).1 with ⟨rfl, -⟩ | ⟨rfl, -⟩
  · exact ha
  · exact hb

lemma ThreeLevel.succeeds_search : Succeeds (search gate n view) := by
  refine (succeeds_liveFanIns? hgate).bind ?_
  rintro (_ | ⟨f₀, f₁⟩) hf
  · exact succeeds_pure _
  obtain ⟨h₀, h₁⟩ := hn.fanIns_lt hf
  refine (succeeds_deeperFirst hview h₀ h₁).bind fun ⟨⟨z, levelZ⟩, d, levelD⟩ hzd => ?_
  refine .ite (succeeds_pure _) fun _ => ?_
  refine (succeeds_liveFanIns? (deeperFirst_lt hview h₀ h₁ hzd)).bind ?_
  rintro (_ | ⟨z₀, z₁⟩) hz
  · exact succeeds_pure _
  obtain ⟨h₂, h₃⟩ := hn.fanIns_lt hz
  refine (succeeds_deeperFirst hview h₂ h₃).bind fun ⟨⟨w, levelW⟩, c, levelC⟩ hwc => ?_
  refine .ite (succeeds_pure _) fun _ => ?_
  refine (succeeds_liveFanIns? (deeperFirst_lt hview h₂ h₃ hwc)).bind ?_
  rintro (_ | ⟨w₀, w₁⟩) hw
  · exact succeeds_pure _
  obtain ⟨h₄, h₅⟩ := hn.fanIns_lt hw
  refine (succeeds_deeperFirst hview h₄ h₅).bind fun ⟨⟨b, levelB⟩, a, levelA⟩ _ => ?_
  refine .ite (succeeds_pure _) fun _ => ?_
  exact (hview.succeeds_levelOf hgate).bind fun level _ => succeeds_pure _

end Searches

/-! ### Building a replacement -/

section Builds

variable (hn : n.WellFormed)

include hn

lemma Associativity.build_eq_error {o : Opportunity} (h : Matches n gate o)
    (hrun : build o n = .error fault m) : fault = .counterOverflow := by
  obtain ⟨q, hgate, -, hjoins, -⟩ := h
  rcases bind_eq_error.mp hrun with hrun | ⟨pb, n₁, hpb, hrun⟩
  · exact addAnd_eq_error hrun (hgate.live hn).1 (hjoins.live hn).2
  · obtain ⟨-, -, -, hext, -, hlive, -⟩ := addAnd_spec hn hpb
    exact addAnd_eq_error hrun hlive (hext.isLive (hjoins.live hn).1)

lemma Distributivity.build_eq_error {o : Opportunity} (h : Matches n gate o)
    (hrun : build o n = .error fault m) : fault = .counterOverflow := by
  obtain ⟨x, y, -, -, -, hx, hy⟩ := h
  obtain ⟨hshared, ha⟩ := hx.live hn
  have hb := (hy.live hn).2
  rw [build] at hrun
  split_ifs at hrun
  · simp only [Edit.addNand, bind_eq_error] at hrun
    rcases hrun with (hrun | ⟨_, _, -, hrun⟩) | ⟨either, n₁, heither, hrun | ⟨_, _, -, hrun⟩⟩
    · exact addAnd_eq_error hrun ha hb
    · exact absurd hrun pure_ne_error
    · obtain ⟨t, _, hinner, hpure⟩ := bind_eq_ok.mp heither
      obtain ⟨rfl, rfl⟩ := pure_eq_ok.mp hpure
      obtain ⟨-, -, -, hext, -, hlive, -⟩ := addAnd_spec hn hinner
      exact addAnd_eq_error hrun (hext.isLive hshared) hlive
    · exact absurd hrun pure_ne_error
  · rcases bind_eq_error.mp hrun with hrun | ⟨both, n₁, hboth, hrun⟩
    · exact addAnd_eq_error hrun ha hb
    · obtain ⟨-, -, -, hext, -, hlive, -⟩ := addAnd_spec hn hboth
      exact addAnd_eq_error hrun (hext.isLive hshared) hlive

lemma ThreeLevel.build_eq_error {o : Opportunity} (h : Matches n gate o)
    (hrun : build o n = .error fault m) : fault = .counterOverflow := by
  obtain ⟨z, w, hgate, -, hz, -, hw, -⟩ := h
  obtain ⟨hb, ha⟩ := hw.live hn
  have hc := (hz.live hn).2
  have hd := (hgate.live hn).2
  rcases bind_eq_error.mp hrun with hrun | ⟨ad, n₁, had, hrun⟩
  · exact addAnd_eq_error hrun ha hd
  obtain ⟨-, -, h₁, hext₁, -, hlive₁, -⟩ := addAnd_spec hn had
  rcases bind_eq_error.mp hrun with hrun | ⟨adb, n₂, hadb, hrun⟩
  · exact addAnd_eq_error hrun hlive₁ (hext₁.isLive hb)
  obtain ⟨-, -, h₂, hext₂, -, hlive₂, -⟩ := addAnd_spec h₁ hadb
  rcases bind_eq_error.mp hrun with hrun | ⟨notCD, n₃, hnotCD, hrun⟩
  · exact addAnd_eq_error hrun (hext₂.isLive (hext₁.isLive hc)) (hext₂.isLive (hext₁.isLive hd))
  obtain ⟨-, -, -, hext₃, -, hlive₃, -⟩ := addAnd_spec h₂ hnotCD
  rcases bind_eq_error.mp hrun with hrun | ⟨_, _, -, hrun⟩
  · exact addAnd_eq_error hrun (hext₃.isLive hlive₂) hlive₃
  · exact absurd hrun pure_ne_error

end Builds

/-! ### Putting it in place -/

/-- **To retire what is unused never fails.** -/
theorem retireUnused_ne_error {first : Nat} (hn : n.WellFormed) :
    Edit.retireUnused first n ≠ .error fault m := by
  have hloop : ∀ (nodes : List Nat) (n : Network), n.WellFormed →
      (nodes.forM fun node => do
        if ← Edit.view fun n => n.isLiveGate node && n.fanout node == 0 then
          Edit.retire node) n ≠ .error fault m := by
    intro nodes
    induction nodes with
    | nil => exact fun n hn => pure_ne_error
    | cons node nodes ih =>
        intro n hn hrun
        have hunused : (n.isLiveGate node && n.fanout node == 0) = true →
            node < n.size ∧ n.fanout node = 0 := by
          intro h
          simp only [Bool.and_eq_true, beq_iff_eq] at h
          obtain ⟨a, b, hg⟩ := isLiveGate_iff.mp h.1
          exact ⟨hg.lt_size, h.2⟩
        rcases forM_cons_eq_error.mp hrun with hrun | ⟨n₁, hone, hrun⟩
        · rcases bind_eq_error.mp hrun with hrun | ⟨_, _, hview, hrun⟩
          · exact Edit.view_ne_error hrun
          · obtain ⟨rfl, rfl⟩ := Edit.view_eq_ok.mp hview
            split_ifs at hrun with h
            · exact retire_ne_error hn (hunused h).1 (fun _ => (hunused h).2) hrun
            · exact pure_ne_error hrun
        · simp only [bind_eq_ok, Edit.view_eq_ok] at hone
          obtain ⟨_, _, ⟨rfl, rfl⟩, hone⟩ := hone
          split_ifs at hone with h
          · exact ih n₁ (retire_spec hn (fun _ => (hunused h).2) hone).1 hrun
          · obtain ⟨-, rfl⟩ := pure_eq_ok.mp hone
            exact ih n hn hrun
  intro hrun
  rcases bind_eq_error.mp hrun with hrun | ⟨size, _, hview, hrun⟩
  · exact Edit.view_ne_error hrun
  · obtain ⟨-, rfl⟩ := Edit.view_eq_ok.mp hview
    exact hloop _ n hn hrun

namespace Restructuring

variable {α : Type} {w w' : Workspace} {law : Law} {laws : List Law} {first : Nat}

lemma note_ne_error {entry : LogEntry} : note entry w ≠ .error fault w' := by simp [note]

lemma look_ne_error {f : Network → α} : look f w ≠ .error fault w' := by simp [look]

lemma query_eq_error {f : Network → DepthView → Except Fault α} :
    query f w = .error fault w' ↔ f w.network w.depthView = .error fault ∧ w = w' := by
  simp only [query]
  cases h : f w.network w.depthView <;> simp

lemma edit_eq_error {e : Edit α} (h : edit e w = .error fault w') :
    ∃ m, e w.network = .error fault m := by
  obtain ⟨n, view, log⟩ := w
  simp only [edit] at h
  cases he : e n with
  | ok a m => simp [he] at h
  | error f m =>
      simp only [he, EStateM.Result.error.injEq] at h
      exact ⟨m, by rw [h.1]⟩

/-- What was built is put in place without fail, or the substitution fails. -/
lemma commit_eq_error (hn : w.network.WellFormed)
    (h : commit gate s first w = .error fault w') :
    s.node ≠ gate ∧ ∃ m, Edit.substitute gate s w.network = .error fault m := by
  have hretire : ∀ {w : Workspace}, w.network.WellFormed →
      (do edit (Edit.retireUnused first); return (s.node != gate) : Restructuring Bool) w
        ≠ .error fault w' := by
    intro w hn h
    rcases bind_eq_error.mp h with h | ⟨_, _, -, h⟩
    · obtain ⟨m, h⟩ := edit_eq_error h
      exact retireUnused_ne_error hn h
    · exact pure_ne_error h
  by_cases hgate : s.node = gate
  · have hstay : (s.node != gate) = false := by simp [hgate]
    simp only [commit, hstay, if_neg Bool.false_ne_true] at h
    rw [← hstay] at h
    exact absurd h (hretire hn)
  · have hmove : (s.node != gate) = true := by simp [hgate]
    simp only [commit, hmove, if_true] at h
    rw [← hmove] at h
    rcases bind_eq_error.mp h with h | ⟨_, w₁, hsubstitute, h⟩
    · rcases bind_eq_error.mp h with h | ⟨_, _, -, h⟩
      · exact ⟨hgate, edit_eq_error h⟩
      · exact absurd h note_ne_error
    · obtain ⟨k, hk, -⟩ := substitute_eq_ok hsubstitute
      exact absurd h (hretire (substitute_wellFormed hn hk).1)

/-- What was found is built and put in place without fail, but for a full counter or a failing
substitution. -/
lemma act_eq_error {build : α → Edit Signal} {entry : α → Signal → LogEntry} {found : Search α}
    (hbuild : ∀ o, found = .present o → (∀ f m, build o w.network = .error f m →
      f = .counterOverflow) ∧ ∀ s n, build o w.network = .ok s n → n.WellFormed)
    (h : act gate build entry found w = .error fault w') : fault = .counterOverflow ∨
      ∃ o s n m, found = .present o ∧ build o w.network = .ok s n ∧ s.node ≠ gate ∧
        Edit.substitute gate s n = .error fault m := by
  cases found with
  | absent reason =>
      cases reason with
      | none => exact absurd h pure_ne_error
      | some reason =>
          rcases bind_eq_error.mp h with h | ⟨_, _, -, h⟩
          · exact absurd h note_ne_error
          · exact absurd h pure_ne_error
  | present o =>
      obtain ⟨hfault, hwellFormed⟩ := hbuild o rfl
      rcases bind_eq_error.mp h with h | ⟨size, _, hlook, h⟩
      · exact absurd h look_ne_error
      obtain ⟨-, rfl⟩ := look_eq_ok.mp hlook
      rcases bind_eq_error.mp h with h | ⟨s, _, hedit, h⟩
      · obtain ⟨m, h⟩ := edit_eq_error h
        exact .inl (hfault _ _ h)
      obtain ⟨n, hs, rfl⟩ := edit_eq_ok.mp hedit
      rcases bind_eq_error.mp h with h | ⟨progress, _, -, h⟩
      · obtain ⟨hne, m, hsubstitute⟩ := commit_eq_error (hwellFormed s n hs) h
        exact .inr ⟨o, s, n, m, rfl, hs, hne, hsubstitute⟩
      · split_ifs at h
        · rcases bind_eq_error.mp h with h | ⟨_, _, -, h⟩
          · exact absurd h note_ne_error
          · exact absurd h pure_ne_error
        · exact absurd h pure_ne_error

/-- An opportunity that matches is searched for, built and put in place without fail, but for a
full counter or a failing substitution. -/
lemma search_act_eq_error {search : Network → DepthView → Except Fault (Search α)}
    {build : α → Edit Signal} {entry : α → Signal → LogEntry} {Matches : α → Prop}
    (hsearch : Succeeds (search w.network w.depthView))
    (hmatches : ∀ o, search w.network w.depthView = .ok (.present o) → Matches o)
    (hfault : ∀ o f m, Matches o → build o w.network = .error f m → f = .counterOverflow)
    (hbuilt : ∀ o s n, Matches o → build o w.network = .ok s n → n.WellFormed)
    (h : (query search >>= act gate build entry) w = .error fault w') :
    fault = .counterOverflow ∨ ∃ o s n m, Matches o ∧ build o w.network = .ok s n ∧
      s.node ≠ gate ∧ Edit.substitute gate s n = .error fault m := by
  rcases bind_eq_error.mp h with h | ⟨found, _, hquery, h⟩
  · exact absurd (query_eq_error.mp h).1 hsearch.ne_error
  obtain ⟨hfound, rfl⟩ := query_eq_ok.mp hquery
  have hpresent : ∀ o, found = .present o → Matches o :=
    fun o ho => hmatches o (ho ▸ hfound)
  refine (act_eq_error (fun o ho => ⟨fun f m => hfault o f m (hpresent o ho),
    fun s n => hbuilt o s n (hpresent o ho)⟩) h).imp_right ?_
  rintro ⟨o, s, n, m, ho, hrest⟩
  exact ⟨o, s, n, m, hpresent o ho, hrest⟩

/-- **What can fail about one law at one gate**: a counter, or the substitution of the gate by
what the law builds. -/
theorem apply_eq_error (hw : Ready w) (hgate : gate < w.network.size)
    (h : apply law gate w = .error fault w') : fault = .counterOverflow ∨
      ∃ s n m, law.Builds w.network w.depthView gate s n ∧
        Edit.substitute gate s n = .error fault m := by
  have hn := hw.wellFormed
  have hview := hw.describes
  have hbuilt : ∀ {s : Signal} {n : Network}, law.Builds w.network w.depthView gate s n →
      n.WellFormed := fun h => ((h.suggests hview).proposes hn hw.acyclic).wellFormed
  cases law with
  | associativity =>
      refine (search_act_eq_error (Associativity.succeeds_search hn hview hgate) (fun _ ho => ho)
        (fun _ _ _ ho => Associativity.build_eq_error hn (Associativity.search_spec hview ho))
        (fun o _ _ ho hs => hbuilt ⟨o, ho, hs⟩) h).imp_right ?_
      rintro ⟨o, s, n, m, ho, hs, -, hsubstitute⟩
      exact ⟨s, n, m, ⟨o, ho, hs⟩, hsubstitute⟩
  | distributivity =>
      refine (search_act_eq_error (Distributivity.succeeds_search hn hview hgate) (fun _ ho => ho)
        (fun _ _ _ ho => Distributivity.build_eq_error hn (Distributivity.search_spec ho))
        (fun o _ _ ho hs => hbuilt ⟨o, ho, hs⟩) h).imp_right ?_
      rintro ⟨o, s, n, m, ho, hs, -, hsubstitute⟩
      exact ⟨s, n, m, ⟨o, ho, hs⟩, hsubstitute⟩
  | threeLevel =>
      refine (search_act_eq_error (ThreeLevel.succeeds_search hn hview hgate) (fun _ ho => ho)
        (fun _ _ _ ho => ThreeLevel.build_eq_error hn (ThreeLevel.search_spec hview ho))
        (fun o _ _ ho hs => hbuilt ⟨o, ho, hs⟩) h).imp_right ?_
      rintro ⟨o, s, n, m, ho, hs, -, hsubstitute⟩
      exact ⟨s, n, m, ⟨o, ho, hs⟩, hsubstitute⟩

end Restructuring

/-! ### Attempts that founder -/

/-- **The substitution that a law asks for** at a gate comes to a state. -/
def Law.Reaches (law : Law) (n : Network) (view : DepthView) (gate : Nat) (x : Serving) : Prop :=
  ∃ s m, law.Builds n view gate s m ∧ m.Reaches gate s x

/-- **A law stops** at a gate on a fault: the substitution that it asks for strands a request, or
does not end for a cycle. -/
def Law.Stops (law : Law) (n : Network) (view : DepthView) (gate : Nat) (fault : Fault) : Prop :=
  ∃ x, law.Reaches n view gate x ∧
    (x.Strands fault ∨ (fault = .unfinished ∧ ¬ x.network.Acyclic))

/-- **An attempt founders** on a fault: a law suggests a replacement, and the substitution of the
gate by it strands a request or comes to a cyclic network. -/
def Network.Founders (n : Network) (laws : List Law) (fault : Fault) : Prop :=
  ∃ law ∈ laws, ∃ gate s n₁, law.Suggests n gate s n₁ ∧ s.node ≠ gate ∧
    ∃ x, n₁.Reaches gate s x ∧ (x.Strands fault ∨
      ((fault = .unfinished ∨ ∃ visited unvisited, fault = .noOrder visited unvisited) ∧
        ¬ x.network.Acyclic))

/-- A substitution that ends comes to its result. -/
lemma Network.reaches_of_substitute {k : Nat} (h : Edit.substitute gate s n = .ok k m) :
    ∃ moved skipped, n.Reaches gate s ⟨m, [], moved, skipped⟩ := by
  obtain ⟨-, -, uses, n₁, hraise, hends⟩ := substitute_run h
  obtain ⟨moved, skipped, hend⟩ := hends []
  exact ⟨moved, skipped, uses, n₁, hraise, hend⟩

/-- The view of a network is to be had unless the network is cyclic. -/
lemma DepthView.ofNetwork_eq_error (hn : n.WellFormed)
    (h : DepthView.ofNetwork n = .error fault) :
    ¬ n.Acyclic ∧ ∃ visited unvisited, fault = .noOrder visited unvisited := by
  simp only [DepthView.ofNetwork] at h
  cases horder : n.order with
  | ok order =>
      rw [horder] at h
      cases h
  | error f =>
      rw [horder] at h
      cases h
      exact order_eq_error horder hn.fanIns_live

namespace Restructuring

variable {w w' : Workspace} {law : Law} {laws : List Law} {replaced : Bool}

lemma refresh_eq_error (hn : w.network.WellFormed) (h : refresh w = .error fault w') :
    ¬ w.network.Acyclic ∧ ∃ visited unvisited, fault = .noOrder visited unvisited := by
  rcases bind_eq_error.mp h with h | ⟨fresh, _, hquery, h⟩
  · exact DepthView.ofNetwork_eq_error hn (query_eq_error.mp h).1
  rcases bind_eq_error.mp h with h | ⟨nodes, _, -, h⟩
  · exact absurd h look_ne_error
  rcases bind_eq_error.mp h with h | ⟨_, _, -, h⟩
  · cases h
  · exact absurd h note_ne_error

/-- A network that an attempt makes cyclic is one that a substitution comes to. -/
lemma apply_cyclic (hw : Ready w) (h : apply law gate w = .ok replaced w')
    (hcyclic : ¬ w'.network.Acyclic) : ∃ s n₁, law.Suggests w.network gate s n₁ ∧
      s.node ≠ gate ∧ ∃ x, n₁.Reaches gate s x ∧ ¬ x.network.Acyclic := by
  obtain ⟨-, hnetwork, -⟩ | ⟨s, n₁, hsuggests, hcommits, -⟩ := apply_eq_ok hw h
  · exact absurd (hnetwork ▸ hw.acyclic) hcyclic
  have hproposes := hsuggests.proposes hw.wellFormed hw.acyclic
  obtain ⟨-, -, hretire⟩ | ⟨hne, -, k, l, hsubstitute, hretire⟩ := hcommits
  · have hret := (retireUnused_spec hproposes.wellFormed hretire).2.1
    exact absurd (hret.acyclic (hproposes.grows.acyclic hw.acyclic hw.wellFormed.fanIns_live))
      hcyclic
  · have hl := (substitute_wellFormed hproposes.wellFormed hsubstitute).1
    have hret := (retireUnused_spec hl hretire).2.1
    obtain ⟨moved, skipped, hreached⟩ := reaches_of_substitute hsubstitute
    exact ⟨s, n₁, hsuggests, hne, _, hreached, fun hacyclic => hcyclic (hret.acyclic hacyclic)⟩

/-- **An attempt fails** only when a counter is full or its law stops at the gate. -/
theorem apply_stops (hw : Ready w) (hgate : gate < w.network.size)
    (h : apply law gate w = .error fault w') :
    fault = .counterOverflow ∨ law.Stops w.network w.depthView gate fault := by
  rcases apply_eq_error hw hgate h with hfull | ⟨s, n, m, hbuilds, hsubstitute⟩
  · exact .inl hfull
  have hproposes := (hbuilds.suggests hw.describes).proposes hw.wellFormed hw.acyclic
  obtain ⟨a, b, hg⟩ := isLiveGate_iff.mp hproposes.isLiveGate
  refine (substitute_eq_error hproposes.wellFormed (hproposes.grows.isLive hg.isLive)
    hproposes.isLive hsubstitute).imp_right ?_
  rintro ⟨x, hreached, hfault⟩
  exact ⟨x, ⟨s, n, hbuilds, hreached⟩, hfault⟩

/-- **An attempt fails** on a full counter or because it founders. -/
theorem attempt_eq_error (hw : Ready w) (hgate : gate < w.network.size) (hlaw : law ∈ laws)
    (h : applyAndRefresh law gate w = .error fault w') :
    fault = .counterOverflow ∨ w.network.Founders laws fault := by
  rcases bind_eq_error.mp h with h | ⟨generation, _, hlook, h⟩
  · exact absurd h look_ne_error
  obtain ⟨-, rfl⟩ := look_eq_ok.mp hlook
  rcases bind_eq_error.mp h with h | ⟨replaced, w₁, happly, h⟩
  · rcases apply_stops hw hgate h with hfull | ⟨x, ⟨s, n₁, hbuilds, hreached⟩, hcause⟩
    · exact .inl hfull
    have hsuggests := hbuilds.suggests hw.describes
    refine .inr ⟨law, hlaw, gate, s, n₁, hsuggests, hsuggests.ne_gate hw.wellFormed hw.acyclic, x,
      hreached, hcause.imp_right ?_⟩
    rintro ⟨hunfinished, hcyclic⟩
    exact ⟨.inl hunfinished, hcyclic⟩
  rcases bind_eq_error.mp h with h | ⟨generation', _, hlook', h⟩
  · exact absurd h look_ne_error
  obtain ⟨-, rfl⟩ := look_eq_ok.mp hlook'
  split_ifs at h
  · rcases bind_eq_error.mp h with h | ⟨_, _, -, h⟩
    · obtain ⟨hcyclic, hfault⟩ := refresh_eq_error (apply_spec hw happly).wellFormed h
      obtain ⟨s, n₁, hsuggests, hne, x, hreached, hx⟩ := apply_cyclic hw happly hcyclic
      exact .inr ⟨law, hlaw, gate, s, n₁, hsuggests, hne, x, hreached, .inr ⟨.inr hfault, hx⟩⟩
    · exact absurd h pure_ne_error
  · exact absurd h pure_ne_error

end Restructuring

end AndInverter
