import AndInverter.Proofs.Network.Steady

/-!
What the listeners of a network are told.  An edit goes by moments: at each of them the graph
changes at one place and the listeners are told so, and from one moment to the next the graph
stays as it is.

* `Event.Reports`: the change of the graph that an event stands for, `Event.Told`: the word to
  the listeners, and `Event.Happens`: both;
* `Network.Chronicle`: the moments on the way from one network to another;
* `steady_hasChronicle`: the edits have a chronicle, and so have `hasChronicle_addInput` and
  `hasChronicle_addOutput`.
-/

namespace AndInverter

open Network

/-! ### Events -/

/-- **What an event stands for**, from the network before it to the network after it. -/
def Event.Reports : Event → Network → Network → Prop
  | added v, n, m => v = n.size ∧ ∃ kind, Appends n m kind ∧
      (kind = .input n.inputs.size ∧ m.inputs = n.inputs.push v ∨
        (∃ a b, kind = .gate a b) ∧ m.inputs = n.inputs)
  | modified g p, n, m => n.Gate g p.1 p.2 ∧ DiffersAt n m g ∧ ∃ c d, m.Gate g c d
  | deleted g, n, m =>
    DiffersAt n m g ∧ ∃ a b, n.Gate g a b ∧ m.shape g = some (.gate a b, true)
  | outputAdded k, n, m => SameGates n m ∧ k = n.outputs.size ∧ ∃ s, m.outputs = n.outputs.push s
  | outputModified k s, n, m =>
    SameGates n m ∧ n.outputs[k]? = some s ∧ ∃ t, m.outputs = n.outputs.setIfInBounds k t

/-- **The word goes round**: the listeners are told of an event, and of nothing else. -/
structure Event.Told (event : Event) (n m : Network) : Prop where
  listeners : m.listeners = n.listeners
  deliveries : m.deliveries = n.deliveries ++ n.listeners.deliver event

/-- **An event happens**: the graph changes, and the listeners are told. -/
structure Event.Happens (event : Event) (n m : Network) : Prop extends event.Told n m where
  reports : event.Reports n m

/-- **Silence**: nobody is told anything, and nobody begins or ceases to listen. -/
structure Network.Silent (n m : Network) : Prop where
  listeners : m.listeners = n.listeners
  deliveries : m.deliveries = n.deliveries

/-- **Quiet**: the graph stays as it is, in silence. -/
structure Network.Quiet (n m : Network) : Prop extends SameGraph n m, Silent n m

/-! ### Chronicles -/

/-- **A moment** at which an event happens. -/
structure Moment where
  before : Network
  event : Event
  after : Network

/-- **A chronicle**: on the way from one network to another, the graph changes by events that
happen, and not between them. -/
inductive Network.Chronicle : Network → List Moment → Network → Prop
  | nil {n : Network} : Chronicle n [] n
  | quiet {n l m : Network} {trail : List Moment} (h : n.Quiet l) (rest : Chronicle l trail m) :
    Chronicle n trail m
  | tell {n l m : Network} {event : Event} {trail : List Moment} (h : event.Happens n l)
      (rest : Chronicle l trail m) : Chronicle n (⟨n, event, l⟩ :: trail) m

/-- There is a chronicle on the way from one network to another. -/
def Network.HasChronicle (n m : Network) : Prop := ∃ trail, n.Chronicle trail m

variable {α β : Type} {n m l : Network} {event : Event} {pre post trail : List Moment} {t : Moment}

lemma Network.Chronicle.append (h : n.Chronicle pre l) (h' : l.Chronicle post m) :
    n.Chronicle (pre ++ post) m := by
  induction h with
  | nil => exact h'
  | quiet hquiet _ ih => exact .quiet hquiet (ih h')
  | tell hevent _ ih => exact .tell hevent (ih h')

/-- A chronicle is taken apart at a moment. -/
lemma Network.Chronicle.split (h : n.Chronicle (pre ++ t :: post) m) :
    n.Chronicle pre t.before ∧ t.event.Happens t.before t.after ∧ t.after.Chronicle post m := by
  generalize htrail : pre ++ t :: post = trail at h
  induction h generalizing pre with
  | nil => simp at htrail
  | quiet hquiet _ ih =>
      obtain ⟨hpre, hrest⟩ := ih htrail
      exact ⟨.quiet hquiet hpre, hrest⟩
  | tell hevent hpost ih =>
      cases pre with
      | nil =>
          obtain ⟨rfl, rfl⟩ := List.cons.inj htrail
          exact ⟨.nil, hevent, hpost⟩
      | cons u pre =>
          obtain ⟨rfl, htail⟩ := List.cons.inj htrail
          obtain ⟨hpre, hrest⟩ := ih htail
          exact ⟨.tell hevent hpre, hrest⟩

/-- **Who listened at the beginning was told of the events**, one after the other. -/
lemma Network.Chronicle.told (h : n.Chronicle trail m) :
    m.listeners = n.listeners ∧ m.deliveries.toList
      = n.deliveries.toList ++ trail.flatMap fun t => n.listeners.deliver t.event := by
  induction h with
  | nil => exact ⟨rfl, by simp⟩
  | quiet hquiet _ ih =>
      rw [hquiet.listeners, hquiet.deliveries] at ih
      exact ih
  | tell hevent _ ih =>
      rw [hevent.listeners, hevent.deliveries] at ih
      exact ⟨ih.1, by rw [ih.2]; simp⟩

lemma Event.Happens.hasChronicle (h : event.Happens n m) : n.HasChronicle m := ⟨_, .tell h .nil⟩

lemma Network.Quiet.hasChronicle (h : n.Quiet m) : n.HasChronicle m := ⟨_, .quiet h .nil⟩

lemma Network.HasChronicle.trans (h : n.HasChronicle l) (h' : l.HasChronicle m) :
    n.HasChronicle m := by
  obtain ⟨_, hpre⟩ := h
  obtain ⟨_, hpost⟩ := h'
  exact ⟨_, hpre.append hpost⟩

/-! ### The word to the listeners -/

lemma Network.Silent.told (h : n.Silent l) (hevent : event.Told l m) : event.Told n m :=
  ⟨hevent.listeners.trans h.listeners, by rw [hevent.deliveries, h.listeners, h.deliveries]⟩

lemma Event.Told.silent (h : event.Told n l) (hsilent : l.Silent m) : event.Told n m :=
  ⟨hsilent.listeners.trans h.listeners, hsilent.deliveries.trans h.deliveries⟩

namespace Edit

lemma gradual_silent : Gradual Silent where
  refl _ := ⟨rfl, rfl⟩
  trans h h' := ⟨h'.listeners.trans h.listeners, h'.deliveries.trans h.deliveries⟩
  raise v n _ m hrun := by
    obtain ⟨_, _, _, _, rfl⟩ := raiseFanout_eq_ok.mp hrun
    exact ⟨rfl, rfl⟩
  lower v n _ m hrun := by
    obtain ⟨_, _, _, rfl⟩ := lowerFanout_eq_ok.mp hrun
    exact ⟨rfl, rfl⟩

/-- Silence before the word. -/
lemma told_of_silent {e : Edit α} {f : α → Edit β} (he : Ensures Silent e)
    (hf : ∀ a, Ensures event.Told (f a)) : Ensures event.Told (e >>= f) := by
  intro n b m hrun
  obtain ⟨a, l, hea, hfa⟩ := bind_eq_ok.mp hrun
  exact (he n a l hea).told (hf a l b m hfa)

/-- Silence after the word. -/
lemma told_then_silent {e : Edit α} {f : α → Edit β} (he : Ensures event.Told e)
    (hf : ∀ a, Ensures Silent (f a)) : Ensures event.Told (e >>= f) := by
  intro n b m hrun
  obtain ⟨a, l, hea, hfa⟩ := bind_eq_ok.mp hrun
  exact (he n a l hea).silent (hf a l b m hfa)

lemma told_retireOne (g : Nat) (a b : Signal) :
    Ensures (Event.deleted g).Told (retireOne g a b) := by
  have h := gradual_silent
  exact told_of_silent (.modifySlot fun _ => ⟨rfl, rfl⟩) fun _ =>
    told_of_silent (.unhash fun _ _ => ⟨rfl, rfl⟩) fun _ =>
      told_then_silent (.update fun _ => ⟨rfl, rfl⟩) fun _ =>
        h.bind (h.releaseFanIn a) fun _ => h.bind (h.releaseFanIn b) fun _ => h.pure _

lemma told_rewire (g : Nat) (a b : Signal) (key : AndKey) (old new : Nat) :
    Ensures (Event.modified g (a, b)).Told (rewire g a b key old new) := by
  have h := gradual_silent
  exact told_of_silent (.unhash fun _ _ => ⟨rfl, rfl⟩) fun _ =>
    told_of_silent (.modifySlot fun _ => ⟨rfl, rfl⟩) fun _ =>
      told_of_silent (.update fun _ => ⟨rfl, rfl⟩) fun _ => told_of_silent (h.lower old)
        fun _ => told_of_silent (h.raise new) fun _ => .update fun _ => ⟨rfl, rfl⟩

lemma told_redirectOutput (old : Nat) (new : Signal) (k : Nat) (s : Signal) :
    Ensures (Event.outputModified k s).Told (redirectOutput old new k s) := by
  have h := gradual_silent
  exact told_of_silent (.update fun _ => ⟨rfl, rfl⟩) fun _ => told_of_silent (h.lower old)
    fun _ => told_of_silent (h.raise new.node) fun _ => .update fun _ => ⟨rfl, rfl⟩

lemma told_allocate {key : AndKey} {s : Signal} (hrun : allocate key n = .ok s m) :
    (Event.added n.size).Told n m := by
  simp only [allocate, bind_eq_ok, view_eq_ok, update_eq_ok, pure_eq_ok] at hrun
  obtain ⟨_, _, ⟨rfl, rfl⟩, _, n₁, hn₁, _, n₂, hraise₁, _, n₃, hraise₂, _, n₄, hn₄, -, rfl⟩ :=
    hrun
  have h₁ : n.Silent n₁ := hn₁ ▸ ⟨rfl, rfl⟩
  have h₂ := gradual_silent.raise _ _ _ _ hraise₁
  have h₃ := gradual_silent.raise _ _ _ _ hraise₂
  exact h₁.told (h₂.told (h₃.told (hn₄ ▸ ⟨rfl, rfl⟩)))

lemma told_addInput {s : Signal} (hrun : addInput n = .ok s m) :
    (Event.added n.size).Told n m := by
  simp only [addInput, bind_eq_ok, view_eq_ok, update_eq_ok, pure_eq_ok] at hrun
  obtain ⟨_, _, ⟨rfl, rfl⟩, _, _, ⟨rfl, rfl⟩, _, _, rfl, _, _, rfl, -, rfl⟩ := hrun
  exact ⟨rfl, rfl⟩

lemma told_addOutput {s : Signal} {k : Nat} (hrun : addOutput s n = .ok k m) :
    (Event.outputAdded k).Told n m := by
  simp only [addOutput, bind_eq_ok, query_eq_ok, view_eq_ok, update_eq_ok, pure_eq_ok] at hrun
  obtain ⟨_, _, ⟨-, rfl⟩, _, n₁, hraise, _, _, ⟨rfl, rfl⟩, _, n₂, hn₂, rfl, rfl⟩ := hrun
  exact (gradual_silent.raise _ _ _ _ hraise).told (hn₂ ▸ ⟨rfl, rfl⟩)

/-! ### The edits -/

/-- The drivers of some outputs are replaced, and each one is reported. -/
lemma hasChronicle_redirectOutputs {old : Nat} {new : Signal} {driven : List (Signal × Nat)}
    (hdistinct : (driven.map (·.2)).Nodup)
    (hdriven : ∀ p ∈ driven, n.outputs[p.2]? = some p.1)
    (hrun : (driven.forM fun (s, k) => redirectOutput old new k s) n = .ok ⟨⟩ m) :
    n.HasChronicle m := by
  induction driven generalizing n with
  | nil =>
      obtain ⟨-, rfl⟩ := pure_eq_ok.mp hrun
      exact ⟨[], .nil⟩
  | cons p rest ih =>
      obtain ⟨n₁, hone, hrest⟩ := forM_cons_eq_ok.mp hrun
      obtain ⟨hfresh, hdistinct⟩ := List.nodup_cons.mp hdistinct
      obtain ⟨hgates, houtputs, -⟩ := redirectOutput_effect hone
      obtain ⟨hp, hdriven⟩ := List.forall_mem_cons.mp hdriven
      have hevent : (Event.outputModified p.2 p.1).Happens n n₁ :=
        ⟨told_redirectOutput _ _ _ _ _ _ _ hone, hgates, hp, _, houtputs⟩
      refine hevent.hasChronicle.trans (ih hdistinct (fun q hq => ?_) hrest)
      have hne : p.2 ≠ q.2 := fun heq => hfresh (List.mem_map.mpr ⟨q, hq, heq.symm⟩)
      rw [houtputs, Array.getElem?_setIfInBounds_ne hne]
      exact hdriven q hq

lemma hasChronicle_replaceInOutputs (old : Nat) (new : Signal) :
    Ensures HasChronicle (replaceInOutputs old new) := by
  intro n count m hrun
  simp only [replaceInOutputs, bind_eq_ok, view_eq_ok] at hrun
  obtain ⟨_, _, ⟨rfl, rfl⟩, _, n₁, hloop, hrun⟩ := hrun
  have hdriven := hasChronicle_redirectOutputs (nodup_outputsOf n old)
    (fun p hp => (mem_outputsOf.mp hp).1) hloop
  split_ifs at hrun
  · obtain ⟨-, rfl⟩ := pure_eq_ok.mp hrun
    exact hdriven.trans (Quiet.hasChronicle ⟨sameGraph_advance n₁, ⟨rfl, rfl⟩⟩)
  · obtain ⟨-, rfl⟩ := pure_eq_ok.mp hrun
    exact hdriven

/-- **The edits have a chronicle**, as far as they change gates and outputs. -/
theorem steady_hasChronicle : Steady HasChronicle where
  refl _ := ⟨[], .nil⟩
  trans := .trans
  raise v n _ m hrun :=
    Quiet.hasChronicle ⟨(raiseFanout_spec hrun).1, gradual_silent.raise v n _ m hrun⟩
  lower v n _ m hrun :=
    Quiet.hasChronicle ⟨(lowerFanout_spec hrun).1, gradual_silent.lower v n _ m hrun⟩
  retireOne hg hrun := by
    obtain ⟨hd, hdead, -⟩ := retireOne_effect hg hrun
    exact Event.Happens.hasChronicle ⟨told_retireOne _ _ _ _ _ _ hrun, hd, _, _, hg, hdead⟩
  rewire hg hrun := by
    obtain ⟨hd, hg', -⟩ := rewire_effect hg hrun
    exact Event.Happens.hasChronicle ⟨told_rewire _ _ _ _ _ _ _ _ _ hrun, hg, hd, _, _, hg'⟩
  replaceInOutputs := hasChronicle_replaceInOutputs
  allocate key n _ m hrun := by
    obtain ⟨happends, -, hinputs, -⟩ := allocate_effect hrun
    exact Event.Happens.hasChronicle
      ⟨told_allocate hrun, rfl, _, happends, .inr ⟨⟨_, _, rfl⟩, hinputs⟩⟩

lemma hasChronicle_addInput : Ensures HasChronicle addInput := by
  intro n s m hrun
  obtain ⟨happends, -, hinputs, -⟩ := addInput_effect hrun
  exact Event.Happens.hasChronicle ⟨told_addInput hrun, rfl, _, happends, .inl ⟨rfl, hinputs⟩⟩

lemma hasChronicle_addOutput (s : Signal) : Ensures HasChronicle (addOutput s) := by
  intro n k m hrun
  obtain ⟨-, hk, hgates, houtputs, -⟩ := addOutput_effect hrun
  exact Event.Happens.hasChronicle ⟨told_addOutput hrun, hgates, hk, _, houtputs⟩

end Edit

end AndInverter
