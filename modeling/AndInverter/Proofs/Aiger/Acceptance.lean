import Mathlib.Data.List.Forall2
import AndInverter.Proofs.Aiger.Denotation
import AndInverter.Proofs.Aiger.Format

/-!
Which texts are read as a network, and what the network computes.

A round places the definitions whose literals have values by then.  One that places nothing has
only definitions left that wait for each other, so the rounds come to an end with every
definition placed, or with the proof that the definitions are not founded.

* `Document.Realizes`: a network whose outputs have the values that a file denotes;
* `placeRound_spec` and `placeAll_cases`: one round, and all of them;
* `Document.HasRoom`: no node is used more often than a counter can count;
* `Document.toNetwork_cases`: what can become of a document;
* `load_realizes`: what is read computes what the file denotes;
* `load_accepts_iff`: a text whose nodes have room for their uses is accepted exactly if it has
  the format and its variables have values;
* `load_eq_counterOverflow_iff`: without room a counter overflows, and `load_may_overflow`: there
  are such texts.
-/

namespace AndInverter.Aiger

open Network Document

variable {d : Document} {signals : Signals} {n m : Network} {s : Signal} {l : Nat}

/-- **A network that a document describes**: its inputs and outputs are those of the document in
their order, and every output has the value that the document denotes. -/
structure Document.Realizes (d : Document) (n : Network) : Prop where
  wellFormed : n.WellFormed
  acyclic : n.Acyclic
  inputs : n.inputs.size = d.inputs.length
  outputs : n.outputs.size = d.outputs.length
  denotes : ∀ α, ∃ φ, d.Denotes α φ
  values : ∀ α φ, d.Denotes α φ → n.outputValues .bool α = d.outputs.map (literalValue φ)

/-! ### Inputs -/

/-- **The inputs are made.** -/
lemma addInputs_spec {vars : List Nat} (h : d.Represents signals n)
    (hfresh : ∀ v ∈ vars, ¬ d.Defines v) (hnodup : vars.Nodup) :
    ∃ signals' m, addInputs signals vars n = .ok (signals', m) ∧
      (m.inputs.toList = n.inputs.toList ++ List.range' n.size vars.length ∧
        m.outputs = n.outputs) ∧
      Represents { d with inputs := d.inputs ++ vars } signals' m := by
  induction vars generalizing d signals n with
  | nil => exact ⟨signals, n, rfl, ⟨(List.append_nil _).symm, rfl⟩, by rwa [List.append_nil]⟩
  | cons v vars ih =>
      obtain ⟨hnew, hfresh⟩ := List.forall_mem_cons.mp hfresh
      obtain ⟨hnot, hnodup⟩ := List.nodup_cons.mp hnodup
      obtain ⟨s, l, hrun⟩ : ∃ s l, Edit.addInput n = .ok s l := ⟨_, _, rfl⟩
      have hfresh' : ∀ u ∈ vars, ¬ Defines { d with inputs := d.inputs ++ [v] } u := by
        intro u hu hdefines
        rcases defines_snoc_input.mp hdefines with hdefines | rfl
        · exact hfresh u hu hdefines
        · exact hnot hu
      obtain ⟨signals', m, hrest, ⟨hinputs, houtputs⟩, hm⟩ :=
        ih (h.addInput hnew hrun) hfresh' hnodup
      obtain ⟨happends, -, hpush, -⟩ := addInput_effect hrun
      refine ⟨signals', m, (addInputs_of_ok hrun).trans hrest,
        ⟨?_, houtputs.trans happends.outputs⟩, ?_⟩
      · rw [hinputs, hpush, Array.toList_push, happends.size, List.append_assoc,
          List.length_cons, List.range'_succ]
        rfl
      · simpa only [List.append_assoc, List.singleton_append] using hm

/-! ### Rounds -/

variable {pending : List Definition}

/-- **A round** places a definition as soon as its literals have values; what is deferred had a
literal without a value when the round began. -/
lemma placeRound_spec (h : d.Represents signals n)
    (hfresh : ∀ e ∈ pending, ¬ d.Defines e.var) (hnodup : (pending.map (·.var)).Nodup)
    (hroom : d.definitions.length + pending.length + n.outputs.size ≤ counterLimit) :
    ∃ deferred placed signals' m, placeRound signals pending n = .ok ((deferred, signals'), m) ∧
      n.Extends m ∧ Represents { d with definitions := placed } signals' m ∧
      deferred.Sublist pending ∧ (deferred ++ placed).Perm (pending ++ d.definitions) ∧
      ∀ e ∈ deferred, ¬ d.Grounds e := by
  induction pending generalizing d signals n with
  | nil => exact ⟨[], d.definitions, signals, n, rfl, .refl n, h, .slnil, .refl _, nofun⟩
  | cons e pending ih =>
      obtain ⟨hnew, hfresh⟩ := List.forall_mem_cons.mp hfresh
      rw [List.map_cons] at hnodup
      obtain ⟨hnot, hnodup⟩ := List.nodup_cons.mp hnodup
      rw [List.length_cons] at hroom
      by_cases hgrounds : d.Grounds e
      · obtain ⟨f, hf, hflive, -⟩ := h.exists_signal hgrounds.1
        obtain ⟨g, hg, hglive, -⟩ := h.exists_signal hgrounds.2
        have hgates := h.gates_le
        obtain ⟨s, l, hrun⟩ := exists_addAnd h.wellFormed hflive hglive (by omega)
        have hext : n.Extends l := (addAnd_spec h.wellFormed hrun).2.2.2.1
        have hfresh' : ∀ e' ∈ pending,
            ¬ Defines { d with definitions := e :: d.definitions } e'.var := by
          intro e' he' hdefines
          rcases defines_cons.mp hdefines with hdefines | heq
          · exact hfresh e' he' hdefines
          · exact hnot (List.mem_map.mpr ⟨e', he', heq⟩)
        obtain ⟨deferred, placed, signals', m, hrest, hext', hm, hsublist, hperm, hdeferred⟩ :=
          ih (h.addAnd hnew hgrounds hf hg hrun) hfresh' hnodup (by
            rw [hext.outputs, List.length_cons]
            omega)
        refine ⟨deferred, placed, signals', m, (placeRound_of_ok hf hg hrun).trans hrest,
          hext.trans hext', hm, hsublist.trans (List.sublist_cons_self e pending),
          hperm.trans List.perm_middle, ?_⟩
        -- the rest of the round only adds values
        intro e' he' hgrounds'
        exact hdeferred e' he' ⟨defines_cons.mpr (.inl hgrounds'.1),
          defines_cons.mpr (.inl hgrounds'.2)⟩
      · obtain ⟨deferred, placed, signals', m, hrest, hext, hm, hsublist, hperm, hdeferred⟩ :=
          ih h hfresh hnodup (by omega)
        refine ⟨e :: deferred, placed, signals', m, ?_, hext, hm, hsublist.cons_cons e,
          hperm.cons e, List.forall_mem_cons.mpr ⟨hgrounds, hdeferred⟩⟩
        have hnone := (not_and_or.mp hgrounds).imp h.ofLiteral?_eq_none h.ofLiteral?_eq_none
        rw [placeRound_of_none hnone, Build.bind_of_ok hrest]
        rfl

/-- **Every variable comes once at most**, and the constant is none of the others. -/
def Document.Distinct (d : Document) : Prop :=
  (0 :: (d.inputs ++ d.definitions.map (·.var))).Nodup

lemma Document.Distinct.perm {ds : List Definition} (h : d.Distinct)
    (hperm : ds.Perm d.definitions) : Distinct { d with definitions := ds } :=
  ((((hperm.map _).append_left d.inputs).cons 0).nodup_iff).mpr h

/-- What is pending defines new variables. -/
lemma Document.Distinct.fresh (h : Distinct { d with definitions := pending ++ d.definitions }) :
    (∀ e ∈ pending, ¬ d.Defines e.var) ∧ (pending.map (·.var)).Nodup := by
  rw [Distinct, List.map_append] at h
  obtain ⟨hzero, h⟩ := List.nodup_cons.mp h
  obtain ⟨-, h, hinputs⟩ := List.nodup_append.mp h
  obtain ⟨hpending, -, hdefinitions⟩ := List.nodup_append.mp h
  refine ⟨?_, hpending⟩
  rintro e he (hvar | hvar | ⟨e', he', hvar⟩)
  · refine hzero (List.mem_append_right _ (List.mem_append_left _ ?_))
    exact List.mem_map.mpr ⟨e, he, hvar⟩
  · exact hinputs _ hvar _ (List.mem_append_left _ (List.mem_map.mpr ⟨e, he, rfl⟩)) rfl
  · exact hdefinitions _ (List.mem_map.mpr ⟨e, he, rfl⟩) _ (List.mem_map.mpr ⟨e', he', rfl⟩)
      hvar.symm

/-- **The rounds** place all definitions, or find that these are not founded. -/
lemma placeAll_cases (h : d.Represents signals n)
    (hdistinct : Distinct { d with definitions := pending ++ d.definitions })
    (hroom : d.definitions.length + pending.length + n.outputs.size ≤ counterLimit) :
    (∃ signals' m, placeAll signals pending n = .ok (signals', m) ∧ n.Extends m ∧
      Represents { d with definitions := pending ++ d.definitions } signals' m) ∨
    (∃ e : Definition,
      placeAll signals pending n = .error (.undefinedOrCyclic e.var e.rhs₀ e.rhs₁) ∧
      ¬ Founded { d with definitions := pending ++ d.definitions }) := by
  -- a round that places something leaves fewer definitions
  induction hlength : pending.length using Nat.strong_induction_on
    generalizing d signals n pending with
  | h length ih =>
      subst hlength
      cases pending with
      | nil =>
          refine .inl ⟨signals, n, ?_, .refl n, h⟩
          rw [placeAll]
          rfl
      | cons e rest =>
          obtain ⟨hfresh, hnodup⟩ := hdistinct.fresh
          obtain ⟨deferred, placed, signals₁, n₁, hround, hext, h₁, hsublist, hperm,
            hdeferred⟩ := placeRound_spec h hfresh hnodup hroom
          have hlengths := hperm.length_eq
          rw [List.length_append, List.length_append] at hlengths
          by_cases hprogress : deferred.length < (e :: rest).length
          · have hrun : placeAll signals (e :: rest) n = placeAll signals₁ deferred n₁ := by
              rw [placeAll, Build.bind_of_ok hround]
              simp only [dif_pos hprogress]
            rw [hrun]
            have hroom₁ : placed.length + deferred.length + n₁.outputs.size ≤ counterLimit := by
              rw [hext.outputs]
              omega
            rcases ih _ hprogress h₁ (hdistinct.perm hperm) hroom₁ rfl with
              ⟨signals', m, hok, hext', hm⟩ | ⟨e', herror, hnot⟩
            · refine .inl ⟨signals', m, hok, hext.trans hext', ?_⟩
              exact Represents.perm (d := { d with definitions := e :: rest ++ d.definitions })
                hm hperm
            · refine .inr ⟨e', herror, fun hfounded => hnot ?_⟩
              exact (founded_perm (d := { d with definitions := e :: rest ++ d.definitions })
                hperm).mpr hfounded
          · -- nothing was placed
            obtain rfl := hsublist.eq_of_length_le (Nat.le_of_not_lt hprogress)
            refine .inr ⟨e, ?_, not_founded_of_stuck (List.cons_ne_nil e rest) hdeferred⟩
            rw [placeAll, Build.bind_of_ok hround]
            simp only [dif_neg hprogress]
            rfl

/-- **The inputs and the gates** are made, unless the definitions are not founded. -/
lemma Document.frame_cases (hdistinct : d.Distinct) (hcount : d.definitions.length ≤ counterLimit) :
    (∃ signals n, d.frame .empty = .ok (signals, n) ∧
      (n.inputs.toList = List.range' 1 d.inputs.length ∧ n.outputs = #[]) ∧
      d.Represents signals n) ∨
    (∃ e : Definition, d.frame .empty = .error (.undefinedOrCyclic e.var e.rhs₀ e.rhs₁) ∧
      ¬ d.Founded) := by
  have hnew : ∀ v ∈ d.inputs, ¬ Defines ⟨d.maxVar, [], d.outputs, []⟩ v := by
    intro v hv hdefines
    have hzero : v = 0 := by simpa [Defines] using hdefines
    exact (List.nodup_cons.mp hdistinct).1 (List.mem_append_left _ (hzero ▸ hv))
  have hnodup : d.inputs.Nodup := (List.nodup_append.mp (List.nodup_cons.mp hdistinct).2).1
  obtain ⟨signals, n, hrun, ⟨hinputs, houtputs⟩, h⟩ :=
    addInputs_spec (represents_empty d.maxVar d.outputs) hnew hnodup
  rw [List.nil_append] at h
  have hempty : n.outputs = #[] := houtputs
  have hdistinct' : Distinct ⟨d.maxVar, d.inputs, d.outputs, d.definitions ++ []⟩ := by
    rwa [List.append_nil]
  have hrounds := placeAll_cases h hdistinct' (by simpa [hempty] using hcount)
  rw [List.append_nil] at hrounds
  rw [frame, Build.bind_of_ok hrun]
  rcases hrounds with ⟨signals', m, hok, hext, hm⟩ | herror
  · refine .inl ⟨signals', m, hok, ⟨?_, hext.outputs.trans hempty⟩, hm⟩
    rw [hext.inputs, hinputs]
    rfl
  · exact .inr herror

/-! ### Outputs -/

/-- The outputs that are on a node, up to the first one without a value. -/
def Signals.outputUses (signals : Signals) (literals : List Nat) (v : Nat) : Nat :=
  (literals.takeWhile fun l => (signals.ofLiteral? l).isSome).countP
    fun l => (signals.ofLiteral? l).any (·.node == v)

lemma outputUses_cons (hs : signals.ofLiteral? l = some s) (literals : List Nat) (v : Nat) :
    signals.outputUses (l :: literals) v
      = signals.outputUses literals v + if v = s.node then 1 else 0 := by
  rw [Signals.outputUses, List.takeWhile_cons_of_pos (by rw [hs, Option.isSome_some])]
  simp only [Signals.outputUses, List.countP_cons, hs, Option.any_some, beq_iff_eq,
    eq_comm (a := v)]

lemma outputUses_le_length (signals : Signals) (literals : List Nat) (v : Nat) :
    signals.outputUses literals v ≤ literals.length :=
  List.countP_le_length.trans (List.takeWhile_sublist _).length_le

/-- **The outputs** are made, unless one has no value or a counter is full. -/
lemma addOutputs_cases (h : d.Represents signals n) (hle : ∀ v, n.fanout v ≤ counterLimit)
    (literals : List Nat) :
    ((∀ v, n.fanout v + signals.outputUses literals v ≤ counterLimit) ∧
      (((∀ l ∈ literals, d.Defines (l / 2)) ∧ ∃ m, addOutputs signals literals n = .ok ((), m) ∧
        d.Represents signals m ∧ ∀ α φ, d.Denotes α φ →
          m.outputValues .bool α = n.outputValues .bool α ++ literals.map (literalValue φ)) ∨
      ∃ l ∈ literals, ¬ d.Defines (l / 2) ∧
        addOutputs signals literals n = .error (.undefinedOutput l))) ∨
    ((∃ v, counterLimit < n.fanout v + signals.outputUses literals v) ∧
      addOutputs signals literals n = .error (.internal .counterOverflow)) := by
  induction literals generalizing n with
  | nil =>
      refine .inl ⟨hle, .inl ⟨nofun, n, rfl, h, ?_⟩⟩
      intro α φ _
      rw [List.map_nil, List.append_nil]
  | cons l literals ih =>
      by_cases hl : d.Defines (l / 2)
      case neg =>
        have hs : signals.ofLiteral? l = none := h.ofLiteral?_eq_none hl
        refine .inl ⟨fun v => ?_, .inr ⟨l, List.mem_cons_self, hl, ?_⟩⟩
        · rw [Signals.outputUses, List.takeWhile_cons_of_neg (by simp [hs])]
          exact hle v
        · rw [addOutputs]
          simp only [hs]
          rfl
      obtain ⟨s, hs, hlive, hvalue⟩ := h.exists_signal hl
      rcases addOutput_cases hlive with ⟨k, n₁, hrun⟩ | ⟨⟨n₁, hrun⟩, hfull⟩
      · obtain ⟨h₁, hvalues₁⟩ := h.addOutput hrun
        obtain ⟨-, -, -, -, hfanout⟩ := addOutput_effect hrun
        -- the output is one of those to come, and then one of the uses that are counted
        have hmoves : ∀ v, n₁.fanout v + signals.outputUses literals v
            = n.fanout v + signals.outputUses (l :: literals) v := by
          intro v
          rw [hfanout, outputUses_cons hs]
          omega
        have hle₁ : ∀ v, n₁.fanout v ≤ counterLimit := by
          intro v
          have hroom := (addOutput_fanout hrun).1
          have hv := hle v
          rw [hfanout]
          split_ifs with heq
          · rw [heq]
            exact hroom
          · exact hv
        have hstep : addOutputs signals (l :: literals) n = addOutputs signals literals n₁ := by
          rw [addOutputs_cons hs, Build.bind_of_ok (Build.edit_of_ok hrun)]
        rw [hstep]
        rcases ih h₁ hle₁ with ⟨hroom, ⟨hdefined, m, hok, hm, hvalues⟩ |
          ⟨l', hl', hundefined, herror⟩⟩ | ⟨⟨v, hfull⟩, herror⟩
        · refine .inl ⟨fun v => (hmoves v).symm.trans_le (hroom v),
            .inl ⟨List.forall_mem_cons.mpr ⟨hl, hdefined⟩, m, hok, hm, ?_⟩⟩
          intro α φ hφ
          have hliteral : Connectives.bool.read (n.interpret .bool α) s = literalValue φ l := by
            rw [← hvalue Connectives.bool_lawful α, ← literalValue_eq]
            exact (literalValue_congr ((h.denotes α φ).mp hφ _ hl)).symm
          rw [hvalues α φ hφ, hvalues₁, List.append_assoc, hliteral]
          rfl
        · exact .inl ⟨fun v => (hmoves v).symm.trans_le (hroom v),
            .inr ⟨l', List.mem_cons_of_mem l hl', hundefined, herror⟩⟩
        · exact .inr ⟨⟨v, hfull.trans_eq (hmoves v)⟩, herror⟩
      · refine .inr ⟨⟨s.node, ?_⟩, ?_⟩
        · rw [outputUses_cons hs, if_pos rfl]
          omega
        · rw [addOutputs_cons hs, Build.bind_of_error (Build.edit_of_error hrun)]

/-! ### The whole document -/

/-- **Every variable that is asked for has a value.** -/
structure Document.Closed (d : Document) : Prop where
  founded : d.Founded
  outputs : ∀ l ∈ d.outputs, d.Defines (l / 2)

lemma Document.toNetwork_eq_error {e : LoadError} (h : d.build .empty = .error e) :
    d.toNetwork = .error e := by
  rw [Document.toNetwork]
  change (d.build .empty >>= _) = _
  rw [h]
  rfl

/-- A document whose outputs are made is accepted: the check does not fail. -/
lemma Document.toNetwork_of_addOutputs {n₁ : Network} (hframe : d.frame .empty = .ok (signals, n₁))
    (hrun : addOutputs signals d.outputs n₁ = .ok ((), n)) (hn : n.WellFormed) :
    d.toNetwork = .ok n := by
  have hcheck : Edit.query (·.checkInvariants) n = .ok () n :=
    Edit.query_eq_ok.mpr ⟨checkInvariants_eq_ok hn, rfl⟩
  refine bind_eq_except_ok.mpr ⟨((), n), ?_, rfl⟩
  change d.build .empty = _
  rw [build_eq, Build.bind_of_ok hframe, Build.bind_of_ok hrun, Build.edit_of_ok hcheck]

/-- **Room for the uses**: once the inputs and the gates of a document are made, its gates and
outputs together use no node more often than a counter can count. -/
def Document.HasRoom (d : Document) : Prop :=
  ∀ signals n, d.frame .empty = .ok (signals, n) →
    ∀ v, n.fanout v + signals.outputUses d.outputs v ≤ counterLimit

/-- The gates alone do not fill a counter. -/
lemma Document.Represents.fanout_le (h : d.Represents signals n) (hempty : n.outputs = #[])
    (v : Nat) : n.fanout v ≤ d.definitions.length := by
  rcases Nat.lt_or_ge v n.size with hlt | hge
  · rw [h.wellFormed.fanout_eq v (h.isLive_of_lt v hlt), Multiset.count_zero]
    refine (h.wellFormed.uses_le_gates v).trans ?_
    rw [hempty]
    exact h.gates_le
  · rw [fanout_eq_zero hge]
    exact Nat.zero_le _

/-- **What becomes of a document**: a network that computes what it denotes, or a refusal, or a
counter is full. -/
theorem Document.toNetwork_cases (hdistinct : d.Distinct)
    (hcount : d.definitions.length ≤ counterLimit) :
    (d.HasRoom ∧ ((d.Closed ∧ ∃ n, d.toNetwork = .ok n ∧ d.Realizes n) ∨
      (¬ d.Closed ∧ ∃ e, d.toNetwork = .error e ∧ e.isInternal = false))) ∨
    (¬ d.HasRoom ∧ d.toNetwork = .error (.internal .counterOverflow)) := by
  rcases frame_cases hdistinct hcount with
    ⟨signals, n₁, hframe, ⟨-, hempty⟩, h₁⟩ | ⟨e, hframe, hnot⟩
  case inr =>
    have hhas : d.HasRoom := fun _ _ hframe' => nomatch hframe.symm.trans hframe'
    refine .inl ⟨hhas, .inr ⟨fun hclosed => hnot hclosed.founded,
      .undefinedOrCyclic e.var e.rhs₀ e.rhs₁, toNetwork_eq_error ?_, rfl⟩⟩
    rw [build_eq, Build.bind_of_error hframe]
  have hhas : d.HasRoom ↔ ∀ v, n₁.fanout v + signals.outputUses d.outputs v ≤ counterLimit := by
    refine ⟨fun h => h signals n₁ hframe, ?_⟩
    intro h signals' n' hframe'
    cases hframe.symm.trans hframe'
    exact h
  rw [hhas]
  rcases addOutputs_cases h₁ (fun v => (h₁.fanout_le hempty v).trans hcount) d.outputs with
    ⟨hroom, ⟨hdefined, n, hrun, h, hvalues⟩ | ⟨l, hl, hundefined, hrun⟩⟩ | ⟨⟨v, hfull⟩, hrun⟩
  · have hdenotes : ∀ α, ∃ φ, d.Denotes α φ :=
      fun α => ⟨_, (h.denotes α _).mpr fun _ _ => rfl⟩
    have houtputs : ∀ α φ, d.Denotes α φ →
        n.outputValues .bool α = d.outputs.map (literalValue φ) := by
      intro α φ hφ
      rw [hvalues α φ hφ, outputValues, hempty]
      rfl
    refine .inl ⟨hroom, .inl ⟨⟨h.founded, hdefined⟩, n,
      toNetwork_of_addOutputs hframe hrun h.wellFormed,
      h.wellFormed, h.acyclic, h.inputs, ?_, hdenotes, houtputs⟩⟩
    obtain ⟨φ, hφ⟩ := hdenotes fun _ => false
    rw [← length_outputValues n fun _ => false, houtputs _ φ hφ, List.length_map]
  · refine .inl ⟨hroom, .inr ⟨fun hclosed => hundefined (hclosed.outputs l hl),
      .undefinedOutput l, toNetwork_eq_error ?_, rfl⟩⟩
    rw [build_eq, Build.bind_of_ok hframe, Build.bind_of_error hrun]
  · refine .inr ⟨fun hroom => absurd (hroom v) (Nat.not_le.mpr hfull), toNetwork_eq_error ?_⟩
    rw [build_eq, Build.bind_of_ok hframe, Build.bind_of_error hrun]

/-- **A document with few lines has room**, since a line uses a node once at most. -/
lemma Document.hasRoom_of_length_le (hdistinct : d.Distinct)
    (hcount : d.definitions.length + d.outputs.length ≤ counterLimit) : d.HasRoom := by
  intro signals n hframe v
  rcases frame_cases hdistinct (le_of_add_le_left hcount) with
    ⟨signals', n', hframe', ⟨-, hempty⟩, h⟩ | ⟨e, hframe', -⟩
  · cases hframe.symm.trans hframe'
    exact (Nat.add_le_add (h.fanout_le hempty v)
      (outputUses_le_length signals d.outputs v)).trans hcount
  · cases hframe.symm.trans hframe'

/-! ### The whole text -/

variable {text : String}

lemma load_eq (text : String) : load text = Document.parse text >>= Document.toNetwork := by
  rw [load, loadWithLog]
  cases Document.parse text with
  | error e => rfl
  | ok d =>
      rw [except_ok_bind, except_ok_bind]
      cases d.toNetwork <;> rfl

/-- What the lines of a section have to say of its entries. -/
lemma forall_mem_of_forall₂ {α : Type} {P : Line → α → Prop} {q : α → Prop} {ls : List Line}
    {as : List α} (h : List.Forall₂ P ls as) (hq : ∀ l a, P l a → q a) : ∀ a ∈ as, q a := by
  have hboth := h.flip.imp fun a l ha => And.intro (hq l a ha) ha
  exact (List.forall₂_and_left as ls).mp hboth |>.1

lemma Document.ReadFrom.distinct (h : d.ReadFrom text) : d.Distinct := by
  obtain ⟨_, _, inputs, _, definitions, _, -, -, -, hinputs, -, hdefinitions, hnodup, -⟩ := h
  refine List.nodup_cons.mpr ⟨?_, hnodup⟩
  intro hzero
  rcases List.mem_append.mp hzero with hinput | hdefined
  · have hpos := forall_mem_of_forall₂ (q := (1 ≤ ·)) hinputs fun _ _ hline => hline.2.1
    exact absurd (hpos 0 hinput) (by decide)
  · obtain ⟨e, he, hvar⟩ := List.mem_map.mp hdefined
    have hpos := forall_mem_of_forall₂ (q := (1 ≤ ·.var)) hdefinitions fun _ _ hline => hline.2.1
    exact absurd (hvar ▸ hpos e he) (by decide)

/-- **What becomes of a text** with the format. -/
lemma load_cases (hread : d.ReadFrom text) :
    (d.HasRoom ∧ ((d.Closed ∧ ∃ n, load text = .ok n ∧ d.Realizes n) ∨
      (¬ d.Closed ∧ ∃ e, load text = .error e ∧ e.isInternal = false))) ∨
    (¬ d.HasRoom ∧ load text = .error (.internal .counterOverflow)) := by
  rw [load_eq, Document.parse_eq_ok.mpr hread, except_ok_bind]
  exact toNetwork_cases hread.distinct hread.counts.1

/-- **What is read computes what the file denotes.** -/
theorem load_realizes (h : load text = .ok n) : ∃ d : Document, d.ReadFrom text ∧ d.Realizes n := by
  obtain ⟨d, hparse, -⟩ := bind_eq_except_ok.mp ((load_eq text).symm.trans h)
  have hread := Document.parse_eq_ok.mp hparse
  refine ⟨d, hread, ?_⟩
  rcases load_cases hread with ⟨-, ⟨-, m, hm, hrealizes⟩ | ⟨-, e, he, -⟩⟩ | ⟨-, he⟩
  · cases h.symm.trans hm
    exact hrealizes
  · cases h.symm.trans he
  · cases h.symm.trans he

/-- Definitions that stand before what they refer to, one that is another one again, and a
complemented output. -/
def scattered : String := "aag 6 2 0 2 4\n2\n4\n13\n8\n12 8 11\n8 6 2\n\n6 2 4\n10 4 2\n"

lemma parse_scattered : Document.parse scattered
    = .ok ⟨6, [1, 2], [13, 8], [⟨6, 8, 11⟩, ⟨4, 6, 2⟩, ⟨3, 2, 4⟩, ⟨5, 4, 2⟩]⟩ := by
  cbv

/-- Two of its definitions wait for others, and then every variable has a value. -/
lemma exists_load_scattered : ∃ n, load scattered = .ok n := by
  have hread := Document.parse_eq_ok.mp parse_scattered
  have hclosed : Closed ⟨6, [1, 2], [13, 8], [⟨6, 8, 11⟩, ⟨4, 6, 2⟩, ⟨3, 2, 4⟩, ⟨5, 4, 2⟩]⟩ :=
    ⟨.of_lt (by decide), by decide⟩
  rcases load_cases hread with ⟨-, ⟨-, n, hn, -⟩ | ⟨hopen, -⟩⟩ | ⟨hfull, -⟩
  · exact ⟨n, hn⟩
  · exact absurd hclosed hopen
  · exact absurd (Document.hasRoom_of_length_le hread.distinct (by decide)) hfull

/-- The network of `scattered`. -/
def gathered : Network := (load scattered).toOption.getD .empty

/-- A file whose definitions take several rounds. -/
theorem load_realizes_of_scattered : load scattered = .ok gathered ∧
    ∃ d : Document, d.ReadFrom scattered ∧ d.Realizes gathered := by
  have hload : load scattered = .ok gathered := by
    obtain ⟨n, hn⟩ := exists_load_scattered
    rw [gathered, hn]
    rfl
  exact ⟨hload, load_realizes hload⟩

/-- **What is refused is refused for the text**, never for the network, where there is room. -/
lemma load_ne_internal (hroom : ∀ d : Document, d.ReadFrom text → d.HasRoom) (fault : Fault) :
    load text ≠ .error (.internal fault) := by
  cases hparse : Document.parse text with
  | error e =>
      have hload : load text = .error e := by
        rw [load_eq, hparse]
        rfl
      rw [hload]
      exact (blamesFile_error.mpr (Document.blamesFile_parse text e hparse)).ne_internal fault
  | ok d =>
      have hread := Document.parse_eq_ok.mp hparse
      rcases load_cases hread with ⟨-, ⟨-, n, hn, -⟩ | ⟨-, e, he, hblames⟩⟩ | ⟨hfull, -⟩
      · rw [hn]
        nofun
      · rw [he]
        exact (blamesFile_error.mpr hblames).ne_internal fault
      · exact absurd (hroom d hread) hfull

/-- **A text is accepted** exactly if it has the format and every variable that is asked for has a
value; and what is refused is refused for the text, never for the network.  No node may be used
more often than a counter can count. -/
theorem load_accepts_iff (text : String) (hroom : ∀ d : Document, d.ReadFrom text → d.HasRoom) :
    (∀ fault, load text ≠ .error (.internal fault)) ∧
      ((∃ n, load text = .ok n) ↔ ∃ d : Document, d.ReadFrom text ∧ d.Closed) := by
  refine ⟨load_ne_internal hroom, ?_, ?_⟩
  · rintro ⟨n, hn⟩
    obtain ⟨d, hparse, -⟩ := bind_eq_except_ok.mp ((load_eq text).symm.trans hn)
    have hread := Document.parse_eq_ok.mp hparse
    rcases load_cases hread with ⟨-, ⟨hclosed, -⟩ | ⟨-, e, he, -⟩⟩ | ⟨-, he⟩
    · exact ⟨d, hread, hclosed⟩
    · cases hn.symm.trans he
    · cases hn.symm.trans he
  · rintro ⟨d, hread, hclosed⟩
    rcases load_cases hread with ⟨-, ⟨-, n, hn, -⟩ | ⟨hopen, -⟩⟩ | ⟨hfull, -⟩
    · exact ⟨n, hn⟩
    · exact absurd hclosed hopen
    · exact absurd (hroom d hread) hfull

/-- **A text of at most `2 ^ 32` lines has room.** -/
lemma Document.ReadFrom.hasRoom (h : d.ReadFrom text)
    (hlines : (Text.lines text.toList).length ≤ 2 ^ 32) : d.HasRoom := by
  refine d.hasRoom_of_length_le h.distinct ?_
  have hcount := h.counts.2
  have hlimit : counterLimit + 1 = 2 ^ 32 := rfl
  omega

/-- A file whose definitions take several rounds has room, and is accepted because its variables
have values. -/
theorem load_accepts_iff_of_scattered : (∀ d : Document, d.ReadFrom scattered → d.HasRoom) ∧
    (∃ n, load scattered = .ok n) ∧ ∃ d : Document, d.ReadFrom scattered ∧ d.Closed := by
  have hroom : ∀ d : Document, d.ReadFrom scattered → d.HasRoom :=
    fun d hread => hread.hasRoom (by cbv)
  have haccepted := exists_load_scattered
  exact ⟨hroom, haccepted, (load_accepts_iff scattered hroom).2.mp haccepted⟩

/-! ### Full counters -/

/-- **Without room a counter overflows**, and with room none does. -/
theorem load_eq_counterOverflow_iff (text : String) :
    load text = .error (.internal .counterOverflow) ↔
      ∃ d : Document, d.ReadFrom text ∧ ¬ d.HasRoom := by
  constructor
  · intro hload
    by_contra hnone
    have hroom : ∀ d : Document, d.ReadFrom text → d.HasRoom :=
      fun d hread => by_contra fun hfull => hnone ⟨d, hread, hfull⟩
    exact load_ne_internal hroom .counterOverflow hload
  · rintro ⟨d, hread, hfull⟩
    rcases load_cases hread with ⟨hroom, -⟩ | ⟨-, he⟩
    · exact absurd hroom hfull
    · exact he

/-- A gate, and one of its inputs as an output, again and again. -/
def crowded : Document := ⟨3, [1, 2], List.replicate counterLimit 2, [⟨3, 4, 2⟩]⟩

lemma legible_crowded : crowded.Legible where
  count_le := by decide
  maxVar_le := by decide
  outputs_length_le := by rw [crowded, List.length_replicate]; exact le_rfl
  inputs := by decide
  outputs := by
    intro l hl
    obtain rfl := List.eq_of_mem_replicate hl
    decide
  definitions := by decide
  nodup := by decide

lemma closed_crowded : crowded.Closed := by
  refine ⟨.of_lt (by decide), ?_⟩
  intro l hl
  obtain rfl := List.eq_of_mem_replicate hl
  exact .inr (.inl (by decide))

lemma dense_crowded : Dense { crowded with outputs := [] } where
  maxVar_eq := rfl
  inputs_eq := rfl
  vars_eq := rfl
  operands := by decide
  keys_nodup := by decide
  outputs := nofun
  count_le _ := List.count_le_length.trans (by decide)

/-- One use of the input is in the gate, and the others are too many for the counter then. -/
lemma not_hasRoom_crowded : ¬ crowded.HasRoom := by
  intro hroom
  obtain ⟨signals, n, hframe, hknown, hn⟩ := dense_crowded.frame_eq_ok
  have hfanout : n.fanout 1 = 1 := hn.fanout 1
  have hs : signals.ofLiteral? 2 = some (.ofLiteral 2) := by
    refine hknown.ofLiteral? ?_
    rw [hn.size]
    decide
  have huses : signals.outputUses crowded.outputs 1 = counterLimit := by
    rw [Signals.outputUses, crowded, List.takeWhile_replicate, hs, Option.isSome_some, if_pos rfl,
      List.countP_replicate, hs]
    rfl
  have hle := hroom signals n hframe 1
  rw [hfanout, huses] at hle
  omega

/-- **There are texts without room**: a file may be in order, and name a node as an output more
often than a counter can count. -/
theorem load_may_overflow : ¬ ∀ text : String,
    (∀ fault, load text ≠ .error (.internal fault)) ∧
      ((∃ n, load text = .ok n) ↔ ∃ d : Document, d.ReadFrom text ∧ d.Closed) := by
  intro h
  have hread := Document.parse_eq_ok.mp (Document.parse_text legible_crowded)
  have hload := (load_eq_counterOverflow_iff crowded.text).mpr ⟨crowded, hread, not_hasRoom_crowded⟩
  obtain ⟨n, hn⟩ := (h crowded.text).2.mpr ⟨crowded, hread, closed_crowded⟩
  cases hn.symm.trans hload

end AndInverter.Aiger
