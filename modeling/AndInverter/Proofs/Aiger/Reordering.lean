import Mathlib
import AndInverter.Proofs.Aiger.Acceptance
import AndInverter.Proofs.Network.Isomorphism

/-!
Files whose definitions stand in another order.  The order decides in which round a definition
is placed, and so the positions of the gates, the order of their fan-ins, and which one of two
equal definitions makes a gate.  Nothing else depends on it, since the expression of a variable
is the one solution of the definitions.

* `Document.readFrom_iff`: a content is read off the lines that are not blank;
* `Reordered`, and `Document.ReadFrom.reordered`: its content is the same up to the order;
* `Document.Represents.exists_isomorphicBy`: networks for the same variables are isomorphic;
* `addOutputs_isomorphicBy`: outputs are accepted in both, and correspond;
* `load_reordered`: the same texts are accepted, with isomorphic networks.

The example at the end is evaluated by the equations of `StateT`, for which the whole library is
imported.
-/

namespace AndInverter.Aiger

open Text Network Document Expression

variable {d : Document} {ls found rest : List Line} {l : Line} {text text' : String}

/-! ### Lines that are not blank -/

/-- The lines that are not blank. -/
def entries (ls : List Line) : List Line := ls.filter (!isAllBlank ·)

lemma entries_append (ls ls' : List Line) : entries (ls ++ ls') = entries ls ++ entries ls' :=
  List.filter_append ..

/-- The next lines that are not blank are the first ones of those that are not blank. -/
lemma NextLines.entries_eq (h : NextLines ls found rest) : entries ls = found ++ entries rest := by
  induction h with
  | nil => rfl
  | @cons blanks ls found rest l hblanks hl _ ih =>
      have hnone : entries blanks = [] := by simpa [entries] using hblanks
      have hone : entries (l :: ls) = l :: entries ls := List.filter_cons_of_pos (by simp [hl])
      rw [entries_append, hnone, hone, ih]
      rfl

/-- The first lines of those that are not blank are the next ones. -/
lemma exists_nextLines {others : List Line} (h : entries ls = found ++ others) :
    ∃ rest, NextLines ls found rest ∧ entries rest = others := by
  induction found generalizing ls with
  | nil => exact ⟨ls, .nil ls, h⟩
  | cons l found ih =>
      obtain ⟨blanks, ls, rfl, hblanks, hl, hrest⟩ := List.filter_eq_cons_iff.mp h
      obtain ⟨rest, hnext, hothers⟩ := ih hrest
      exact ⟨rest, .cons (by simpa using hblanks) (by simpa using hl) hnext, hothers⟩

/-- A comment does not begin on a blank line. -/
lemma not_comment_of_isAllBlank (h : isAllBlank l = true) : l.head? ≠ some 'c' := by
  cases l with
  | nil => simp
  | cons c l =>
      rw [List.head?_cons, Ne, Option.some.injEq]
      rintro rfl
      simp [isAllBlank, isBlank] at h

/-- Before comments begin, blank lines may be passed over. -/
lemma forall_mem_takeWhile_entries {P : Line → Prop} :
    (∀ l ∈ (entries ls).takeWhile (·.head? ≠ some 'c'), P l) ↔
      ∀ l ∈ ls.takeWhile (·.head? ≠ some 'c'), isAllBlank l = true ∨ P l := by
  have hcomment : (fun l : Line => !(!isAllBlank l) || decide (l.head? ≠ some 'c'))
      = fun l => decide (l.head? ≠ some 'c') := by
    funext l
    cases hblank : isAllBlank l with
    | true => simp [not_comment_of_isAllBlank hblank]
    | false => rfl
  rw [entries, List.takeWhile_filter, hcomment]
  refine forall_congr' fun l => ?_
  rw [List.mem_filter]
  cases isAllBlank l <;> simp

/-- **A content is read off the lines that are not blank.** -/
lemma Document.readFrom_iff : d.ReadFrom text ↔
    ∃ (first : Line) (rest inputs outputs definitions symbols : List Line),
      Text.lines text.toList = first :: rest ∧ d.header.IsOn first ∧
      entries rest = inputs ++ outputs ++ definitions ++ symbols ∧
      List.Forall₂ (IsInputLine d.maxVar) inputs d.inputs ∧
      List.Forall₂ IsNumber outputs d.outputs ∧
      List.Forall₂ (IsDefinitionLine d.maxVar) definitions d.definitions ∧
      (d.inputs ++ d.definitions.map (·.var)).Nodup ∧
      ∀ l ∈ symbols.takeWhile (·.head? ≠ some 'c'),
        IsSymbolLine 'i' d.inputs.length l ∨ IsSymbolLine 'o' d.outputs.length l := by
  constructor
  · rintro ⟨first, rest, inputs, outputs, definitions, symbols, hlines, hheader, hnext, hinputs,
      houtputs, hdefinitions, hnodup, hsymbols⟩
    exact ⟨first, rest, inputs, outputs, definitions, entries symbols, hlines, hheader,
      hnext.entries_eq, hinputs, houtputs, hdefinitions, hnodup,
      forall_mem_takeWhile_entries.mpr hsymbols⟩
  · rintro ⟨first, rest, inputs, outputs, definitions, _, hlines, hheader, hentries, hinputs,
      houtputs, hdefinitions, hnodup, hsymbols⟩
    obtain ⟨symbols, hnext, rfl⟩ := exists_nextLines hentries
    exact ⟨first, rest, inputs, outputs, definitions, symbols, hlines, hheader, hnext, hinputs,
      houtputs, hdefinitions, hnodup, forall_mem_takeWhile_entries.mp hsymbols⟩

/-! ### Another order -/

/-- A part that lies within the second section of a list. -/
lemma exists_section {α : Type} {before part after first second third : List α}
    (h : before ++ part ++ after = first ++ second ++ third)
    (hfirst : first.length ≤ before.length)
    (hsecond : (before ++ part).length ≤ (first ++ second).length) :
    ∃ front back, before = first ++ front ∧ second = front ++ part ++ back ∧
      after = back ++ third := by
  obtain ⟨front, rfl⟩ : first <+: before := by
    refine List.prefix_of_prefix_length_le ?_ ⟨part ++ after, rfl⟩ hfirst
    rw [← List.append_assoc, h, List.append_assoc]
    exact List.prefix_append _ _
  simp only [List.append_assoc, List.append_cancel_left_eq] at h
  obtain ⟨back, rfl⟩ : front ++ part <+: second := by
    refine List.prefix_of_prefix_length_le ?_ ⟨third, rfl⟩ ?_
    · exact ⟨after, by rw [List.append_assoc, h]⟩
    · simp only [List.length_append] at hsecond ⊢
      omega
  simp only [List.append_assoc, List.append_cancel_left_eq] at h
  exact ⟨front, back, rfl, rfl, h⟩

/-- **A text whose definitions stand in another order**: lines among those that the header counts
as definitions change places, blank ones as well, and all others stay where they are. -/
def Reordered (text text' : String) : Prop :=
  ∃ (first : Line) (before body body' after : List Line),
    Text.lines text.toList = first :: (before ++ body ++ after) ∧
    Text.lines text'.toList = first :: (before ++ body' ++ after) ∧ body'.Perm body ∧
    ∀ h : Header, h.IsOn first →
      h.inputs + h.outputs ≤ (entries before).length ∧
      (entries (before ++ body)).length ≤ h.inputs + h.outputs + h.definitions

lemma Reordered.symm (h : Reordered text text') : Reordered text' text := by
  obtain ⟨first, before, body, body', after, hlines, hlines', hperm, hheader⟩ := h
  refine ⟨first, before, body', body, after, hlines', hlines, hperm.symm, fun h hon => ?_⟩
  have hlength := ((hperm.append_left before).filter (!isAllBlank ·)).length_eq
  obtain ⟨hle, hle'⟩ := hheader h hon
  exact ⟨hle, hlength.trans_le hle'⟩

/-- **The content** of a text whose definitions stand in another order. -/
lemma Document.ReadFrom.reordered (hread : d.ReadFrom text) (h : Reordered text text') :
    ∃ ds, ds.Perm d.definitions ∧ ReadFrom { d with definitions := ds } text' := by
  obtain ⟨first, _, inputs, outputs, definitions, symbols, hlines, hheader, hentries, hinputs,
    houtputs, hdefinitions, hnodup, hsymbols⟩ := readFrom_iff.mp hread
  obtain ⟨_, before, body, body', after, heq, hlines', hperm, hsection⟩ := h
  obtain ⟨rfl, rfl⟩ := List.cons.inj (hlines.symm.trans heq)
  obtain ⟨hle, hle'⟩ := hsection _ hheader
  -- the lines that change places are definitions
  rw [entries_append, entries_append] at hentries
  have hlength : (inputs ++ outputs).length = d.inputs.length + d.outputs.length := by
    rw [List.length_append, hinputs.length_eq, houtputs.length_eq]
  have hlength' : (inputs ++ outputs ++ definitions).length
      = d.inputs.length + d.outputs.length + d.definitions.length := by
    rw [List.length_append, hlength, hdefinitions.length_eq]
  obtain ⟨front, back, hbefore, hbody, hafter⟩ := exists_section hentries
    (hlength.trans_le hle) ((entries_append before body ▸ hle').trans_eq hlength'.symm)
  have hpermuted : (front ++ entries body' ++ back).Perm definitions := by
    rw [hbody]
    exact ((hperm.filter _).append_left front).append_right back
  obtain ⟨ds, hdefinitions', hds⟩ := List.perm_comp_forall₂ hpermuted hdefinitions
  refine ⟨ds, hds, readFrom_iff.mpr ⟨first, _, inputs, outputs,
    front ++ entries body' ++ back, symbols, hlines', ?_, ?_, hinputs, houtputs, hdefinitions',
    ?_, hsymbols⟩⟩
  · rw [header, hds.length_eq]
    exact hheader
  · rw [entries_append, entries_append, hbefore, hafter]
    simp only [List.append_assoc]
  · exact (((hds.map (·.var)).append_left d.inputs).nodup_iff).mpr hnodup

/-! ### Networks for the same variables -/

variable {signals signals' : Signals} {n n' m : Network} {f : Nat → Nat} {v : Nat} {s t : Signal}

namespace Document.Represents

variable (h : d.Represents signals n) (h' : d.Represents signals' m)

include h h'

/-- **A variable has the same expression in both networks**: the one that solves the
definitions. -/
lemma expressionOf_eq (hs : signals[v]? = some s) (ht : signals'[v]? = some t) :
    m.expressionOf t = n.expressionOf s := by
  have hlawful := Connectives.expressions_lawful ofKey
  have hsolution : d.DenotesIn (.expressions ofKey) ofInput
      (signals.values (.expressions ofKey) n ofInput) :=
    (h.denotesIn _ hlawful _ _).mpr fun _ _ => rfl
  have hvalue := (h'.denotesIn _ hlawful _ _).mp hsolution v (h.defines_of_getElem? hs)
  rw [values_of_getElem? hs, values_of_getElem? ht, Connectives.read_expressions,
    Connectives.read_expressions] at hvalue
  exact hvalue.symm

/-- What the one network has a node for, the other one has. -/
lemma exists_node (hv : n.isLive v = true) :
    ∃ w, m.isLive w = true ∧ m.expression w = n.expression v := by
  by_cases hgate : n.isLiveGate v = true
  · obtain ⟨var, hvar⟩ := h.exists_var v hgate
    obtain ⟨t, ht⟩ := h'.exists_getElem? (h.defines_of_getElem? hvar)
    have hlive := h'.isLive var t ht
    have heq : m.expressionOf t = n.expression v :=
      (h.expressionOf_eq h' hvar ht).trans (Signal.complementIf_false _)
    -- neither expression is complemented, so the signal is not either
    have hplain := congrArg Signal.complemented heq
    rw [expressionOf, Signal.complemented_complementIf,
      expression_plain h'.wellFormed h'.acyclic hlive, Bool.false_xor,
      expression_plain h.wellFormed h.acyclic hv] at hplain
    rw [expressionOf, hplain, Signal.complementIf_false] at heq
    exact ⟨t.node, hlive, heq⟩
  · rcases expression_source h.wellFormed h.acyclic hv hgate with ⟨-, hv⟩ | ⟨i, hi, hv⟩
    · refine ⟨0, h'.wellFormed.isLive_zero, ?_⟩
      rw [expression_zero h'.wellFormed h'.acyclic, hv]
    · have hlt : i < m.inputs.size := by
        rw [h'.inputs, ← h.inputs]
        exact (Array.getElem?_eq_some_iff.mp hi).1
      have hinput : m.inputs[i]? = some m.inputs[i] := Array.getElem?_eq_getElem hlt
      refine ⟨m.inputs[i], h'.wellFormed.isLive_of_mem_inputs (Array.getElem_mem hlt), ?_⟩
      rw [hv]
      exact (models_interpret h'.wellFormed h'.acyclic).input i _ hinput

/-- **Networks for the same variables are isomorphic**, and the signals of the variables
correspond. -/
theorem exists_isomorphicBy (hempty : n.outputs = #[]) (hempty' : m.outputs = #[]) :
    ∃ f, n.IsomorphicBy m f ∧ ∀ (v : Nat) (s : Signal), signals[v]? = some s →
      signals'[v]? = some (s.renumber f) := by
  choose! f hf using fun v => h.exists_node h' (v := v)
  have hall : ∀ w, w < m.size → m.isLive w = true ∧
      ∃ v, n.isLive v = true ∧ m.expression w = n.expression v := by
    intro w hw
    have hlive := h'.isLive_of_lt w hw
    obtain ⟨v, hv, hsame⟩ := h'.exists_node h hlive
    exact ⟨hlive, v, hv, hsame.symm⟩
  refine ⟨f, isomorphicBy_of_expression h.wellFormed h.acyclic h'.wellFormed h'.acyclic hf hall
    (h'.inputs.trans h.inputs.symm) (by rw [hempty, hempty']; rfl), fun v s hs => ?_⟩
  obtain ⟨t, ht⟩ := h'.exists_getElem? (h.defines_of_getElem? hs)
  rw [ht, eq_renumber h.wellFormed h.acyclic h'.wellFormed h'.acyclic hf (h.isLive v s hs)
    (h'.isLive v t ht) (h.expressionOf_eq h' hs ht)]

end Document.Represents

/-! ### Outputs -/

/-- **One output more** is accepted in both networks, since its node is used equally often. -/
lemma exists_addOutput_isomorphicBy {k : Nat} (h : n.IsomorphicBy m f) (hn : n.WellFormed)
    (hm : m.WellFormed) (hrun : Edit.addOutput s n = .ok k n') :
    ∃ k' m', Edit.addOutput (s.renumber f) m = .ok k' m' ∧ n'.IsomorphicBy m' f := by
  obtain ⟨hlive, -, hsame, houtputs, -⟩ := addOutput_effect hrun
  have hroom : m.fanout (s.renumber f).node < counterLimit :=
    (h.fanout hn hm hlive).trans_lt (addOutput_fanout hrun).1
  obtain ⟨k', m', hrun'⟩ := exists_addOutput (s := s.renumber f) (h.isLive hn hm hlive) hroom
  obtain ⟨-, -, hsame', houtputs', -⟩ := addOutput_effect hrun'
  refine ⟨k', m', hrun', ?_⟩
  constructor
  case bijOn =>
    simp only [hsame.isLive, hsame'.size]
    exact h.bijOn
  case zero => exact h.zero
  case inputs => rw [hsame'.inputs, hsame.inputs, h.inputs]
  case isLiveGate_iff =>
    intro v hv
    have hiff := h.isLiveGate_iff v ((hsame.isLive v).symm.trans hv)
    rw [isLiveGate_iff, isLiveGate_iff] at hiff ⊢
    simpa only [hsame'.gate, hsame.gate] using hiff
  case gate =>
    intro g a b hg
    rw [hsame'.gate, hsame'.gate]
    exact h.gate g a b (hsame.gate.mp hg)
  case outputs =>
    rw [houtputs', houtputs, Array.toList_push, Array.toList_push, h.outputs, List.map_append]
    rfl

/-- An output that was made, and the others. -/
lemma addOutputs_cons_eq_ok {l : Nat} {literals : List Nat}
    (hrun : addOutputs signals (l :: literals) n = .ok ((), n')) :
    ∃ s k m, signals.ofLiteral? l = some s ∧ Edit.addOutput s n = .ok k m ∧
      addOutputs signals literals m = .ok ((), n') := by
  cases hs : signals.ofLiteral? l with
  | none =>
      rw [addOutputs] at hrun
      simp only [hs] at hrun
      cases hrun
  | some s =>
      rw [addOutputs_cons hs] at hrun
      cases hedit : Edit.addOutput s n with
      | error fault m =>
          rw [Build.bind_of_error (Build.edit_of_error hedit)] at hrun
          cases hrun
      | ok k m =>
          rw [Build.bind_of_ok (Build.edit_of_ok hedit)] at hrun
          exact ⟨s, k, m, rfl, hedit, hrun⟩

/-- Outputs leave the variables and the inputs as they are. -/
lemma Document.Represents.addOutputs {literals : List Nat} (h : d.Represents signals n)
    (hrun : Aiger.addOutputs signals literals n = .ok ((), n')) :
    d.Represents signals n' ∧ n'.inputs = n.inputs := by
  induction literals generalizing n with
  | nil =>
      cases hrun
      exact ⟨h, rfl⟩
  | cons l literals ih =>
      obtain ⟨s, k, m, -, hedit, hrest⟩ := addOutputs_cons_eq_ok hrun
      obtain ⟨h', hinputs⟩ := ih (h.addOutput hedit).1 hrest
      exact ⟨h', hinputs.trans (addOutput_effect hedit).2.2.1.inputs⟩

/-- **The outputs are accepted in both networks.** -/
lemma addOutputs_isomorphicBy {literals : List Nat} (h : n.IsomorphicBy m f) (hn : n.WellFormed)
    (hm : m.WellFormed) (hsignals : ∀ (v : Nat) (s : Signal), signals[v]? = some s →
      signals'[v]? = some (s.renumber f))
    (hrun : addOutputs signals literals n = .ok ((), n')) :
    ∃ m', addOutputs signals' literals m = .ok ((), m') ∧ n'.IsomorphicBy m' f := by
  induction literals generalizing n m with
  | nil =>
      cases hrun
      exact ⟨m, rfl, h⟩
  | cons l literals ih =>
      obtain ⟨s, k, n₁, hs, hedit, hrest⟩ := addOutputs_cons_eq_ok hrun
      have hs' : signals'.ofLiteral? l = some (s.renumber f) := by
        obtain ⟨t, ht, rfl⟩ := Option.map_eq_some_iff.mp hs
        rw [Signals.ofLiteral?, hsignals _ t ht]
        rfl
      obtain ⟨k', m₁, hedit', h₁⟩ := exists_addOutput_isomorphicBy h hn hm hedit
      obtain ⟨m', hrest', h'⟩ :=
        ih h₁ (addOutput_spec hn hedit).1 (addOutput_spec hm hedit').1 hrest
      refine ⟨m', ?_, h'⟩
      rw [addOutputs_cons hs', Build.bind_of_ok (Build.edit_of_ok hedit')]
      exact hrest'

/-! ### The whole file -/

/-- How a network was made of a document. -/
lemma Document.exists_frame (hdistinct : d.Distinct)
    (hcount : d.definitions.length ≤ counterLimit) (h : d.toNetwork = .ok n) :
    ∃ signals n₁, d.frame .empty = .ok (signals, n₁) ∧
      (n₁.inputs.toList = List.range' 1 d.inputs.length ∧ n₁.outputs = #[]) ∧
      d.Represents signals n₁ ∧ addOutputs signals d.outputs n₁ = .ok ((), n) := by
  rcases frame_cases hdistinct hcount with ⟨signals, n₁, hframe, hends, h₁⟩ | ⟨e, hframe, -⟩
  · refine ⟨signals, n₁, hframe, hends, h₁, ?_⟩
    cases hrun : addOutputs signals d.outputs n₁ with
    | error e =>
        have herror : d.build .empty = .error e := by
          rw [build_eq, Build.bind_of_ok hframe, Build.bind_of_error hrun]
        rw [toNetwork_eq_error herror] at h
        cases h
    | ok p =>
        obtain ⟨⟨⟩, n'⟩ := p
        have hn' := toNetwork_of_addOutputs hframe hrun (h₁.addOutputs hrun).1.wellFormed
        rw [Except.ok.inj (h.symm.trans hn')]
  · have herror := toNetwork_eq_error
      ((congrFun (build_eq d) .empty).trans (Build.bind_of_error hframe))
    rw [herror] at h
    cases h

/-- **The order of the definitions in a document** decides about positions only. -/
theorem Document.toNetwork_perm {ds : List Definition} (hdistinct : d.Distinct)
    (hcount : d.definitions.length ≤ counterLimit) (hds : ds.Perm d.definitions)
    (hn : d.toNetwork = .ok n) :
    ∃ m signals signals', toNetwork { d with definitions := ds } = .ok m ∧
      d.Represents signals n ∧ d.Represents signals' m ∧
      ∃ f, n.IsomorphicBy m f ∧ ∀ v ∈ n.inputs, f v = v := by
  obtain ⟨signals, n₁, -, ⟨hinputs, hempty⟩, h₁, hrun⟩ := exists_frame hdistinct hcount hn
  rcases frame_cases (d := { d with definitions := ds }) (hdistinct.perm hds)
    (hds.length_eq.trans_le hcount) with
    ⟨signals', m₁, hframe', ⟨hinputs', hempty'⟩, h₁'⟩ | ⟨e, -, hnot⟩
  case inr => exact absurd ((founded_perm hds).mpr h₁.founded) hnot
  have hm₁ := h₁'.perm hds
  obtain ⟨f, hf, hsignals⟩ := h₁.exists_isomorphicBy hm₁ hempty hempty'
  obtain ⟨m, hrun', hisomorphic⟩ :=
    addOutputs_isomorphicBy hf h₁.wellFormed h₁'.wellFormed hsignals hrun
  obtain ⟨h, hkept⟩ := h₁.addOutputs hrun
  obtain ⟨h', -⟩ := hm₁.addOutputs hrun'
  refine ⟨m, signals, signals', toNetwork_of_addOutputs hframe' hrun' h'.wellFormed, h, h', f,
    hisomorphic, fun v hv => ?_⟩
  have hfixed : n₁.inputs.toList.map f = n₁.inputs.toList.map id := by
    rw [← hf.inputs, hinputs', hinputs, List.map_id]
  rw [hkept] at hv
  exact List.map_inj_left.mp hfixed v (Array.mem_toList_iff.mpr hv)

/-- What is accepted is accepted with its definitions in another order. -/
lemma exists_load_of_reordered (h : Reordered text text') (hn : load text = .ok n) :
    ∃ m d signals signals', load text' = .ok m ∧ Represents d signals n ∧
      Represents d signals' m ∧ ∃ f, n.IsomorphicBy m f ∧ ∀ v ∈ n.inputs, f v = v := by
  rw [load_eq, bind_eq_except_ok] at hn
  obtain ⟨d, hparse, hn⟩ := hn
  have hread := Document.parse_eq_ok.mp hparse
  obtain ⟨ds, hds, hread'⟩ := hread.reordered h
  obtain ⟨m, signals, signals', hm, hn, hm', hisomorphic⟩ :=
    toNetwork_perm hread.distinct hread.counts.1 hds hn
  refine ⟨m, d, signals, signals', ?_, hn, hm', hisomorphic⟩
  rw [load_eq, Document.parse_eq_ok.mpr hread', except_ok_bind, hm]

/-- **The order of the definitions in a file does not matter.**  A text is accepted if and only
if it is with its definitions in another order; and then the networks differ in the positions of
their gates only, so that all the figures are the same: the numbers of gates and of nodes, the
depth, and how many nodes are used how often. -/
theorem load_reordered (h : Reordered text text') :
    ((∃ n, load text = .ok n) ↔ ∃ m, load text' = .ok m) ∧
    ∀ n m, load text = .ok n → load text' = .ok m →
      (∀ v, v < n.size → n.isLive v = true) ∧
      (∃ f, n.IsomorphicBy m f ∧ ∀ v ∈ n.inputs, f v = v) ∧
      ∃ figures, n.summary = .ok figures ∧ m.summary = .ok figures := by
  refine ⟨⟨fun ⟨n, hn⟩ => ?_, fun ⟨m, hm⟩ => ?_⟩, fun n m hn hm => ?_⟩
  · obtain ⟨m, -, -, -, hm, -⟩ := exists_load_of_reordered h hn
    exact ⟨m, hm⟩
  · obtain ⟨n, -, -, -, hn, -⟩ := exists_load_of_reordered h.symm hm
    exact ⟨n, hn⟩
  · obtain ⟨m', d, signals, signals', hm', h₁, h₁', f, hf, hfixed⟩ := exists_load_of_reordered h hn
    obtain rfl : m' = m := Except.ok.inj (hm'.symm.trans hm)
    have hsummary := summary_eq_ok h₁.wellFormed h₁.acyclic
    refine ⟨h₁.isLive_of_lt, ⟨f, hf, hfixed⟩, _, hsummary, ?_⟩
    rw [hf.summary h₁.wellFormed h₁.acyclic h₁'.wellFormed h₁'.acyclic h₁.isLive_of_lt, hsummary]

/-- Two definitions of one conjunction, and a definition that has to wait. -/
def shuffled : String := "aag 6 2 0 2 4\n2\n4\n10\n13\n10 6 8\n6 2 4\n8 2 5\n12 4 2\n"

/-- The same definitions, in an order in which the gates are made in another order. -/
def reshuffled : String := "aag 6 2 0 2 4\n2\n4\n10\n13\n8 2 5\n10 6 8\n12 4 2\n6 2 4\n"

/-- A file whose first two gates change places. -/
theorem load_reordered_of_shuffled : Reordered shuffled reshuffled ∧
    ∃ n m, load shuffled = .ok n ∧ load reshuffled = .ok m ∧ n.fanIns? 3 ≠ m.fanIns? 3 ∧
      (∃ f, n.IsomorphicBy m f ∧ ∀ v ∈ n.inputs, f v = v) ∧
      ∃ figures, n.summary = .ok figures ∧ m.summary = .ok figures := by
  have hreordered : Reordered shuffled reshuffled := by
    refine ⟨"aag 6 2 0 2 4".toList, ["2", "4", "10", "13"].map String.toList,
      ["10 6 8", "6 2 4", "8 2 5", "12 4 2"].map String.toList,
      ["8 2 5", "10 6 8", "12 4 2", "6 2 4"].map String.toList, [], by cbv, by cbv, by decide,
      fun h hon => ?_⟩
    have hheader : Header.ofWords "aag 6 2 0 2 4".toList (words "aag 6 2 0 2 4".toList)
        = .ok ⟨6, 2, 2, 4⟩ := by cbv
    obtain rfl : Header.mk 6 2 2 4 = h :=
      Except.ok.inj (hheader.symm.trans (ofWords_eq_ok.mpr hon))
    exact ⟨by decide, by decide⟩
  have hthird : (load shuffled).toOption.map (·.fanIns? 3)
      = some (some (⟨1, false⟩, ⟨2, false⟩)) := by cbv
  have hthird' : (load reshuffled).toOption.map (·.fanIns? 3)
      = some (some (⟨1, false⟩, ⟨2, true⟩)) := by cbv
  cases hn : load shuffled with
  | error e =>
      rw [hn] at hthird
      cases hthird
  | ok n =>
      obtain ⟨hiff, hsame⟩ := load_reordered hreordered
      obtain ⟨m, hm⟩ := hiff.mp ⟨n, hn⟩
      obtain ⟨-, hisomorphic, hfigures⟩ := hsame n m hn hm
      refine ⟨hreordered, n, m, rfl, hm, ?_, hisomorphic, hfigures⟩
      rw [hn] at hthird
      rw [hm] at hthird'
      have hn₃ : n.fanIns? 3 = some (⟨1, false⟩, ⟨2, false⟩) := Option.some.inj hthird
      have hm₃ : m.fanIns? 3 = some (⟨1, false⟩, ⟨2, true⟩) := Option.some.inj hthird'
      rw [hn₃, hm₃]
      decide

end AndInverter.Aiger
