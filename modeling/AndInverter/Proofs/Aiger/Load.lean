import AndInverter.Aiger.Load
import AndInverter.Proofs.Conjunction
import AndInverter.Proofs.Network.Construction
import AndInverter.Proofs.Network.Invariant

/-!
A dense circuit file is loaded as it stands: its variables are numbered without gaps, each one
above those that it is defined by, and no definition folds or repeats another one.  Then the
variables become positions, and every definition gets a gate of its own.

* `Document.Dense`: a file of this kind;
* `Document.Describes`: the network that a file describes, variable by variable;
* `describes_addInput`, `describes_addAnd`, `describes_addOutput`: one line more;
* `Document.Dense.frame_eq_ok`: all inputs and gates, and `Document.Dense.toNetwork`: the whole
  file.
-/

namespace AndInverter.Aiger

open Network

/-! ### Dense files -/

/-- The key of the gate that a definition asks for. -/
def Definition.key (d : Definition) : AndKey := ⟨.ofLiteral d.rhs₁, .ofLiteral d.rhs₀⟩

/-- The variables to which a file refers, once for each reference. -/
def Document.references (d : Document) : List Nat :=
  d.definitions.flatMap (fun e => [e.rhs₀ / 2, e.rhs₁ / 2]) ++ d.outputs.map (· / 2)

/-- **A dense file.** -/
structure Document.Dense (d : Document) : Prop where
  maxVar_eq : d.maxVar = d.inputs.length + d.definitions.length
  inputs_eq : d.inputs = List.range' 1 d.inputs.length
  vars_eq : d.definitions.map (·.var) = List.range' (1 + d.inputs.length) d.definitions.length
  operands : ∀ e ∈ d.definitions,
    0 < e.rhs₁ / 2 ∧ e.rhs₁ / 2 < e.rhs₀ / 2 ∧ e.rhs₀ / 2 < e.var
  keys_nodup : (d.definitions.map (·.key)).Nodup
  outputs : ∀ l ∈ d.outputs, l / 2 ≤ d.maxVar
  count_le : ∀ v, d.references.count v ≤ counterLimit

/-- **The network that a file describes**: its positions are the variables. -/
structure Document.Describes (d : Document) (n : Network) : Prop where
  wellFormed : n.WellFormed
  size : n.size = 1 + d.inputs.length + d.definitions.length
  isLive : ∀ v < n.size, n.isLive v = true
  inputs : n.inputs.toList = d.inputs
  outputs : n.outputs.toList = d.outputs.map .ofLiteral
  gate_iff : ∀ v a b, n.Gate v a b ↔ ∃ e ∈ d.definitions, e.var = v ∧ e.key = ⟨a, b⟩
  fanout : ∀ v, n.fanout v = d.references.count v

/-- Every variable stands for the node at its position. -/
def Signals.Known (signals : Signals) (n : Network) : Prop :=
  ∀ v < n.size, signals[v]? = some (.ofNode v)

variable {d : Document} {n m : Network} {signals : Signals} {k l : Nat}
  {vars outputs ins before after : List Nat} {e : Definition} {ds rest : List Definition}

lemma Signals.Known.ofLiteral? (h : signals.Known n) (hl : l / 2 < n.size) :
    signals.ofLiteral? l = some (.ofLiteral l) := by
  rw [Signals.ofLiteral?, h _ hl, Option.map_some, Signal.complementIf, Signal.ofNode,
    Bool.false_xor]
  rfl

lemma Signals.Known.insert (h : signals.Known n) (hsize : m.size = n.size + 1) :
    Known (signals.insert n.size (.ofNode n.size)) m := by
  intro v hv
  rw [Std.HashMap.getElem?_insert]
  by_cases hvn : n.size = v
  · rw [if_pos (beq_iff_eq.mpr hvn), hvn]
  · rw [if_neg (by simpa using hvn)]
    exact h v (by omega)

lemma code_ofLiteral (l : Nat) : (Signal.ofLiteral l).code = l := by
  have hmod := Nat.mod_two_eq_zero_or_one l
  rw [Signal.ofLiteral, Signal.code]
  rcases hmod with h | h <;> simp [h] <;> omega

/-! ### One line more -/

lemma describes_empty (k : Nat) : Document.Describes ⟨k, [], [], []⟩ .empty where
  wellFormed := wellFormed_empty.1
  size := rfl
  isLive v hv := by
    rw [isLive_iff, shape_empty, if_pos (by simpa using hv)]
    exact ⟨_, rfl⟩
  inputs := rfl
  outputs := rfl
  gate_iff v a b := by simp [not_gate_empty]
  fanout := fanout_empty

/-- **A file with one more input** describes the network with one more input. -/
lemma describes_addInput (h : Document.Describes ⟨k, vars, [], []⟩ n) :
    ∃ m, Edit.addInput n = .ok (.ofNode n.size) m ∧
      Document.Describes ⟨k, vars ++ [n.size], [], []⟩ m := by
  obtain ⟨m, hrun⟩ : ∃ m, Edit.addInput n = .ok (.ofNode n.size) m := ⟨_, rfl⟩
  obtain ⟨ha, -, hinputs, -, -, hfanout⟩ := addInput_effect hrun
  have hm := (addInput_spec h.wellFormed hrun).1
  refine ⟨m, hrun, hm, ?_, ?_, ?_, ?_, ?_, ?_⟩
  · have := h.size
    simp only [List.length_append, List.length_nil, List.length_singleton] at this ⊢
    rw [ha.size]
    omega
  · exact fun v => ha.isLive_of_lt h.isLive
  · rw [hinputs, Array.toList_push, h.inputs]
  · rw [ha.outputs, h.outputs]
  · exact fun v a b => (ha.gate_of_source rfl).trans (h.gate_iff v a b)
  · exact fun v => (hfanout v).trans (h.fanout v)

lemma conjunction_ofLiteral (hpos : 0 < e.rhs₁ / 2) (hlt : e.rhs₁ / 2 < e.rhs₀ / 2) :
    conjunction (.ofLiteral e.rhs₀) (.ofLiteral e.rhs₁) = .gate e.key := by
  have hne : (Signal.ofLiteral e.rhs₁).node ≠ (Signal.ofLiteral e.rhs₀).node := Nat.ne_of_lt hlt
  have hzero : (Signal.ofLiteral e.rhs₁).node ≠ 0 := Nat.ne_of_gt hpos
  rw [conjunction_comm, conjunction_of_le, AndForm.ofOrdered, if_neg hzero, if_neg hne,
    Definition.key]
  rw [code_ofLiteral, code_ofLiteral]
  omega

lemma count_references_append (v : Nat) :
    (Document.references ⟨k, ins, [], ds ++ [e]⟩).count v
      = (Document.references ⟨k, ins, [], ds⟩).count v + pairUses v (e.key.lhs, e.key.rhs) := by
  have huses : pairUses v (e.key.lhs, e.key.rhs)
      = (if e.rhs₁ / 2 = v then 1 else 0) + if e.rhs₀ / 2 = v then 1 else 0 := rfl
  simp only [huses, Document.references, List.flatMap_append, List.flatMap_cons,
    List.flatMap_nil, List.map_nil, List.append_nil, List.count_append, List.count_cons,
    List.count_nil, beq_iff_eq]
  omega

/-- A key that no definition asks for has no gate. -/
lemma Document.Describes.hash_eq_none {key : AndKey} (h : d.Describes n)
    (hkey : key ∉ d.definitions.map (·.key)) : n.hash[key]? = none := by
  refine Option.eq_none_iff_forall_ne_some.mpr ?_
  intro g hg
  obtain ⟨e, he, -, heq⟩ := (h.gate_iff g _ _).mp ((h.wellFormed.hash_iff key g).mp hg)
  exact hkey (List.mem_map.mpr ⟨e, he, heq⟩)

/-- A definition with a new key asks for a new gate. -/
lemma addAnd_eq_ok (hoperands : 0 < e.rhs₁ / 2 ∧ e.rhs₁ / 2 < e.rhs₀ / 2)
    (hlive : n.isLive e.key.lhs.node = true ∧ n.isLive e.key.rhs.node = true)
    (hfree : n.hash[e.key]? = none) {s : Signal} (hrun : Edit.allocate e.key n = .ok s m) :
    Edit.addAnd (.ofLiteral e.rhs₀) (.ofLiteral e.rhs₁) n = .ok s m := by
  simp only [Edit.addAnd, bind_eq_ok, Edit.query_eq_ok, Edit.requireLive_eq_ok]
  refine ⟨(), n, ⟨hlive.2, rfl⟩, (), n, ⟨hlive.1, rfl⟩, ?_⟩
  simp only [conjunction_ofLiteral hoperands.1 hoperands.2, bind_eq_ok, Edit.view_eq_ok]
  exact ⟨none, n, ⟨hfree, rfl⟩, hrun⟩

/-- **A file with one more definition** describes the network with one more gate. -/
lemma describes_addAnd (h : Document.Describes ⟨k, ins, [], ds⟩ n) (hvar : e.var = n.size)
    (hoperands : 0 < e.rhs₁ / 2 ∧ e.rhs₁ / 2 < e.rhs₀ / 2 ∧ e.rhs₀ / 2 < e.var)
    (hkey : e.key ∉ ds.map (·.key))
    (hcount : ∀ v, (Document.references ⟨k, ins, [], ds ++ [e]⟩).count v ≤ counterLimit) :
    ∃ m, Edit.addAnd (.ofLiteral e.rhs₀) (.ofLiteral e.rhs₁) n = .ok (.ofNode n.size) m ∧
      m.size = n.size + 1 ∧ Document.Describes ⟨k, ins, [], ds ++ [e]⟩ m := by
  obtain ⟨hpos, hlt, hvar'⟩ := hoperands
  have hlive : n.isLive e.key.lhs.node = true ∧ n.isLive e.key.rhs.node = true :=
    ⟨h.isLive (e.rhs₁ / 2) (by omega), h.isLive (e.rhs₀ / 2) (by omega)⟩
  have hold : ∀ e' ∈ ds, e'.var < n.size := fun e' he' =>
    ((h.gate_iff e'.var e'.key.lhs e'.key.rhs).mpr ⟨e', he', rfl, rfl⟩).lt_size
  have hfree : n.hash[e.key]? = none := h.hash_eq_none hkey
  obtain ⟨m, hrun⟩ := exists_allocate
    ⟨lt_size_of_isLive hlive.1, lt_size_of_isLive hlive.2⟩ fun v _ => by
      have := hcount v
      rw [count_references_append, ← h.fanout] at this
      exact this
  obtain ⟨ha, -, hinputs, -, -, hfanout⟩ := allocate_effect hrun
  obtain ⟨hm, -, -, -, hgate⟩ := allocate_spec h.wellFormed hfree ⟨hpos, hlt⟩ hlive hrun
  refine ⟨m, addAnd_eq_ok ⟨hpos, hlt⟩ hlive hfree hrun, ha.size, hm, ?_, ?_, ?_, ?_, ?_, ?_⟩
  · have := h.size
    simp only [List.length_append, List.length_singleton] at this ⊢
    rw [ha.size]
    omega
  · exact fun v => ha.isLive_of_lt h.isLive
  · rw [hinputs, h.inputs]
  · rw [ha.outputs, h.outputs]
  · intro v a b
    simp only [List.mem_append, List.mem_singleton, or_and_right, exists_or, exists_eq_left]
    obtain rfl | hne := eq_or_ne v n.size
    · have hnone : ¬ ∃ e' ∈ ds, e'.var = n.size ∧ e'.key = ⟨a, b⟩ := by
        rintro ⟨e', he', heq, -⟩
        exact absurd (hold e' he') (by omega)
      rw [iff_false_intro hnone, false_or]
      constructor
      · intro hg
        obtain ⟨hl, hr⟩ := hgate.unique hg
        exact ⟨hvar, congr (congrArg AndKey.mk hl) hr⟩
      · rintro ⟨-, heq⟩
        rw [heq] at hgate
        exact hgate
    · rw [ha.gate hne, h.gate_iff]
      have hnot : ¬ (e.var = v ∧ e.key = ⟨a, b⟩) := fun hev => hne (hev.1.symm.trans hvar)
      rw [iff_false_intro hnot, or_false]
  · intro v
    rw [hfanout, h.fanout, count_references_append]

/-- **A file with one more output** describes the network with one more output. -/
lemma describes_addOutput (h : Document.Describes ⟨k, ins, outputs, ds⟩ n) (hl : l / 2 < n.size)
    (hcount : ∀ v, (Document.references ⟨k, ins, outputs ++ [l], ds⟩).count v ≤ counterLimit) :
    ∃ index m, Edit.addOutput (.ofLiteral l) n = .ok index m ∧ m.size = n.size ∧
      Document.Describes ⟨k, ins, outputs ++ [l], ds⟩ m := by
  have hreferences : ∀ v, (Document.references ⟨k, ins, outputs ++ [l], ds⟩).count v
      = (Document.references ⟨k, ins, outputs, ds⟩).count v + if v = l / 2 then 1 else 0 := by
    intro v
    simp only [Document.references, List.map_append, List.map_cons, List.map_nil,
      List.count_append, List.count_singleton, beq_iff_eq, eq_comm (a := v)]
    omega
  obtain ⟨index, m, hrun⟩ : ∃ index m, Edit.addOutput (.ofLiteral l) n = .ok index m := by
    refine exists_addOutput (h.isLive _ hl) ?_
    have hroom := hcount (l / 2)
    rw [hreferences, ← h.fanout, if_pos rfl] at hroom
    exact hroom
  obtain ⟨-, -, -, -, hfanout⟩ := addOutput_effect hrun
  obtain ⟨hm, hgates, houtputs, -⟩ := addOutput_spec h.wellFormed hrun
  refine ⟨index, m, hrun, hgates.size, hm, hgates.size.trans h.size, ?_, ?_, ?_, ?_, ?_⟩
  · intro v hv
    rw [hgates.isLive]
    exact h.isLive v (hgates.size ▸ hv)
  · rw [hgates.inputs, h.inputs]
  · rw [houtputs, Array.toList_push, h.outputs, List.map_append]
    rfl
  · exact fun v a b => hgates.gate.trans (h.gate_iff v a b)
  · intro v
    rw [hfanout, h.fanout, hreferences]
    rfl

/-! ### The sections of a file -/

lemma Build.bind_of_ok {α β : Type} {x : Build α} {f : α → Build β} {a : α}
    (h : x n = .ok (a, m)) : (x >>= f) n = f a m := by
  change (x n >>= fun p => f p.1 p.2) = _
  rw [h]
  rfl

lemma Build.bind_of_error {α β : Type} {x : Build α} {f : α → Build β} {e : LoadError}
    (h : x n = .error e) : (x >>= f) n = .error e := by
  change (x n >>= fun p => f p.1 p.2) = _
  rw [h]
  rfl

lemma Build.edit_of_ok {α : Type} {edit : Edit α} {a : α} (h : edit n = .ok a m) :
    Build.edit edit n = .ok (a, m) := by
  rw [Build.edit, h]

lemma Build.edit_of_error {α : Type} {edit : Edit α} {fault : Fault}
    (h : edit n = .error fault m) : Build.edit edit n = .error (.internal fault) := by
  rw [Build.edit, h]

lemma addInputs_of_ok {v : Nat} {s : Signal} (h : Edit.addInput n = .ok s m) :
    addInputs signals (v :: vars) n = addInputs (signals.insert v s) vars m := by
  rw [addInputs, Build.bind_of_ok (Build.edit_of_ok h)]

/-- A definition whose literals have signals is placed. -/
lemma placeRound_of_ok {f g s : Signal} (hf : signals.ofLiteral? e.rhs₀ = some f)
    (hg : signals.ofLiteral? e.rhs₁ = some g) (h : Edit.addAnd f g n = .ok s m) :
    placeRound signals (e :: rest) n = placeRound (signals.insert e.var s) rest m := by
  rw [placeRound]
  simp only [hf, hg]
  rw [Build.bind_of_ok (Build.edit_of_ok h)]

/-- A definition with a literal that has no signal is deferred. -/
lemma placeRound_of_none
    (h : signals.ofLiteral? e.rhs₀ = none ∨ signals.ofLiteral? e.rhs₁ = none) :
    placeRound signals (e :: rest)
      = placeRound signals rest >>= fun p => pure (e :: p.1, p.2) := by
  rw [placeRound]
  split
  case h_1 f g hf hg => simp [hf, hg] at h
  case h_2 => rfl

lemma addOutputs_cons {s : Signal} (hs : signals.ofLiteral? l = some s) (after : List Nat) :
    addOutputs signals (l :: after)
      = Build.edit (Edit.addOutput s) >>= fun _ => addOutputs signals after := by
  rw [addOutputs]
  simp only [hs]

/-- **The inputs are made.** -/
lemma addInputs_eq_ok (h : Document.Describes ⟨k, before, [], []⟩ n) (hknown : signals.Known n)
    (hvars : vars = List.range' n.size vars.length) :
    ∃ signals' m, addInputs signals vars n = .ok (signals', m) ∧ signals'.Known m ∧
      Document.Describes ⟨k, before ++ vars, [], []⟩ m := by
  induction vars generalizing before signals n with
  | nil => exact ⟨signals, n, rfl, hknown, by rwa [List.append_nil]⟩
  | cons var vars ih =>
      rw [List.length_cons, List.range'_succ, List.cons.injEq] at hvars
      obtain ⟨rfl, hvars⟩ := hvars
      obtain ⟨l, hrun, hl⟩ := describes_addInput h
      have hsize : l.size = n.size + 1 := (addInput_effect hrun).1.size
      obtain ⟨signals', m, hrest, hknown', hm⟩ := ih hl (hknown.insert hsize) (by rwa [hsize])
      exact ⟨signals', m, (addInputs_of_ok hrun).trans hrest, hknown', by simpa using hm⟩

namespace Document.Dense

lemma var_eq (hd : d.Dense) (hds : d.definitions = ds ++ e :: rest) :
    e.var = 1 + d.inputs.length + ds.length := by
  have hget := congrArg (·[ds.length]?) hd.vars_eq
  simp only [hds, List.map_append, List.map_cons, List.length_append, List.length_cons] at hget
  rw [List.getElem?_append_right (by simp), List.getElem?_range' (by omega)] at hget
  simp only [List.length_map, Nat.sub_self, List.getElem?_cons_zero, Option.some.injEq] at hget
  omega

lemma key_notMem (hd : d.Dense) (hds : d.definitions = ds ++ e :: rest) :
    e.key ∉ ds.map (·.key) := by
  intro hin
  have hnodup := hd.keys_nodup
  rw [hds, List.map_append, List.map_cons] at hnodup
  exact (List.nodup_append.mp hnodup).2.2 _ hin _ List.mem_cons_self rfl

/-- What a part of a file refers to, the whole file refers to. -/
lemma count_le_of_prefix (hd : d.Dense) (hds : ds <+: d.definitions)
    (houtputs : outputs <+: d.outputs) (v : Nat) :
    (Document.references ⟨k, ins, outputs, ds⟩).count v ≤ counterLimit := by
  refine le_trans (List.Sublist.count_le v ?_) (hd.count_le v)
  exact (hds.sublist.flatMap _).append (houtputs.sublist.map _)

end Document.Dense

/-- **All gates are made in one round.** -/
lemma placeRound_eq_ok (hd : d.Dense) (hds : d.definitions = ds ++ rest)
    (h : Document.Describes ⟨k, d.inputs, [], ds⟩ n) (hknown : signals.Known n) :
    ∃ signals' m, placeRound signals rest n = .ok (([], signals'), m) ∧ signals'.Known m ∧
      Document.Describes ⟨k, d.inputs, [], d.definitions⟩ m := by
  induction rest generalizing ds signals n with
  | nil =>
      rw [List.append_nil] at hds
      exact ⟨signals, n, rfl, hknown, hds ▸ h⟩
  | cons e rest ih =>
      have hmem : e ∈ d.definitions := by
        rw [hds]
        exact List.mem_append_right ds List.mem_cons_self
      have hvar : e.var = n.size := (hd.var_eq hds).trans h.size.symm
      have hoperands := hd.operands e hmem
      have hds' : d.definitions = (ds ++ [e]) ++ rest := by simp [hds]
      obtain ⟨l, hrun, hsize, hl⟩ := describes_addAnd h hvar hoperands (hd.key_notMem hds)
        (hd.count_le_of_prefix (hds' ▸ List.prefix_append _ _) List.nil_prefix)
      obtain ⟨signals', m, hrest, hknown', hm⟩ := ih hds' hl (hknown.insert hsize)
      refine ⟨signals', m, ?_, hknown', hm⟩
      rw [placeRound_of_ok (hknown.ofLiteral? (by omega)) (hknown.ofLiteral? (by omega)) hrun, hvar]
      exact hrest

/-- **The gates are made.** -/
lemma placeAll_eq_ok (hd : d.Dense) (h : Document.Describes ⟨k, d.inputs, [], []⟩ n)
    (hknown : signals.Known n) :
    ∃ signals' m, placeAll signals d.definitions n = .ok (signals', m) ∧ signals'.Known m ∧
      Document.Describes ⟨k, d.inputs, [], d.definitions⟩ m := by
  cases hds : d.definitions with
  | nil =>
      refine ⟨signals, n, ?_, hknown, h⟩
      rw [placeAll]
      rfl
  | cons e rest =>
      obtain ⟨signals', m, hrun, hknown', hm⟩ :=
        placeRound_eq_ok hd (List.nil_append d.definitions).symm h hknown
      refine ⟨signals', m, ?_, hknown', hds ▸ hm⟩
      rw [hds] at hrun
      rw [placeAll, Build.bind_of_ok hrun]
      simp only [List.length_nil, List.length_cons, Nat.zero_lt_succ, dite_true]
      rw [placeAll]
      rfl

/-- **The outputs are made.** -/
lemma addOutputs_eq_ok (hd : d.Dense) (houtputs : d.outputs = before ++ after)
    (h : Document.Describes ⟨k, d.inputs, before, d.definitions⟩ n) (hknown : signals.Known n) :
    ∃ m, addOutputs signals after n = .ok ((), m) ∧
      Document.Describes ⟨k, d.inputs, d.outputs, d.definitions⟩ m := by
  induction after generalizing before n with
  | nil =>
      rw [List.append_nil] at houtputs
      exact ⟨n, rfl, houtputs ▸ h⟩
  | cons l after ih =>
      have hl : l / 2 < n.size := by
        have hsize : n.size = 1 + d.inputs.length + d.definitions.length := h.size
        have hle := hd.outputs l (houtputs ▸ List.mem_append_right before List.mem_cons_self)
        have := hd.maxVar_eq
        omega
      have houtputs' : d.outputs = (before ++ [l]) ++ after := by simp [houtputs]
      obtain ⟨index, l', hrun, hsize, hl'⟩ := describes_addOutput h hl
        (hd.count_le_of_prefix List.prefix_rfl (houtputs' ▸ List.prefix_append _ _))
      have hknown' : signals.Known l' := fun v hv => hknown v (hsize ▸ hv)
      obtain ⟨m, hrest, hm⟩ := ih houtputs' hl' hknown'
      refine ⟨m, ?_, hm⟩
      rw [addOutputs_cons (hknown.ofLiteral? hl), Build.bind_of_ok (Build.edit_of_ok hrun)]
      exact hrest

/-- Makes the inputs and the gates of a document. -/
def Document.frame (d : Document) : Build Signals := do
  let signals ← addInputs ((∅ : Signals).insert 0 .zero) d.inputs
  placeAll signals d.definitions

lemma Document.build_eq (d : Document) : d.build = d.frame >>= fun signals =>
    addOutputs signals d.outputs >>= fun _ => Build.edit (Edit.query (·.checkInvariants)) := by
  rw [Document.build, frame, bind_assoc]

/-- **The inputs and gates of a dense file are made.** -/
lemma Document.Dense.frame_eq_ok (hd : d.Dense) :
    ∃ signals n, d.frame .empty = .ok (signals, n) ∧ signals.Known n ∧
      Document.Describes ⟨d.maxVar, d.inputs, [], d.definitions⟩ n := by
  have hstart : Signals.Known ((∅ : Signals).insert 0 .zero) .empty := by
    intro v hv
    obtain rfl : v = 0 := by simpa using hv
    exact Std.HashMap.getElem?_insert_self
  obtain ⟨signals₁, n₁, hinputs, hknown₁, hn₁⟩ :=
    addInputs_eq_ok (describes_empty d.maxVar) hstart hd.inputs_eq
  rw [List.nil_append] at hn₁
  obtain ⟨signals₂, n₂, hgates, hknown₂, hn₂⟩ := placeAll_eq_ok hd hn₁ hknown₁
  exact ⟨signals₂, n₂, (Build.bind_of_ok hinputs).trans hgates, hknown₂, hn₂⟩

/-- **A dense file is loaded**, and every definition gets a gate of its own. -/
theorem Document.Dense.toNetwork (hd : d.Dense) :
    ∃ n, d.toNetwork = .ok n ∧ d.Describes n := by
  obtain ⟨signals, n₁, hframe, hknown, hn₁⟩ := hd.frame_eq_ok
  obtain ⟨n, houtputs, hn⟩ := addOutputs_eq_ok hd (List.nil_append d.outputs).symm hn₁ hknown
  have hcheck : Edit.query (·.checkInvariants) n = .ok () n :=
    Edit.query_eq_ok.mpr ⟨checkInvariants_eq_ok hn.wellFormed, rfl⟩
  refine ⟨n, ?_, hn⟩
  have hbuild : d.build .empty = .ok ((), n) := by
    rw [build_eq, Build.bind_of_ok hframe, Build.bind_of_ok houtputs, Build.edit_of_ok hcheck]
  rw [Document.toNetwork]
  exact bind_eq_except_ok.mpr ⟨((), n), hbuild, rfl⟩

end AndInverter.Aiger
