import AndInverter.Proofs.Aiger.Load
import AndInverter.Proofs.Network.Evaluation

/-!
What a circuit file denotes, in whatever order its definitions come, and when a network has the
same values.

* `Document.Denotes`: values of the variables that obey the definitions, and
  `Document.DenotesIn`: values on which other connectives work;
* `Document.Founded`: what is referred to is defined, and nothing is defined by itself;
  `Document.Founded.of_lt`: definitions by lower variables are;
* `Represents`: the network that is built from a part of the file, whose signals have exactly
  the values that this part denotes;
* `Represents.addInput`, `Represents.addAnd`: one line more;
* `not_founded_of_stuck`: definitions that wait for each other are not founded.
-/

namespace AndInverter.Aiger

open Network Relation

/-! ### Denotations -/

/-- The value of a literal, given the values of the variables. -/
def literalValue (φ : Nat → Bool) (l : Nat) : Bool := φ (l / 2) ^^ (l % 2 == 1)

lemma literalValue_congr {φ ψ : Nat → Bool} {l : Nat} (h : φ (l / 2) = ψ (l / 2)) :
    literalValue φ l = literalValue ψ l := by
  rw [literalValue, literalValue, h]

lemma literalValue_eq (φ : Nat → Bool) (l : Nat) :
    literalValue φ l = Connectives.bool.read φ (.ofLiteral l) := (read_bool φ (.ofLiteral l)).symm

/-- The values of the variables, read off their signals. -/
def Signals.values {M : Type} (A : Connectives M) (signals : Signals) (n : Network) (α : Nat → M)
    (v : Nat) : M :=
  (signals[v]?).elim A.bottom (A.read (n.interpret A α))

lemma values_of_getElem? {M : Type} {A : Connectives M} {signals : Signals} {n : Network}
    {α : Nat → M} {v : Nat} {s : Signal} (h : signals[v]? = some s) :
    signals.values A n α v = A.read (n.interpret A α) s := by
  rw [Signals.values, h]
  rfl

namespace Document

/-- **Values that a document denotes**, given those of the inputs: variable 0 is false, the
variable of the `k`-th input has the `k`-th value, and a definition is a conjunction. -/
structure Denotes (d : Document) (α φ : Nat → Bool) : Prop where
  constant : φ 0 = false
  input : ∀ (k v : Nat), d.inputs[k]? = some v → φ v = α k
  definition : ∀ e ∈ d.definitions,
    φ e.var = (literalValue φ e.rhs₀ && literalValue φ e.rhs₁)

/-- **Values that a document denotes** where the variables have values of another kind. -/
structure DenotesIn {M : Type} (A : Connectives M) (d : Document) (α φ : Nat → M) : Prop where
  constant : φ 0 = A.bottom
  input : ∀ (k v : Nat), d.inputs[k]? = some v → φ v = α k
  definition : ∀ e ∈ d.definitions,
    φ e.var = A.meet (A.read φ (.ofLiteral e.rhs₀)) (A.read φ (.ofLiteral e.rhs₁))

/-- **A variable that has a value**: the constant, an input or a defined variable. -/
def Defines (d : Document) (v : Nat) : Prop :=
  v = 0 ∨ v ∈ d.inputs ∨ ∃ e ∈ d.definitions, e.var = v

/-- A variable is defined by means of another one. -/
def Refers (d : Document) (v u : Nat) : Prop :=
  ∃ e ∈ d.definitions, e.var = v ∧ (e.rhs₀ / 2 = u ∨ e.rhs₁ / 2 = u)

/-- **Definitions that lead somewhere**: each refers to variables that have values, and none to
itself, be it through others. -/
structure Founded (d : Document) : Prop where
  defines : ∀ v u, d.Refers v u → d.Defines u
  acyclic : ∀ v, ¬ TransGen d.Refers v v

/-- A definition whose literals have values. -/
def Grounds (d : Document) (e : Definition) : Prop :=
  d.Defines (e.rhs₀ / 2) ∧ d.Defines (e.rhs₁ / 2)

variable {M : Type} {A : Connectives M} {α φ : Nat → M} {d : Document} {e : Definition}
  {ds : List Definition} {u v : Nat}

lemma denotes_iff {α φ : Nat → Bool} : d.Denotes α φ ↔ d.DenotesIn .bool α φ := by
  constructor
  · rintro ⟨hconstant, hinput, hdefinition⟩
    simp only [literalValue_eq] at hdefinition
    exact ⟨hconstant, hinput, hdefinition⟩
  · rintro ⟨hconstant, hinput, hdefinition⟩
    refine ⟨hconstant, hinput, ?_⟩
    simp only [literalValue_eq]
    exact hdefinition

/-! ### One line more -/

lemma denotesIn_snoc_input : DenotesIn A { d with inputs := d.inputs ++ [v] } α φ ↔
    d.DenotesIn A α φ ∧ φ v = α d.inputs.length := by
  constructor
  · rintro ⟨hconstant, hinput, hdefinition⟩
    refine ⟨⟨hconstant, ?_, hdefinition⟩, ?_⟩
    · intro k u hk
      refine hinput k u ?_
      rw [List.getElem?_append_left (List.getElem?_eq_some_iff.mp hk).1]
      exact hk
    · exact hinput d.inputs.length v List.getElem?_concat_length
  · rintro ⟨⟨hconstant, hinput, hdefinition⟩, hv⟩
    refine ⟨hconstant, ?_, hdefinition⟩
    intro k u hk
    rcases Nat.lt_trichotomy k d.inputs.length with hlt | rfl | hgt
    · rw [List.getElem?_append_left hlt] at hk
      exact hinput k u hk
    · rw [List.getElem?_concat_length, Option.some.injEq] at hk
      rw [← hk, hv]
    · rw [List.getElem?_eq_none (by simpa using hgt)] at hk
      cases hk

lemma defines_snoc_input : Defines { d with inputs := d.inputs ++ [v] } u ↔
    d.Defines u ∨ u = v := by
  simp only [Defines, List.mem_append, List.mem_singleton, or_assoc, or_comm (a := u = v)]

lemma denotesIn_cons : DenotesIn A { d with definitions := e :: d.definitions } α φ ↔
    d.DenotesIn A α φ ∧
      φ e.var = A.meet (A.read φ (.ofLiteral e.rhs₀)) (A.read φ (.ofLiteral e.rhs₁)) := by
  constructor
  · rintro ⟨hconstant, hinput, hdefinition⟩
    obtain ⟨he, hrest⟩ := List.forall_mem_cons.mp hdefinition
    exact ⟨⟨hconstant, hinput, hrest⟩, he⟩
  · rintro ⟨⟨hconstant, hinput, hrest⟩, he⟩
    exact ⟨hconstant, hinput, List.forall_mem_cons.mpr ⟨he, hrest⟩⟩

lemma defines_cons : Defines { d with definitions := e :: d.definitions } v ↔
    d.Defines v ∨ v = e.var := by
  simp only [Defines, List.exists_mem_cons_iff, eq_comm (a := e.var), or_assoc,
    or_comm (a := v = e.var)]

lemma refers_cons : Refers { d with definitions := e :: d.definitions } v u ↔
    (e.var = v ∧ (e.rhs₀ / 2 = u ∨ e.rhs₁ / 2 = u)) ∨ d.Refers v u := by
  simp only [Refers, List.exists_mem_cons_iff]

/-- **A new variable that is defined by variables that have values** leaves the definitions
founded: nothing refers to it yet. -/
lemma Founded.cons (h : d.Founded) (hgrounds : d.Grounds e) (hnew : ¬ d.Defines e.var) :
    Founded { d with definitions := e :: d.definitions } := by
  have htarget : ∀ v u, Refers { d with definitions := e :: d.definitions } v u → d.Defines u := by
    intro v u hrefers
    rcases refers_cons.mp hrefers with ⟨-, rfl | rfl⟩ | hrefers
    · exact hgrounds.1
    · exact hgrounds.2
    · exact h.defines v u hrefers
  have hold : ∀ {v u}, TransGen (Refers { d with definitions := e :: d.definitions }) v u →
      d.Defines v → TransGen d.Refers v u := by
    intro v u hway
    have hstep : ∀ {w x}, Refers { d with definitions := e :: d.definitions } w x →
        d.Defines w → d.Refers w x := by
      intro w x hrefers hw
      refine (refers_cons.mp hrefers).resolve_left ?_
      rintro ⟨rfl, -⟩
      exact hnew hw
    induction hway using TransGen.head_induction_on with
    | single hrefers => exact fun hv => .single (hstep hrefers hv)
    | head hrefers _ ih => exact fun hv => .head (hstep hrefers hv) (ih (htarget _ _ hrefers))
  refine ⟨fun v u hrefers => defines_cons.mpr (.inl (htarget v u hrefers)), ?_⟩
  intro v hcycle
  obtain ⟨w, -, hlast⟩ := TransGen.tail'_iff.mp hcycle
  exact h.acyclic v (hold hcycle (htarget w v hlast))

instance (d : Document) (v : Nat) : Decidable (d.Defines v) :=
  inferInstanceAs (Decidable (v = 0 ∨ v ∈ d.inputs ∨ ∃ e ∈ d.definitions, e.var = v))

instance (d : Document) (e : Definition) : Decidable (d.Grounds e) :=
  inferInstanceAs (Decidable (_ ∧ _))

/-- **Definitions by lower variables** are founded. -/
lemma Founded.of_lt (h : ∀ e ∈ d.definitions, d.Grounds e ∧ e.rhs₀ / 2 < e.var ∧
    e.rhs₁ / 2 < e.var) : d.Founded := by
  have hlt : ∀ v u, TransGen d.Refers v u → u < v := by
    have hstep : ∀ v u, d.Refers v u → u < v := by
      rintro v u ⟨e, he, rfl, rfl | rfl⟩
      · exact (h e he).2.1
      · exact (h e he).2.2
    intro v u hway
    induction hway with
    | single hrefers => exact hstep v _ hrefers
    | tail _ hrefers ih => exact (hstep _ _ hrefers).trans ih
  refine ⟨?_, fun v hcycle => Nat.lt_irrefl v (hlt v v hcycle)⟩
  rintro v u ⟨e, he, -, rfl | rfl⟩
  · exact (h e he).1.1
  · exact (h e he).1.2

/-! ### The order of the definitions -/

section Perm

variable (h : ds.Perm d.definitions)

include h

lemma denotesIn_perm : DenotesIn A { d with definitions := ds } α φ ↔ d.DenotesIn A α φ := by
  constructor
  · rintro ⟨hconstant, hinput, hdefinition⟩
    exact ⟨hconstant, hinput, fun e he => hdefinition e (h.mem_iff.mpr he)⟩
  · rintro ⟨hconstant, hinput, hdefinition⟩
    exact ⟨hconstant, hinput, fun e he => hdefinition e (h.mem_iff.mp he)⟩

lemma defines_perm : Defines { d with definitions := ds } v ↔ d.Defines v := by
  simp only [Defines, h.mem_iff]

lemma founded_perm : Founded { d with definitions := ds } ↔ d.Founded := by
  have hrefers : Refers { d with definitions := ds } = d.Refers := by
    funext v u
    simp only [Refers, h.mem_iff]
  constructor
  · rintro ⟨hdefines, hacyclic⟩
    rw [hrefers] at hdefines hacyclic
    exact ⟨fun v u huv => (defines_perm h).mp (hdefines v u huv), hacyclic⟩
  · rintro ⟨hdefines, hacyclic⟩
    refine ⟨?_, hrefers ▸ hacyclic⟩
    intro v u huv
    rw [hrefers] at huv
    exact (defines_perm h).mpr (hdefines v u huv)

end Perm

/-- **Definitions that wait for each other** are not founded: where each refers to a variable
without a value, following the references never ends. -/
lemma not_founded_of_stuck (hne : ds ≠ []) (hstuck : ∀ e ∈ ds, ¬ d.Grounds e) :
    ¬ Founded { d with definitions := ds ++ d.definitions } := by
  intro h
  -- what a waiting definition lacks is the variable of another one
  have hnext : ∀ e ∈ ds, ∃ e' ∈ ds, Refers { d with definitions := ds ++ d.definitions }
      e.var e'.var := by
    intro e he
    have hlacks : ∀ u, (e.rhs₀ / 2 = u ∨ e.rhs₁ / 2 = u) → ¬ d.Defines u →
        ∃ e' ∈ ds, Refers { d with definitions := ds ++ d.definitions } e.var e'.var := by
      intro u hu hundefined
      have hrefers : Refers { d with definitions := ds ++ d.definitions } e.var u :=
        ⟨e, List.mem_append_left _ he, rfl, hu⟩
      rcases h.defines _ _ hrefers with hzero | hinput | ⟨e', he', rfl⟩
      · exact absurd (.inl hzero) hundefined
      · exact absurd (.inr (.inl hinput)) hundefined
      · rcases List.mem_append.mp he' with he' | he'
        · exact ⟨e', he', hrefers⟩
        · exact absurd (.inr (.inr ⟨e', he', rfl⟩)) hundefined
    rcases not_and_or.mp (hstuck e he) with hlack | hlack
    · exact hlacks _ (.inl rfl) hlack
    · exact hlacks _ (.inr rfl) hlack
  let R : { e // e ∈ ds } → { e // e ∈ ds } → Prop := fun e' e =>
    TransGen (Refers { d with definitions := ds ++ d.definitions }) e.1.var e'.1.var
  have : IsTrans _ R := ⟨fun _ _ _ hab hbc => hbc.trans hab⟩
  have : Std.Irrefl R := ⟨fun e => h.acyclic e.1.var⟩
  have hwf : WellFounded R := Finite.wellFounded_of_trans_of_irrefl R
  obtain ⟨e, he⟩ := List.exists_mem_of_ne_nil ds hne
  obtain ⟨last, -, hlast⟩ := hwf.has_min Set.univ ⟨⟨e, he⟩, trivial⟩
  obtain ⟨e', he', hrefers⟩ := hnext last.1 last.2
  exact hlast ⟨e', he'⟩ trivial (.single hrefers)

/-! ### Networks with these values -/

/-- **A network under construction**: the variables with a value have live signals, and whatever
the connectives, a document denotes exactly the values of these. -/
structure Represents (d : Document) (signals : Signals) (n : Network) : Prop where
  wellFormed : n.WellFormed
  acyclic : n.Acyclic
  inputs : n.inputs.size = d.inputs.length
  gates_le : n.gates.length ≤ d.definitions.length
  /-- No node is dead. -/
  isLive_of_lt : ∀ v, v < n.size → n.isLive v = true
  /-- Every gate was made for a variable. -/
  exists_var : ∀ g, n.isLiveGate g = true → ∃ v : Nat, signals[v]? = some (.ofNode g)
  defines : ∀ v, v ∈ signals ↔ d.Defines v
  isLive : ∀ (v : Nat) (s : Signal), signals[v]? = some s → n.isLive s.node = true
  founded : d.Founded
  denotesIn : ∀ {M : Type} (A : Connectives M), A.Lawful → ∀ α φ,
    d.DenotesIn A α φ ↔ ∀ v, d.Defines v → φ v = signals.values A n α v

variable {signals : Signals} {n m : Network} {s f g : Signal} {l : Nat}

/-- What is known stays known when a new variable gets a signal. -/
lemma getElem?_insert_of_new (hnew : ¬ d.Defines v) (hu : d.Defines u) :
    (signals.insert v s)[u]? = signals[u]? := by
  have hne : v ≠ u := by
    rintro rfl
    exact hnew hu
  rw [Std.HashMap.getElem?_insert, if_neg (by simpa using hne)]

namespace Represents

/-- The truth values. -/
lemma denotes (h : d.Represents signals n) (α φ : Nat → Bool) :
    d.Denotes α φ ↔ ∀ v, d.Defines v → φ v = signals.values .bool n α v :=
  denotes_iff.trans (h.denotesIn .bool Connectives.bool_lawful α φ)

/-- A variable that has a value has a signal. -/
lemma exists_getElem? (h : d.Represents signals n) (hv : d.Defines v) :
    ∃ s, signals[v]? = some s :=
  Option.isSome_iff_exists.mp (Std.HashMap.isSome_getElem?_iff_mem.mpr ((h.defines v).mpr hv))

/-- A literal whose variable has a value has a signal with its value. -/
lemma exists_signal (h : d.Represents signals n) (hl : d.Defines (l / 2)) :
    ∃ f, signals.ofLiteral? l = some f ∧ n.isLive f.node = true ∧
      ∀ {M : Type} {A : Connectives M}, A.Lawful → ∀ α,
        A.read (signals.values A n α) (.ofLiteral l) = A.read (n.interpret A α) f := by
  obtain ⟨s, hs⟩ := h.exists_getElem? hl
  refine ⟨s.complementIf (l % 2 == 1), ?_, ?_, ?_⟩
  · rw [Signals.ofLiteral?, hs, Option.map_some]
  · rw [Signal.node_complementIf]
    exact h.isLive _ s hs
  · intro M A hA α
    rw [Connectives.read_complementIf hA, ← values_of_getElem? hs]
    rfl

/-- A literal whose variable has no value has no signal. -/
lemma ofLiteral?_eq_none (h : d.Represents signals n) (hl : ¬ d.Defines (l / 2)) :
    signals.ofLiteral? l = none := by
  rw [Signals.ofLiteral?, Std.HashMap.getElem?_eq_none fun hmem => hl ((h.defines _).mp hmem)]
  rfl

/-- What has a signal has a value. -/
lemma defines_of_getElem? (h : d.Represents signals n) (hs : signals[v]? = some s) :
    d.Defines v :=
  (h.defines v).mp (Std.HashMap.isSome_getElem?_iff_mem.mp (Option.isSome_iff_exists.mpr ⟨s, hs⟩))

/-- **One variable more**, which gets a live signal. -/
lemma insert (h : d.Represents signals n) (d' : Document)
    (hlives : ∀ u, n.isLive u = true → m.isLive u = true) (hs : m.isLive s.node = true)
    (hdefines : ∀ u, d'.Defines u ↔ d.Defines u ∨ u = v) :
    (∀ u, u ∈ Std.HashMap.insert signals v s ↔ d'.Defines u) ∧
      ∀ (u : Nat) (t : Signal), (signals.insert v s)[u]? = some t → m.isLive t.node = true := by
  refine ⟨?_, ?_⟩
  · intro u
    rw [Std.HashMap.mem_insert, h.defines, hdefines, beq_iff_eq, or_comm, eq_comm]
  · intro u t ht
    rw [Std.HashMap.getElem?_insert] at ht
    split at ht
    · exact Option.some.inj ht ▸ hs
    · exact hlives _ (h.isLive u t ht)

/-- **One variable more**, with the value that the new line asks for. -/
lemma insert_denotesIn {F : (Nat → M) → (Nat → M) → M} (h : d.Represents signals n)
    (hA : A.Lawful) (d' : Document) (hnew : ¬ d.Defines v)
    (hkeeps : ∀ α u, n.isLive u = true → m.interpret A α u = n.interpret A α u)
    (hdefines : ∀ u, d'.Defines u ↔ d.Defines u ∨ u = v)
    (hdenotes : ∀ α φ, d'.DenotesIn A α φ ↔ d.DenotesIn A α φ ∧ φ v = F α φ)
    (hvalue : ∀ α φ, d.DenotesIn A α φ → F α φ = A.read (m.interpret A α) s) (α φ : Nat → M) :
    d'.DenotesIn A α φ ↔
      ∀ u, d'.Defines u → φ u = Signals.values A (signals.insert v s) m α u := by
  have hold : ∀ u, d.Defines u →
      Signals.values A (signals.insert v s) m α u = signals.values A n α u := by
    intro u hu
    obtain ⟨t, ht⟩ := h.exists_getElem? hu
    rw [values_of_getElem? ht, values_of_getElem? ((getElem?_insert_of_new hnew hu).trans ht)]
    exact Connectives.read_congr (hkeeps α _ (h.isLive u t ht))
  have hself : Signals.values A (signals.insert v s) m α v = A.read (m.interpret A α) s :=
    values_of_getElem? Std.HashMap.getElem?_insert_self
  rw [hdenotes]
  constructor
  · rintro ⟨hφ, hv⟩ u hu
    rcases (hdefines u).mp hu with hu | rfl
    · rw [hold u hu]
      exact (h.denotesIn A hA α φ).mp hφ u hu
    · rw [hv, hvalue α φ hφ, hself]
  · intro hall
    have hφ : d.DenotesIn A α φ := by
      refine (h.denotesIn A hA α φ).mpr ?_
      intro u hu
      rw [← hold u hu]
      exact hall u ((hdefines u).mpr (.inl hu))
    refine ⟨hφ, ?_⟩
    rw [hall v ((hdefines v).mpr (.inr rfl)), hself, hvalue α φ hφ]

/-- A gate that was there was made for a variable that is still known. -/
lemma exists_var_insert (h : d.Represents signals n) (hnew : ¬ d.Defines v) {i : Nat}
    (hi : n.isLiveGate i = true) : ∃ u : Nat, (signals.insert v s)[u]? = some (.ofNode i) := by
  obtain ⟨u, hu⟩ := h.exists_var i hi
  exact ⟨u, (getElem?_insert_of_new hnew (h.defines_of_getElem? hu)).trans hu⟩

/-- **One input more.** -/
lemma addInput (h : d.Represents signals n) (hnew : ¬ d.Defines v)
    (hrun : Edit.addInput n = .ok s m) :
    Represents { d with inputs := d.inputs ++ [v] } (signals.insert v s) m := by
  obtain ⟨ha, rfl, hinputs, -, hgates, -⟩ := addInput_effect hrun
  obtain ⟨hm, hmacyclic, -, hlive⟩ := addInput_spec h.wellFormed hrun
  have hvalues := fun {M : Type} (A : Connectives M) (α : Nat → M) =>
    addInput_interpret (A := A) (α := α) h.wellFormed h.acyclic hrun
  have hvalue : ∀ {M : Type} (A : Connectives M) (α φ : Nat → M), d.DenotesIn A α φ →
      α d.inputs.length = A.read (m.interpret A α) (.ofNode n.size) := by
    intro M A α φ _
    rw [← h.inputs]
    exact (hvalues A α).2.symm
  obtain ⟨hdefines, hlives⟩ := h.insert (s := .ofNode n.size)
    { d with inputs := d.inputs ++ [v] } (fun u => ha.isLive) hlive (fun _ => defines_snoc_input)
  refine ⟨hm, hmacyclic h.acyclic, ?_, ?_, ?_, ?_, hdefines, hlives, ?_, ?_⟩
  · rw [hinputs, Array.size_push, h.inputs, List.length_append, List.length_singleton]
  · rw [← hm.liveGates_eq, hgates, h.wellFormed.liveGates_eq]
    exact h.gates_le
  · exact fun u => ha.isLive_of_lt h.isLive_of_lt
  · intro i hi
    obtain ⟨a, b, hg⟩ := isLiveGate_iff.mp hi
    exact h.exists_var_insert hnew (isLiveGate_iff.mpr ⟨a, b, (ha.gate_of_source rfl).mp hg⟩)
  · refine ⟨?_, h.founded.acyclic⟩
    intro v u hrefers
    exact defines_snoc_input.mpr (.inl (h.founded.defines v u hrefers))
  · intro M A hA
    exact h.insert_denotesIn hA { d with inputs := d.inputs ++ [v] } hnew
      (fun α u => (hvalues A α).1 u) (fun _ => defines_snoc_input)
      (fun _ _ => denotesIn_snoc_input) (hvalue A)

/-- **One definition more**, whose literals have values. -/
lemma addAnd (h : d.Represents signals n) (hnew : ¬ d.Defines e.var) (hgrounds : d.Grounds e)
    (hf : signals.ofLiteral? e.rhs₀ = some f) (hg : signals.ofLiteral? e.rhs₁ = some g)
    (hrun : Edit.addAnd f g n = .ok s m) :
    Represents { d with definitions := e :: d.definitions } (signals.insert e.var s) m := by
  obtain ⟨-, -, hm, hext, -, hlive, hand⟩ := addAnd_spec h.wellFormed hrun
  have hmacyclic := hext.acyclic h.acyclic h.wellFormed.fanIns_live
  have hkeeps : ∀ {M : Type} (A : Connectives M) (α : Nat → M) u, n.isLive u = true →
      m.interpret A α u = n.interpret A α u :=
    fun A α u hu => hext.interpret h.wellFormed h.acyclic hm hu
  have hliteral : ∀ {M : Type} {A : Connectives M}, A.Lawful → ∀ {l t}, d.Defines (l / 2) →
      signals.ofLiteral? l = some t → ∀ {α φ}, d.DenotesIn A α φ →
        A.read φ (.ofLiteral l) = A.read (m.interpret A α) t := by
    intro M A hA l t hl ht α φ hφ
    obtain ⟨t', ht', htlive, hvalue⟩ := h.exists_signal hl
    obtain rfl : t' = t := Option.some.inj (ht'.symm.trans ht)
    calc A.read φ (.ofLiteral l)
        = A.read (signals.values A n α) (.ofLiteral l) :=
          Connectives.read_congr ((h.denotesIn A hA α φ).mp hφ _ hl)
      _ = A.read (n.interpret A α) t' := hvalue hA α
      _ = A.read (m.interpret A α) t' := (Connectives.read_congr (hkeeps A α _ htlive)).symm
  have hvalue : ∀ {M : Type} {A : Connectives M}, A.Lawful → ∀ α φ, d.DenotesIn A α φ →
      A.meet (A.read φ (.ofLiteral e.rhs₀)) (A.read φ (.ofLiteral e.rhs₁))
        = A.read (m.interpret A α) s := by
    intro M A hA α φ hφ
    rw [hliteral hA hgrounds.1 hf hφ, hliteral hA hgrounds.2 hg hφ]
    exact (hand.read hA (models_interpret hm hmacyclic)).symm
  obtain ⟨hdefines, hlives⟩ := h.insert { d with definitions := e :: d.definitions }
    (fun _ => hext.isLive) hlive (fun _ => defines_cons)
  refine ⟨hm, hmacyclic, ?_, ?_, ?_, ?_, hdefines, hlives, h.founded.cons hgrounds hnew, ?_⟩
  · rw [hext.inputs, h.inputs]
  · exact (addAnd_length_gates_le h.wellFormed hrun).trans (Nat.succ_le_succ h.gates_le)
  · intro u hu
    obtain rfl | ⟨key, -, happends, rfl⟩ := addAnd_cases hrun
    · exact h.isLive_of_lt u hu
    · exact happends.isLive_of_lt h.isLive_of_lt hu
  · intro i hi
    obtain rfl | ⟨key, -, happends, rfl⟩ := addAnd_cases hrun
    · exact h.exists_var_insert hnew hi
    · obtain rfl | hne := eq_or_ne i n.size
      · exact ⟨e.var, Std.HashMap.getElem?_insert_self⟩
      · obtain ⟨a, b, hgate⟩ := isLiveGate_iff.mp hi
        exact h.exists_var_insert hnew (isLiveGate_iff.mpr ⟨a, b, (happends.gate hne).mp hgate⟩)
  · intro M A hA
    exact h.insert_denotesIn hA { d with definitions := e :: d.definitions } hnew (hkeeps A)
      (fun _ => defines_cons) (fun _ _ => denotesIn_cons) (hvalue hA)

/-- Outputs do not matter. -/
lemma addOutput {k : Nat} (h : d.Represents signals n) (hrun : Edit.addOutput s n = .ok k m) :
    d.Represents signals m ∧ ∀ α, m.outputValues .bool α
      = n.outputValues .bool α ++ [Connectives.bool.read (n.interpret .bool α) s] := by
  obtain ⟨hm, hsame, houtputs, -⟩ := addOutput_spec h.wellFormed hrun
  refine ⟨⟨hm, ?_, ?_, ?_, ?_, ?_, h.defines, ?_, h.founded, ?_⟩, ?_⟩
  · exact h.acyclic.mono fun _ _ hread => hsame.reads.mp hread
  · rw [hsame.inputs, h.inputs]
  · rw [← hm.liveGates_eq, hsame.liveGates, h.wellFormed.liveGates_eq]
    exact h.gates_le
  · intro v hv
    rw [hsame.isLive]
    exact h.isLive_of_lt v (hsame.size ▸ hv)
  · intro i hi
    obtain ⟨a, b, hg⟩ := isLiveGate_iff.mp hi
    exact h.exists_var i (isLiveGate_iff.mpr ⟨a, b, hsame.gate.mp hg⟩)
  · intro v t ht
    rw [hsame.isLive]
    exact h.isLive v t ht
  · intro M A hA α φ
    have hvalues : signals.values A m α = signals.values A n α := by
      funext v
      rw [Signals.values, Signals.values, hsame.interpret]
    rw [hvalues]
    exact h.denotesIn A hA α φ
  · intro α
    rw [outputValues, houtputs, Array.toList_push, List.map_append, hsame.interpret]
    rfl

/-- The order of the definitions does not matter. -/
lemma perm {ds : List Definition} (h : Represents { d with definitions := ds } signals n)
    (hperm : ds.Perm d.definitions) : d.Represents signals n where
  wellFormed := h.wellFormed
  acyclic := h.acyclic
  inputs := h.inputs
  gates_le := h.gates_le.trans hperm.length_eq.le
  isLive_of_lt := h.isLive_of_lt
  exists_var := h.exists_var
  defines v := (h.defines v).trans (defines_perm hperm)
  isLive := h.isLive
  founded := (founded_perm hperm).mp h.founded
  denotesIn A hA α φ := by
    rw [← denotesIn_perm hperm, h.denotesIn A hA]
    simp only [defines_perm hperm]

end Represents

/-- **Where every file begins**: the constant has its value. -/
lemma represents_empty (k : Nat) (outputs : List Nat) :
    Represents ⟨k, [], outputs, []⟩ ((∅ : Signals).insert 0 .zero) .empty := by
  obtain ⟨hn, hacyclic⟩ := wellFormed_empty
  have hdefines : ∀ v, Defines ⟨k, [], outputs, []⟩ v ↔ v = 0 := by simp [Defines]
  have hzero : ((∅ : Signals).insert 0 .zero)[0]? = some .zero := Std.HashMap.getElem?_insert_self
  have hvalue : ∀ {M : Type} (A : Connectives M) (α : Nat → M),
      Signals.values A ((∅ : Signals).insert 0 .zero) .empty α 0 = A.bottom := by
    intro M A α
    rw [values_of_getElem? hzero]
    exact (models_interpret (A := A) (α := α) hn hacyclic).zero
  refine ⟨hn, hacyclic, rfl, ?_, ?_, ?_, ?_, ?_, ?_, ?_⟩
  · rw [← hn.liveGates_eq]
    exact le_rfl
  · intro v hv
    obtain rfl : v = 0 := Nat.lt_one_iff.mp hv
    exact hn.isLive_zero
  · intro g hg
    obtain ⟨a, b, hgate⟩ := isLiveGate_iff.mp hg
    exact absurd hgate not_gate_empty
  · intro v
    rw [hdefines, Std.HashMap.mem_insert, beq_iff_eq, eq_comm]
    exact or_iff_left Std.HashMap.not_mem_empty
  · intro v s hs
    rw [Std.HashMap.getElem?_insert] at hs
    split at hs
    · exact Option.some.inj hs ▸ hn.isLive_zero
    · simp at hs
  · refine ⟨?_, ?_⟩
    · rintro v u ⟨e, he, -⟩
      cases he
    · intro v hcycle
      obtain ⟨u, ⟨e, he, -⟩, -⟩ := TransGen.head'_iff.mp hcycle
      cases he
  · intro M A _ α φ
    simp only [hdefines, forall_eq, hvalue]
    exact ⟨DenotesIn.constant, fun hφ => ⟨hφ, nofun, nofun⟩⟩

end Document

end AndInverter.Aiger
