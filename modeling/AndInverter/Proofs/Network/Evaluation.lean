import AndInverter.Proofs.Network.Cycle

/-!
What the nodes of a network compute.  A truth value comes to a node from its fan-ins, so a gate
that depends on itself has none: values are a relation, and an acyclic network is where every
live node has one.

* `Network.Evaluates`: a node has a truth value under an assignment of the inputs;
* `Network.Computes`: a signal computes a function of the inputs;
* `Network.KeepsFunctions`: what is live afterwards, and every output, computes what it did;
* `substitute_keepsFunctions_iff`: exactly when a substitution by an equivalent signal does so.
-/

namespace AndInverter

open Network Relation

namespace Network

variable {n m : Network} {g u v old : Nat} {a b s t new : Signal} {x y : Bool}
  {α : Nat → Bool} {f : (Nat → Bool) → Bool} {pins : Multiset Nat}

/-! ### Values from below -/

/-- **The truth value of a node** under an assignment of the inputs, as far as it has one. -/
inductive Evaluates (n : Network) (α : Nat → Bool) : Nat → Bool → Prop
  | constant : n.Evaluates α 0 false
  | input {i v : Nat} (h : n.inputs[i]? = some v) : n.Evaluates α v (α i)
  | gate {g : Nat} {a b : Signal} {x y : Bool} (h : n.Gate g a b)
      (ha : n.Evaluates α a.node x) (hb : n.Evaluates α b.node y) :
      n.Evaluates α g ((x ^^ a.complemented) && (y ^^ b.complemented))

/-- The truth value of a gate. -/
lemma bool_gate {φ : Nat → Bool} (hφ : Connectives.bool.Models α φ n) (hg : n.Gate g a b) :
    φ g = ((φ a.node ^^ a.complemented) && (φ b.node ^^ b.complemented)) :=
  calc φ g = Connectives.bool.meet (Connectives.bool.read φ a) (Connectives.bool.read φ b) :=
        hφ.gate g a b hg
    _ = ((φ a.node ^^ a.complemented) && (φ b.node ^^ b.complemented)) := by
        rw [read_bool, read_bool, Connectives.bool]

/-- A model has the values that come from below. -/
lemma Evaluates.eq_of_models {φ : Nat → Bool} (h : n.Evaluates α v x)
    (hφ : Connectives.bool.Models α φ n) : φ v = x := by
  induction h with
  | constant => exact hφ.zero
  | input h => exact hφ.input _ _ h
  | gate hg _ _ iha ihb => rw [bool_gate hφ hg, iha, ihb]

/-- **In an acyclic network every live node has a value**, the one that is computed. -/
lemma evaluates_interpret (hn : n.Consistent pins) (h : n.Acyclic) (hv : n.isLive v = true) :
    n.Evaluates α v (n.interpret .bool α v) := by
  have hφ := models_interpret (A := .bool) (α := α) hn h
  revert hv
  refine h.induction (P := fun v => n.isLive v = true →
    n.Evaluates α v (n.interpret .bool α v)) ?_ v
  intro v ih hv
  obtain ⟨k, hk⟩ := isLive_iff.mp hv
  have hkind : n.kind? v = some k := by rw [kind?, hk, Option.map_some]
  cases k with
  | constant =>
      obtain rfl := (hn.constant_iff v).mp hkind
      rw [hφ.zero]
      exact .constant
  | input i =>
      have hi := (hn.input_iff i v).mpr hkind
      rw [hφ.input i v hi]
      exact .input hi
  | gate a b =>
      have hg : n.Gate v a b := gate_iff.mpr hk
      obtain ⟨hla, hlb⟩ := hn.fanIns_live v a b hg
      rw [bool_gate hφ hg]
      exact .gate hg (ih a.node hg.reads_left hla) (ih b.node hg.reads_right hlb)

/-- **Values end where a cycle begins**: nothing in the cone of a node with a value depends on
itself. -/
lemma Evaluates.not_cycle (h : n.Evaluates α v x) (hn : n.Consistent pins) :
    ∀ u, n.DependsOn v u → ¬ TransGen n.Reads u u := by
  have hsource : ∀ {w}, ¬ n.isLiveGate w = true →
      ∀ u, n.DependsOn w u → ¬ TransGen n.Reads u u := by
    intro w hw u hdep hcycle
    obtain rfl := hdep.eq_of_not_gate hw
    obtain ⟨_, ⟨a, b, hg, -⟩, -⟩ := TransGen.head'_iff.mp hcycle
    exact hw (isLiveGate_iff.mpr ⟨a, b, hg⟩)
  induction h with
  | constant =>
      refine hsource ?_
      intro hgate
      obtain ⟨a, b, hg⟩ := isLiveGate_iff.mp hgate
      exact hn.ne_zero_of_gate hg rfl
  | @input i w h =>
      refine hsource ?_
      intro hgate
      obtain ⟨a, b, hg⟩ := isLiveGate_iff.mp hgate
      have hkind := (hn.input_iff i w).mp h
      rw [kind?, gate_iff.mp hg] at hkind
      cases hkind
  | @gate g a b x y hg ha hb iha ihb =>
      have hbelow : ∀ w u, n.Reads g w → n.DependsOn w u → ¬ TransGen n.Reads u u := by
        rintro w u ⟨c, d, hg', hw⟩ hdep
        obtain ⟨rfl, rfl⟩ := hg.unique hg'
        rcases hw with rfl | rfl
        · exact iha u hdep
        · exact ihb u hdep
      intro u hdep hcycle
      rcases hdep.cases_head with rfl | ⟨w, hread, hdep⟩
      · -- the gate itself: its way back starts at a fan-in, which depends on it then
        obtain ⟨w, hread, hback⟩ := TransGen.head'_iff.mp hcycle
        exact hbelow w g hread hback hcycle
      · exact hbelow w u hread hdep hcycle

/-- **The same cone**: what a node depends on in one network is the same in another one. -/
def SameCone (n m : Network) (v : Nat) : Prop := ∀ u, n.DependsOn v u → m.shape u = n.shape u

/-- The value of a node depends on its cone alone, and on the inputs in it. -/
lemma Evaluates.of_sameCone {β : Nat → Bool} (h : n.Evaluates α v x) (hn : n.Consistent pins)
    (hm : m.Consistent pins) (hcone : n.SameCone m v)
    (hinputs : ∀ i u, n.inputs[i]? = some u → n.DependsOn v u → β i = α i) :
    m.Evaluates β v x := by
  induction h with
  | constant => exact .constant
  | @input i v hi =>
      have hkind : m.kind? v = some (.input i) := by
        rw [kind?, hcone v .refl]
        exact (hn.input_iff i v).mp hi
      rw [← hinputs i v hi .refl]
      exact .input ((hm.input_iff i v).mpr hkind)
  | gate hg _ _ iha ihb =>
      have hg' := gate_iff.mpr ((hcone _ .refl).trans (gate_iff.mp hg))
      refine .gate hg' (iha ?_ ?_) (ihb ?_ ?_)
      · exact fun u hdep => hcone u (hdep.head hg.reads_left)
      · exact fun i u hi hdep => hinputs i u hi (hdep.head hg.reads_left)
      · exact fun u hdep => hcone u (hdep.head hg.reads_right)
      · exact fun i u hi hdep => hinputs i u hi (hdep.head hg.reads_right)

/-- A network is acyclic if all its live nodes have values. -/
lemma acyclic_of_evaluates (hn : n.Consistent pins)
    (h : ∀ v, n.isLive v = true → ∃ x, n.Evaluates α v x) : n.Acyclic := by
  intro v hcycle
  obtain ⟨_, ⟨a, b, hg, -⟩, -⟩ := TransGen.head'_iff.mp hcycle
  obtain ⟨x, hx⟩ := h v hg.isLive
  exact hx.not_cycle hn v .refl hcycle

/-! ### Functions -/

/-- **A signal computes a function** of the inputs. -/
def Computes (n : Network) (s : Signal) (f : (Nat → Bool) → Bool) : Prop :=
  ∀ α, n.Evaluates α s.node (f α ^^ s.complemented)

/-- What a signal computes in an acyclic network. -/
lemma computes_interpret (hn : n.Consistent pins) (h : n.Acyclic)
    (hs : n.isLive s.node = true) :
    n.Computes s fun α => Connectives.bool.read (n.interpret .bool α) s := by
  intro α
  have hvalue : (Connectives.bool.read (n.interpret .bool α) s ^^ s.complemented)
      = n.interpret .bool α s.node := by
    rw [read_bool, Bool.xor_assoc, Bool.xor_self, Bool.xor_false]
  simp only [hvalue]
  exact evaluates_interpret hn h hs

/-- A signal has the values of the function that it computes. -/
lemma Computes.eq_of_models {φ : Nat → Bool} (h : n.Computes s f)
    (hφ : Connectives.bool.Models α φ n) : Connectives.bool.read φ s = f α := by
  rw [read_bool, (h α).eq_of_models hφ, Bool.xor_assoc, Bool.xor_self, Bool.xor_false]

/-- In an acyclic network a signal computes one function, which a model tells. -/
lemma computes_iff (hn : n.Consistent pins) (h : n.Acyclic) (hs : n.isLive s.node = true) :
    n.Computes s f ↔ ∀ α, Connectives.bool.read (n.interpret .bool α) s = f α := by
  constructor
  · intro hf α
    exact hf.eq_of_models (models_interpret hn h)
  · intro hf
    obtain rfl : (fun α => Connectives.bool.read (n.interpret .bool α) s) = f := funext hf
    exact computes_interpret hn h hs

/-- **All functions are kept**: what is live afterwards computes what it did before, and so does
the output at each position. -/
structure KeepsFunctions (n m : Network) : Prop where
  nodes : ∀ v, m.isLive v = true → ∀ f, m.Computes (.ofNode v) f ↔ n.Computes (.ofNode v) f
  outputs_size : m.outputs.size = n.outputs.size
  outputs : ∀ (i : Nat) (s t : Signal), n.outputs[i]? = some s → m.outputs[i]? = some t →
    ∀ f, m.Computes t f ↔ n.Computes s f

/-- No function is falsified: what computes a function afterwards computed it before. -/
structure FalsifiesNothing (n m : Network) : Prop where
  nodes : ∀ v, m.isLive v = true → ∀ f, m.Computes (.ofNode v) f → n.Computes (.ofNode v) f
  outputs_size : m.outputs.size = n.outputs.size
  outputs : ∀ (i : Nat) (s t : Signal), n.outputs[i]? = some s → m.outputs[i]? = some t →
    ∀ f, m.Computes t f → n.Computes s f

/-- Where the values of an acyclic network are values of another, no function is falsified. -/
lemma falsifiesNothing_of_models (hn : n.WellFormed) (hacyclic : n.Acyclic)
    (hlive : ∀ v, m.isLive v = true → n.isLive v = true)
    (hmodels : ∀ α : Nat → Bool, Connectives.bool.Models α (n.interpret .bool α) m ∧
      m.outputs.toList.map (Connectives.bool.read (n.interpret .bool α))
        = n.outputs.toList.map (Connectives.bool.read (n.interpret .bool α))) :
    n.FalsifiesNothing m where
  nodes v hv f hf := by
    refine (computes_iff hn hacyclic (hlive v hv)).mpr ?_
    intro α
    exact hf.eq_of_models (hmodels α).1
  outputs_size := by
    have hlength := congrArg List.length (hmodels fun _ => false).2
    simpa using hlength
  outputs i s t hs ht f hf := by
    obtain ⟨hi, rfl⟩ := Array.getElem?_eq_some_iff.mp hs
    refine (computes_iff hn hacyclic (hn.outputs_live _ (Array.getElem_mem hi))).mpr ?_
    intro α
    have hvalue := congrArg (·[i]?) (hmodels α).2
    simp only [List.getElem?_map, Array.getElem?_toList, hs, ht, Option.map_some,
      Option.some.injEq] at hvalue
    rw [← hvalue]
    exact hf.eq_of_models (hmodels α).1

/-- Where no function is falsified, all are kept if and only if the network is acyclic. -/
lemma FalsifiesNothing.keepsFunctions_iff (h : n.FalsifiesNothing m) (hn : n.WellFormed)
    (hacyclic : n.Acyclic) (hm : m.WellFormed)
    (hlive : ∀ v, m.isLive v = true → n.isLive v = true) :
    n.KeepsFunctions m ↔ m.Acyclic := by
  have hunique : ∀ {s : Signal} {f f' : (Nat → Bool) → Bool}, n.isLive s.node = true →
      n.Computes s f → n.Computes s f' → f = f' := by
    intro s f f' hs hf hf'
    rw [computes_iff hn hacyclic hs] at hf hf'
    funext α
    rw [← hf, hf']
  constructor
  · intro hkeeps
    refine acyclic_of_evaluates (α := fun _ => false) hm ?_
    intro v hv
    have hcomputes := (hkeeps.nodes v hv _).mpr (computes_interpret hn hacyclic (hlive v hv))
    exact ⟨_, hcomputes fun _ => false⟩
  · intro hmacyclic
    refine ⟨fun v hv f => ⟨h.nodes v hv f, ?_⟩, h.outputs_size, fun i s t hs ht f =>
      ⟨h.outputs i s t hs ht f, ?_⟩⟩
    · intro hf
      have hv' := computes_interpret (s := .ofNode v) hm hmacyclic hv
      rwa [hunique (s := .ofNode v) (hlive v hv) hf (h.nodes v hv _ hv')]
    · intro hf
      obtain ⟨hi, rfl⟩ := Array.getElem?_eq_some_iff.mp hs
      obtain ⟨hi', rfl⟩ := Array.getElem?_eq_some_iff.mp ht
      have ht' := computes_interpret hm hmacyclic (hm.outputs_live _ (Array.getElem_mem hi'))
      rwa [hunique (hn.outputs_live _ (Array.getElem_mem hi)) hf (h.outputs i _ _ hs ht _ ht')]

end Network

variable {n m : Network} {k old v : Nat} {new : Signal}

/-- **A substitution by an equivalent signal falsifies nothing**: no node and no output comes to
compute another function. -/
lemma substitute_falsifiesNothing (hn : n.WellFormed) (hacyclic : n.Acyclic)
    (hsame : ∀ f, n.Computes (.ofNode old) f ↔ n.Computes new f)
    (hrun : Edit.substitute old new n = .ok k m) : n.FalsifiesNothing m := by
  obtain ⟨-, hnewLive, -⟩ := substitute_run hrun
  obtain ⟨hm, hshrinks⟩ := substitute_wellFormed hn hrun
  have hagree : ∀ α, n.interpret .bool α old = Connectives.bool.read (n.interpret .bool α) new := by
    intro α
    have hnew := (hsame _).mpr (computes_interpret hn hacyclic hnewLive)
    rw [← hnew.eq_of_models (models_interpret (α := α) hn hacyclic), read_bool]
    exact (Bool.xor_false _).symm
  exact falsifiesNothing_of_models hn hacyclic hshrinks.isLive fun α =>
    substitute_models hn hrun Connectives.bool_lawful (models_interpret hn hacyclic) (hagree α)

/-- **Exactly when a substitution by an equivalent signal keeps all functions.**  It never makes
a node or an output compute another function; what is live keeps its function if and only if no
gate that was left behind depends on itself, for such a gate computes nothing any more. -/
theorem substitute_keepsFunctions_iff (hn : n.WellFormed) (hacyclic : n.Acyclic)
    (hcone : ¬ n.DependsOn new.node old)
    (hsame : ∀ f, n.Computes (.ofNode old) f ↔ n.Computes new f)
    (hrun : Edit.substitute old new n = .ok k m) :
    n.FalsifiesNothing m ∧ (n.KeepsFunctions m ↔
      ∀ g, n.LeftBehind old new m g → ¬ TransGen m.Reads g g) := by
  obtain ⟨hm, hshrinks⟩ := substitute_wellFormed hn hrun
  have hfalsifies := substitute_falsifiesNothing hn hacyclic hsame hrun
  refine ⟨hfalsifies, ?_⟩
  rw [hfalsifies.keepsFunctions_iff hn hacyclic hm hshrinks.isLive]
  exact substitute_acyclic_iff hn hacyclic hcone hrun

/-- A conjunction with one of its own fan-ins, replaced by what it is a conjunction of. -/
theorem substitute_keepsFunctions_iff_of_absorbed : ∃ (n m : Network) (k : Nat),
    Edit.substitute 4 (.ofNode 3) n = .ok k m ∧ m.isDead 4 = true ∧ n.FalsifiesNothing m ∧
      (n.KeepsFunctions m ↔ ∀ g, n.LeftBehind 4 (.ofNode 3) m g → ¬ TransGen m.Reads g g) := by
  let n := Network.empty.assemble [.input, .input, .gate 2 4, .gate 2 6, .output 8]
  have hends : (match Edit.substitute 4 (.ofNode 3) n with
    | .ok _ m => m.isDead 4 | .error _ _ => false) = true := by decide +kernel
  obtain ⟨hn, hacyclic⟩ : n.Sound := Network.Sound.assemble wellFormed_empty _
  have hcone : ¬ n.DependsOn 3 4 := fun hdep =>
    absurd (hdep.level_le hacyclic) (by decide +kernel)
  have hsame : ∀ f, n.Computes (.ofNode 4) f ↔ n.Computes (.ofNode 3) f := by
    intro f
    rw [computes_iff hn hacyclic (by decide +kernel), computes_iff hn hacyclic (by decide +kernel)]
    refine forall_congr' ?_
    intro α
    have hφ := models_interpret (A := .bool) (α := α) hn hacyclic
    have h3 : n.Gate 3 (.ofNode 1) (.ofNode 2) := by unfold Gate; decide +kernel
    have h4 : n.Gate 4 (.ofNode 1) (.ofNode 3) := by unfold Gate; decide +kernel
    have hvalue : n.interpret .bool α 4 = n.interpret .bool α 3 := by
      simp [bool_gate hφ h4, bool_gate hφ h3, Signal.ofNode]
    simp only [read_bool, Signal.ofNode, hvalue]
  cases hrun : Edit.substitute 4 (.ofNode 3) n with
  | error => simp [hrun] at hends
  | ok k m =>
      simp only [hrun] at hends
      obtain ⟨hfalsifies, hiff⟩ := substitute_keepsFunctions_iff hn hacyclic hcone hsame hrun
      exact ⟨n, m, k, hrun, hends, hfalsifies, hiff⟩

/-- A gate that is constantly false without being recognized as such, above which a gate is left
behind half-way when it is replaced by the constant. -/
def disguised : Network := Network.empty.assemble
  [.input, .input, .input, .input, .input, .input, .input, .input, .gate 2 4, .gate 2 5,
    .gate 18 20, .gate 23 6, .gate 22 12, .gate 26 14, .gate 24 8, .gate 6 8, .gate 29 6,
    .gate 34 8, .gate 36 10, .gate 38 16, .gate 26 40, .gate 30 43, .gate 32 43, .gate 44 10,
    .gate 46 10, .output 48, .output 50, .output 40]

/-- **Functions may get lost** when a gate is replaced by an equivalent signal. -/
theorem substitute_may_lose_functions : ¬ ∀ (n : Network) (old : Nat) (new : Signal) (k : Nat)
    (m : Network), n.WellFormed → n.Acyclic → n.isLiveGate old = true →
      n.isLive new.node = true → ¬ n.DependsOn new.node old →
        (∀ f, n.Computes (.ofNode old) f ↔ n.Computes new f) →
          Edit.substitute old new n = .ok k m → n.KeepsFunctions m := by
  intro h
  have hcycle : (match Edit.substitute 11 .zero disguised with
    | .ok _ m => (m.checkAcyclic "").isOk | .error _ _ => true) = false := by decide +kernel
  obtain ⟨hn, hacyclic⟩ : disguised.Sound := Network.Sound.assemble wellFormed_empty _
  have hcone : ¬ disguised.DependsOn 0 11 := fun hdep =>
    absurd (hdep.eq_of_not_gate (by decide +kernel)) (by decide)
  have hsame : ∀ f, disguised.Computes (.ofNode 11) f ↔ disguised.Computes .zero f := by
    intro f
    rw [computes_iff hn hacyclic (by decide +kernel), computes_iff hn hacyclic (by decide +kernel)]
    refine forall_congr' ?_
    intro α
    have hφ := models_interpret (A := .bool) (α := α) hn hacyclic
    have h9 : disguised.Gate 9 (.ofNode 1) (.ofNode 2) := by unfold Gate; decide +kernel
    have h10 : disguised.Gate 10 (.ofNode 1) ⟨2, true⟩ := by unfold Gate; decide +kernel
    have h11 : disguised.Gate 11 (.ofNode 9) (.ofNode 10) := by unfold Gate; decide +kernel
    have hvalue : disguised.interpret .bool α 11 = disguised.interpret .bool α 0 := by
      rw [bool_gate hφ h11, hφ.zero]
      simp only [Signal.ofNode, bool_gate hφ h9, bool_gate hφ h10]
      cases disguised.interpret .bool α 2 <;> simp [Connectives.bool]
    simp only [read_bool, Signal.ofNode, Signal.zero, hvalue]
  cases hrun : Edit.substitute 11 .zero disguised with
  | error => simp [hrun] at hcycle
  | ok k m =>
      simp only [hrun] at hcycle
      obtain ⟨hm, hshrinks⟩ := substitute_wellFormed hn hrun
      have hkeeps := h disguised 11 .zero k m hn hacyclic (by decide +kernel) (by decide +kernel)
        hcone hsame hrun
      have hfalsifies := substitute_falsifiesNothing hn hacyclic hsame hrun
      have hmacyclic :=
        (hfalsifies.keepsFunctions_iff hn hacyclic hm hshrinks.isLive).mp hkeeps
      simp [(checkAcyclic_iff hm.fanIns_live).mpr hmacyclic, Except.isOk, Except.toBool] at hcycle

end AndInverter
