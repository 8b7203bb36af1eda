import AndInverter.Proofs.Network.Cycle
import AndInverter.Proofs.Network.Regular
import AndInverter.Proofs.Restructure.Steady

/-!
Histories of a network: what was done to it, one action after the other.

* `Action`: what can be done, `Action.Allowed`: and when it may be done;
* `History`: a sequence of allowed actions, and the networks they lead to;
* `history_regular`: every history leads to a regular network;
* `history_wellFormed_and_acyclic_iff`: every history keeps the network well-formed, and
  acyclic exactly as long as no gate that a substitution left behind depends on itself.
-/

namespace AndInverter

open Network Relation

/-! ### Actions -/

/-- **A connective** of two operands that a network is built with. -/
inductive Connective where
  | and
  | nand
  | or
  | nor
  | xor
  | xnor
deriving DecidableEq

/-- Connects two signals. -/
def Connective.build : Connective → Signal → Signal → Edit Signal
  | .and => Edit.addAnd
  | .nand => Edit.addNand
  | .or => Edit.addOr
  | .nor => Edit.addNor
  | .xor => Edit.addXor
  | .xnor => Edit.addXnor

/-- **An action** on a network. -/
inductive Action where
  | addInput
  | addOutput (s : Signal)
  | connect (c : Connective) (f g : Signal)
  | replaceInOutputs (old : Nat) (new : Signal)
  | replaceInGate (gate old : Nat) (new : Signal)
  | substitute (old : Nat) (new : Signal)
  | retire (gate : Nat)
  | restructure (o : RestructureOptions)

namespace Action

/-- **When an action may be taken**: operands are live, what replaces a node does not depend on
it, and a gate that is retired has no use. -/
def Allowed (n : Network) : Action → Prop
  | addInput => True
  | addOutput s => n.isLive s.node = true
  | connect _ f g => n.isLive f.node = true ∧ n.isLive g.node = true
  | replaceInOutputs _ new => n.isLive new.node = true
  | replaceInGate gate _ new =>
    n.isLive gate = true ∧ n.isLive new.node = true ∧ ¬ n.DependsOn new.node gate
  | substitute old new =>
    n.isLive old = true ∧ n.isLive new.node = true ∧ ¬ n.DependsOn new.node old
  | retire gate => n.isGate gate = true ∧ n.fanout gate = 0
  | restructure _ => True

/-- The network after an action that ends well. -/
inductive Yields (n : Network) : Action → Network → Prop
  | addInput {s m} (h : Edit.addInput n = .ok s m) : Yields n addInput m
  | addOutput {s k m} (h : Edit.addOutput s n = .ok k m) : Yields n (addOutput s) m
  | connect {c f g s m} (h : Connective.build c f g n = .ok s m) : Yields n (connect c f g) m
  | replaceInOutputs {old new k m} (h : Edit.replaceInOutputs old new n = .ok k m) :
    Yields n (replaceInOutputs old new) m
  | replaceInGate {gate old new result m} (h : Edit.replaceInGate gate old new n = .ok result m) :
    Yields n (replaceInGate gate old new) m
  | substitute {old new k m} (h : Edit.substitute old new n = .ok k m) :
    Yields n (substitute old new) m
  | retire {gate m} (h : Edit.retire gate n = .ok () m) : Yields n (retire gate) m
  | restructure {o report w} (h : n.restructure o = .ok report w) :
    Yields n (restructure o) w.network

end Action

/-- **A transition**: an action, with the networks before and after it. -/
structure Transition where
  before : Network
  action : Action
  after : Network

/-- A gate that a transition left behind. -/
def Transition.LeavesBehind (t : Transition) (g : Nat) : Prop :=
  match t.action with
  | .substitute old new => t.before.LeftBehind old new t.after g
  | _ => False

/-- **A history** from one network to another: the transitions by allowed actions that end
well. -/
inductive History : Network → List Transition → Network → Prop
  | nil {n : Network} : History n [] n
  | cons {n l m : Network} {a : Action} {steps : List Transition} (hallowed : a.Allowed n)
      (hyields : a.Yields n l) (rest : History l steps m) : History n (⟨n, a, l⟩ :: steps) m

/-! ### What an action keeps -/

/-- What conjunctions keep, all connectives keep. -/
lemma Connective.keeps_build {P : Network → Prop} (hand : ∀ f g, Edit.Keeps P (Edit.addAnd f g))
    (c : Connective) (f g : Signal) : Edit.Keeps P (c.build f g) := by
  have hor : ∀ f g, Edit.Keeps P (Edit.addOr f g) :=
    fun f g => (hand _ _).bind fun _ => Edit.keeps_pure _
  have hxor : ∀ f g, Edit.Keeps P (Edit.addXor f g) := fun f g =>
    (hand _ _).bind fun _ => (hand _ _).bind fun _ => hor _ _
  cases c with
  | and => exact hand f g
  | nand => exact (hand f g).bind fun _ => Edit.keeps_pure _
  | or => exact hor f g
  | nor => exact hand _ _
  | xor => exact hxor f g
  | xnor => exact (hxor f g).bind fun _ => Edit.keeps_pure _

/-- All connectives go by elementary changes, as conjunctions do. -/
lemma Edit.Steady.ensures_build {R : Network → Network → Prop} (h : Edit.Steady R)
    (c : Connective) (f g : Signal) : Edit.Ensures R (c.build f g) := by
  have hor : ∀ f g, Edit.Ensures R (Edit.addOr f g) :=
    fun f g => h.bind (h.addAnd _ _) fun _ => h.pure _
  have hxor : ∀ f g, Edit.Ensures R (Edit.addXor f g) := fun f g =>
    h.bind (h.addAnd _ _) fun _ => h.bind (h.addAnd _ _) fun _ => hor _ _
  cases c with
  | and => exact h.addAnd f g
  | nand => exact h.addNand f g
  | or => exact hor f g
  | nor => exact h.addAnd _ _
  | xor => exact hxor f g
  | xnor => exact h.bind (hxor f g) fun _ => h.pure _

variable {n m : Network} {a : Action} {steps : List Transition}

/-- **Every action keeps the network well-formed.** -/
theorem Action.Yields.wellFormed (h : a.Yields n m) (hallowed : a.Allowed n)
    (hn : n.WellFormed) : m.WellFormed := by
  cases h with
  | addInput h => exact (addInput_spec hn h).1
  | addOutput h => exact (addOutput_spec hn h).1
  | connect h => exact Connective.keeps_build Edit.keeps_wellFormed_addAnd _ _ _ _ _ _ hn h
  | replaceInOutputs h => exact (replaceInOutputs_spec hn hallowed h).1
  | replaceInGate h =>
      obtain ⟨hgate, hnew, -⟩ := hallowed
      obtain ⟨-, hm, -⟩ | ⟨_, -, rfl, -⟩ := replaceInGate_spec hn hgate hnew h
      · exact hm
      · exact hn
  | substitute h => exact (substitute_wellFormed hn h).1
  | retire h => exact (retire_spec hn (fun _ => hallowed.2) h).1
  | restructure h => exact (restructure_derivation hn h).1.target.1

/-- **Exactly when an action keeps the network acyclic**: no gate that it left behind depends on
itself. -/
theorem Action.Yields.acyclic_iff (h : a.Yields n m) (hallowed : a.Allowed n) (hn : n.WellFormed)
    (hacyclic : n.Acyclic) :
    m.Acyclic ↔ ∀ g, Transition.LeavesBehind ⟨n, a, m⟩ g → ¬ TransGen m.Reads g g := by
  have hclean : m.Acyclic → ∀ g, Transition.LeavesBehind ⟨n, a, m⟩ g → ¬ TransGen m.Reads g g :=
    fun hm g _ => hm g
  cases h with
  | addInput h => exact ⟨hclean, fun _ => (addInput_spec hn h).2.1 hacyclic⟩
  | addOutput h =>
      obtain ⟨-, hsame, -⟩ := addOutput_spec hn h
      exact ⟨hclean, fun _ => hacyclic.mono fun _ _ hread => hsame.reads.mp hread⟩
  | connect h =>
      have hm := Connective.keeps_build Edit.keeps_sound_addAnd _ _ _ _ _ _ ⟨hn, hacyclic⟩ h
      exact ⟨hclean, fun _ => hm.2⟩
  | replaceInOutputs h =>
      obtain ⟨-, -, hsame, -⟩ := replaceInOutputs_spec hn hallowed h
      exact ⟨hclean, fun _ => hacyclic.mono fun _ _ hread => hsame.reads.mp hread⟩
  | replaceInGate h =>
      obtain ⟨hgate, hnew, hcone⟩ := hallowed
      exact ⟨hclean, fun _ => hacyclic.of_fanIn (replaceInGate_reads hn hgate h) hcone⟩
  | substitute h =>
      obtain ⟨-, -, hcone⟩ := hallowed
      exact substitute_acyclic_iff hn hacyclic hcone h
  | retire h =>
      obtain ⟨-, hretires, -⟩ := retire_spec hn (fun _ => hallowed.2) h
      exact ⟨hclean, fun _ => hretires.acyclic hacyclic⟩
  | restructure h => exact ⟨hclean, fun _ => (restructure_derivation hn h).1.target.2⟩

/-- **Every action keeps the network regular.** -/
theorem Action.Yields.regular (h : a.Yields n m) (hallowed : a.Allowed n) (hn : n.WellFormed)
    (hregular : n.Regular) : m.Regular := by
  have hsteady := Edit.steady_staysRegular
  cases h with
  | addInput h => exact hregular.addInput hn h
  | addOutput h => exact Edit.ensures_addOutput _ _ _ _ h hregular
  | connect h => exact hsteady.ensures_build _ _ _ _ _ _ h hregular
  | replaceInOutputs h => exact hsteady.replaceInOutputs _ _ _ _ _ h hregular
  | replaceInGate h => exact (hsteady.replaceInGate hallowed.1 h).1 hregular
  | substitute h => exact hsteady.substitute _ _ _ _ _ h hregular
  | retire h => exact hsteady.retire _ _ _ _ h hregular
  | restructure h => exact restructure_steady hsteady h hregular

/-! ### What a history keeps -/

lemma History.wellFormed (h : History n steps m) (hn : n.WellFormed) :
    ∀ t ∈ steps, t.before.WellFormed ∧ t.after.WellFormed := by
  induction h with
  | nil => exact nofun
  | cons hallowed hyields rest ih =>
      have hl := hyields.wellFormed hallowed hn
      exact List.forall_mem_cons.mpr ⟨⟨hn, hl⟩, ih hl⟩

lemma History.regular (h : History n steps m) (hn : n.WellFormed) (hregular : n.Regular) :
    m.WellFormed ∧ m.Regular := by
  induction h with
  | nil => exact ⟨hn, hregular⟩
  | cons hallowed hyields rest ih =>
      exact ih (hyields.wellFormed hallowed hn) (hyields.regular hallowed hn hregular)

/-- **A network with a history is regular.** -/
theorem history_regular (h : History .empty steps m) : m.WellFormed ∧ m.Regular :=
  h.regular wellFormed_empty.1 regular_empty

lemma History.acyclic (h : History n steps m) (hn : n.WellFormed) (hacyclic : n.Acyclic)
    (hclean : ∀ t ∈ steps, ∀ g, t.LeavesBehind g → ¬ TransGen t.after.Reads g g) :
    ∀ t ∈ steps, t.before.Acyclic ∧ t.after.Acyclic := by
  induction h with
  | nil => exact nofun
  | cons hallowed hyields rest ih =>
      obtain ⟨hfirst, hrest⟩ := List.forall_mem_cons.mp hclean
      have hl := (hyields.acyclic_iff hallowed hn hacyclic).mpr hfirst
      exact List.forall_mem_cons.mpr
        ⟨⟨hacyclic, hl⟩, ih (hyields.wellFormed hallowed hn) hl hrest⟩

/-- **Every network in a history is well-formed**, and all of them are acyclic if and only if
no gate that a substitution left behind depends on itself. -/
theorem history_wellFormed_and_acyclic_iff (h : History .empty steps m) :
    (∀ t ∈ steps, t.before.WellFormed ∧ t.after.WellFormed) ∧
      ((∀ t ∈ steps, t.before.Acyclic ∧ t.after.Acyclic) ↔
        ∀ t ∈ steps, ∀ g, t.LeavesBehind g → ¬ TransGen t.after.Reads g g) := by
  obtain ⟨hn, hacyclic⟩ := wellFormed_empty
  exact ⟨h.wellFormed hn, fun hall t ht g _ => (hall t ht).2 g, h.acyclic hn hacyclic⟩

lemma History.append {l : Network} {steps' : List Transition} (h : History n steps m)
    (h' : History m steps' l) : History n (steps ++ steps') l := by
  induction h with
  | nil => exact h'
  | cons hallowed hyields rest ih => exact .cons hallowed hyields (ih h')

/-- The action that adds a part. -/
def Part.action : Part → Action
  | .input => .addInput
  | .gate f g => .connect .and (.ofLiteral f) (.ofLiteral g)
  | .output s => .addOutput (.ofLiteral s)

lemma Part.yields {part : Part} (hn : n.WellFormed) (h : part.add n = .ok () m) :
    part.action.Allowed n ∧ part.action.Yields n m := by
  cases part with
  | input =>
      obtain ⟨_, _, hrun, hend⟩ := bind_eq_ok.mp h
      obtain ⟨-, rfl⟩ := pure_eq_ok.mp hend
      exact ⟨trivial, .addInput hrun⟩
  | gate f g =>
      obtain ⟨_, _, hrun, hend⟩ := bind_eq_ok.mp h
      obtain ⟨-, rfl⟩ := pure_eq_ok.mp hend
      obtain ⟨hf, hg, -⟩ := addAnd_spec hn hrun
      exact ⟨⟨hf, hg⟩, .connect hrun⟩
  | output s =>
      obtain ⟨_, _, hrun, hend⟩ := bind_eq_ok.mp h
      obtain ⟨-, rfl⟩ := pure_eq_ok.mp hend
      exact ⟨(addOutput_spec hn hrun).2.2.2, .addOutput hrun⟩

/-- **An assembled network has a history.** -/
lemma exists_history_assemble (hn : n.WellFormed) (parts : List Part) :
    ∃ steps, History n steps (n.assemble parts) := by
  induction parts generalizing n with
  | nil => exact ⟨[], .nil⟩
  | cons part parts ih =>
      rw [Network.assemble]
      cases hadd : part.add n with
      | ok u l =>
          obtain ⟨hallowed, hyields⟩ := Part.yields hn hadd
          obtain ⟨steps, hsteps⟩ := ih (hyields.wellFormed hallowed hn)
          exact ⟨_, .cons hallowed hyields hsteps⟩
      | error => exact ⟨[], .nil⟩

/-- A gate is replaced, and then a duplicate and a constant that this made. -/
theorem history_wellFormed_and_acyclic_iff_of_ramified : ∃ steps m,
    History .empty steps m ∧
      (m.isDead 4 = true ∧ m.isDead 5 = true ∧ m.isDead 7 = true ∧ m.reads 8 1 = true) ∧
      (∀ t ∈ steps, t.before.WellFormed ∧ t.after.WellFormed) ∧
        ((∀ t ∈ steps, t.before.Acyclic ∧ t.after.Acyclic) ↔
          ∀ t ∈ steps, ∀ g, t.LeavesBehind g → ¬ TransGen t.after.Reads g g) := by
  let n := Network.empty.assemble ramified
  obtain ⟨steps, hsteps⟩ := exists_history_assemble wellFormed_empty.1 ramified
  have hends : (match Edit.substitute 4 (.ofNode 1) n with
    | .ok _ m => m.isDead 4 && m.isDead 5 && m.isDead 7 && m.reads 8 1
    | .error _ _ => false) = true := by decide +kernel
  have hcone : ¬ n.DependsOn 1 4 := fun hdep =>
    absurd (hdep.eq_of_not_gate (by decide +kernel)) (by decide)
  cases hrun : Edit.substitute 4 (.ofNode 1) n with
  | error => simp [hrun] at hends
  | ok k m =>
      simp only [hrun, Bool.and_eq_true, and_assoc] at hends
      have hlast : History n [⟨n, .substitute 4 (.ofNode 1), m⟩] m :=
        .cons ⟨by decide +kernel, by decide +kernel, hcone⟩ (.substitute hrun) .nil
      have hall := hsteps.append hlast
      exact ⟨_, m, hall, hends, history_wellFormed_and_acyclic_iff hall⟩

/-- A gate that is to become constant, above which a gate is left behind half-way. -/
def circular : Network := Network.empty.assemble
  [.input, .input, .input, .input, .input, .input, .input, .input, .gate 2 4, .gate 19 6,
    .gate 18 12, .gate 22 14, .gate 20 8, .gate 6 8, .gate 25 6, .gate 30 8, .gate 32 10,
    .gate 34 16, .gate 22 36, .gate 26 39, .gate 28 39, .gate 40 10, .gate 42 10, .output 44,
    .output 46, .output 36]

/-- **A history may become cyclic.** -/
theorem history_may_become_cyclic : ¬ ∀ steps m, History .empty steps m →
    ∀ t ∈ steps, t.after.WellFormed ∧ t.after.Acyclic := by
  intro h
  obtain ⟨hn, -⟩ : circular.Sound := Network.Sound.assemble wellFormed_empty _
  obtain ⟨steps, hsteps⟩ : ∃ steps, History .empty steps circular :=
    exists_history_assemble wellFormed_empty.1 _
  have hcycle : (match Edit.substitute 9 .zero circular with
    | .ok _ m => (m.checkAcyclic "").isOk | .error _ _ => true) = false := by decide +kernel
  have hcone : ¬ circular.DependsOn 0 9 := fun hdep =>
    absurd (hdep.eq_of_not_gate (by decide +kernel)) (by decide)
  cases hrun : Edit.substitute 9 .zero circular with
  | error => simp [hrun] at hcycle
  | ok k m =>
      simp only [hrun] at hcycle
      have hlast : History circular [⟨circular, .substitute 9 .zero, m⟩] m :=
        .cons ⟨by decide +kernel, by decide +kernel, hcone⟩ (.substitute hrun) .nil
      obtain ⟨hm, hacyclic⟩ :=
        h _ m (hsteps.append hlast) ⟨circular, .substitute 9 .zero, m⟩ (by simp)
      simp [(checkAcyclic_iff hm.fanIns_live).mpr hacyclic, Except.isOk, Except.toBool] at hcycle

end AndInverter
