import AndInverter.Proofs.Aiger.Parse
import AndInverter.Proofs.Aiger.Write
import AndInverter.Proofs.Network.Assembly
import AndInverter.Proofs.Network.Substitution

/-!
The order of the lines in a circuit file.  Whatever the positions of the nodes are, the gates
of an acyclic network get consecutive variables, and both literals of a definition are of
variables below its own; so a reader needs one pass, which the binary form of the format takes
for granted.

* `Network.Gate.varOf_lt`: a gate has a higher variable than its fan-ins;
* `Document.OnePass`: a document whose lines stand in the order of their variables;
* `layout_onePass`: the file of a network is such a document;
* `Network.document_cases`: a file is written, or the network has a cycle;
* `aiger_onePass`: what is written, line by line, and when.
-/

namespace AndInverter

open Aiger

variable {n : Network} {u v g : Nat} {a b : Signal}

namespace Network

/-! ### Variables -/

section Variables

variable (hn : n.WellFormed) (hacyclic : n.Acyclic)

include hn hacyclic

lemma varOf_injOn (hu : n.isLive u = true) (h : n.varOf u = n.varOf v) : u = v :=
  (List.idxOf_inj ((mem_roster hn hacyclic).mpr hu)).mp h

/-- Only the constant has the variable `0`. -/
lemma varOf_pos (hv : n.isLive v = true) (hne : v ≠ 0) : 0 < n.varOf v :=
  Nat.pos_of_ne_zero fun h0 =>
    hne (varOf_injOn hn hacyclic hv (h0.trans List.idxOf_cons_self.symm))

/-- **A gate has a higher variable than its fan-ins**, wherever they stand in the network. -/
lemma Gate.varOf_lt (hg : n.Gate g a b) :
    n.varOf a.node < n.varOf g ∧ n.varOf b.node < n.varOf g := by
  have hmem := (mem_roster hn hacyclic).mpr hg.isLive
  exact ⟨(roster_isOrder hn).idxOf_lt hmem hg.reads_left,
    (roster_isOrder hn).idxOf_lt hmem hg.reads_right⟩

/-- The literals of a definition: the smaller one is of no constant, and both are below the
literal that is defined. -/
lemma Gate.definitionBy_operands (hg : n.Gate g a b) :
    1 < (definitionBy n.varOf (g, a, b)).rhs₁ ∧
      (definitionBy n.varOf (g, a, b)).rhs₁ < (definitionBy n.varOf (g, a, b)).rhs₀ ∧
      (definitionBy n.varOf (g, a, b)).rhs₀ < 2 * (definitionBy n.varOf (g, a, b)).var := by
  obtain ⟨hla, hlb⟩ := hn.fanIns_live g a b hg
  obtain ⟨hpos, hlt⟩ := hn.ordered g a b hg
  obtain ⟨hga, hgb⟩ := hg.varOf_lt hn hacyclic
  have ha := varOf_pos hn hacyclic hla (Nat.ne_of_gt hpos)
  have hb := varOf_pos hn hacyclic hlb (Nat.ne_of_gt (hpos.trans hlt))
  have hne : n.varOf a.node ≠ n.varOf b.node := fun heq =>
    Nat.ne_of_lt hlt (varOf_injOn hn hacyclic hla heq)
  have hca : (a.renumber n.varOf).code / 2 = n.varOf a.node := Signal.code_div_two _
  have hcb : (b.renumber n.varOf).code / 2 = n.varOf b.node := Signal.code_div_two _
  simp only [definitionBy]
  omega

end Variables

end Network

/-! ### The file -/

/-- **A document in one pass**: variables are numbered without gaps, first those of the inputs
and then those that are defined, and a definition refers to variables below its own. -/
structure Aiger.Document.OnePass (d : Document) : Prop where
  maxVar_eq : d.maxVar = d.inputs.length + d.definitions.length
  inputs_eq : d.inputs = List.range' 1 d.inputs.length
  vars_eq : d.definitions.map (·.var) = List.range' (d.inputs.length + 1) d.definitions.length
  operands : ∀ e ∈ d.definitions, 1 < e.rhs₁ ∧ e.rhs₁ < e.rhs₀ ∧ e.rhs₀ < 2 * e.var

namespace Network

/-- **The file of a network** is in one pass. -/
theorem layout_onePass (hn : n.WellFormed) (hacyclic : n.Acyclic) :
    (n.layout n.varOf).OnePass where
  maxVar_eq := by
    simp only [layout, List.length_range', List.length_map, length_listedGates hn hacyclic]
  inputs_eq := by simp only [layout, List.length_range']
  vars_eq := by
    simp only [layout, List.map_map, List.length_range', List.length_map,
      length_listedGates hn hacyclic]
    rw [Nat.add_comm]
    exact map_varOf_listedGates hn hacyclic
  operands e he := by
    obtain ⟨p, hp, rfl⟩ := List.mem_map.mp he
    exact ((mem_listedGates hn hacyclic).mp hp).definitionBy_operands hn hacyclic

/-- **A file is written, or the network has a cycle.** -/
theorem document_cases (hn : n.WellFormed) :
    (n.Acyclic ∧ n.document = .ok (n.layout n.varOf)) ∨
      (¬ n.Acyclic ∧ n.document = .error (.cyclic n.topology.unvisited)) := by
  by_cases hacyclic : n.Acyclic
  · exact .inl ⟨hacyclic, document_eq_layout hn hacyclic⟩
  · refine .inr ⟨hacyclic, ?_⟩
    rw [document]
    split
    · next order htop =>
        have horder : n.order = .ok order := by rw [Network.order, htop]
        exact absurd (order_eq_ok horder).2.2 hacyclic
    · next order unvisited hne htop => rw [htop]

end Network

/-- **The lines of a circuit file.**  The header counts the lines behind it; the inputs are the
literals `2, 4, …`, and the gates are defined at the even literals that follow, without a gap;
and the two literals of a definition, the larger one first, are smaller than the one that is
defined and greater than `1`. -/
structure Network.WrittenInOnePass (n : Network) (text : String) (inputs outputs : List Nat)
    (definitions : List (Nat × Nat × Nat)) : Prop where
  lines : Text.lines text.toList =
    (("aag " ++ numberLine [inputs.length + definitions.length, inputs.length, 0,
        outputs.length, definitions.length]) ::
      inputs.map (fun literal => numberLine [literal]) ++
      outputs.map (fun literal => numberLine [literal]) ++
      definitions.map (fun (lhs, rhs₀, rhs₁) => numberLine [lhs, rhs₀, rhs₁]) ++
      ["c", "emitted by aigopt"]).map String.toList
  inputs_eq : inputs = (List.range' 1 n.inputs.size).map (2 * ·)
  outputs_length : outputs.length = n.outputs.size
  lhs_eq : definitions.map (·.1)
    = (List.range' (n.inputs.size + 1) n.gates.length).map (2 * ·)
  operands : ∀ lhs rhs₀ rhs₁, (lhs, rhs₀, rhs₁) ∈ definitions →
    1 < rhs₁ ∧ rhs₁ < rhs₀ ∧ rhs₀ < lhs

lemma Network.layout_writtenInOnePass (hn : n.WellFormed) (hacyclic : n.Acyclic) :
    ∃ inputs outputs definitions,
      n.WrittenInOnePass (n.layout n.varOf).text inputs outputs definitions := by
  have hinputs : (n.layout n.varOf).inputs.length = n.inputs.size := List.length_range'
  have hgates : (n.layout n.varOf).definitions.length = n.gates.length := by
    rw [← hn.liveGates_eq, ← length_listedGates hn hacyclic]
    exact List.length_map _
  have hpass := n.layout_onePass hn hacyclic
  refine ⟨(n.layout n.varOf).inputs.map (2 * ·), (n.layout n.varOf).outputs,
    (n.layout n.varOf).definitions.map fun e => (2 * e.var, e.rhs₀, e.rhs₁), ?_, ?_, ?_, ?_, ?_⟩
  · rw [Document.lines_text, Document.lines, Document.headerLine, hpass.maxVar_eq]
    simp only [List.length_map, List.map_map]
    rfl
  · rw [← hinputs, ← hpass.inputs_eq]
  · rw [← Array.length_toList]
    exact List.length_map _
  · rw [← hinputs, ← hgates, ← hpass.vars_eq, List.map_map, List.map_map]
    rfl
  · intro lhs rhs₀ rhs₁ hmem
    obtain ⟨e, he, heq⟩ := List.mem_map.mp hmem
    cases heq
    exact hpass.operands e he

/-- **What is written and when.**  A network that is well-formed, but may have a cycle, is
written if and only if it has none, and a cycle is the only reason for a refusal; what is
written can be read in one pass. -/
theorem aiger_onePass (hn : n.WellFormed) :
    ((∃ text, n.aiger = .ok text) ↔ n.Acyclic) ∧
      (∀ e, n.aiger = .error e → e = .cyclic n.topology.unvisited) ∧
      ∀ text, n.aiger = .ok text →
        ∃ inputs outputs definitions, n.WrittenInOnePass text inputs outputs definitions := by
  rcases n.document_cases hn with ⟨hacyclic, hdocument⟩ | ⟨hcyclic, hdocument⟩
  · have haiger : n.aiger = .ok (n.layout n.varOf).text := by
      rw [Network.aiger, hdocument]
      rfl
    refine ⟨iff_of_true ⟨_, haiger⟩ hacyclic, fun e he => ?_, fun text htext => ?_⟩
    · rw [haiger] at he
      cases he
    · obtain rfl : (n.layout n.varOf).text = text := Except.ok.inj (haiger.symm.trans htext)
      exact n.layout_writtenInOnePass hn hacyclic
  · have haiger : n.aiger = .error (.cyclic n.topology.unvisited) := by
      rw [Network.aiger, hdocument]
      rfl
    refine ⟨iff_of_false ?_ hcyclic, fun e he => ?_, fun text htext => ?_⟩
    · rintro ⟨text, htext⟩
      rw [haiger] at htext
      cases htext
    · exact (Except.error.inj (haiger.symm.trans he)).symm
    · rw [haiger] at htext
      cases htext

/-- The network after a replacement, or the same one if the replacement fails. -/
def Network.replaced (n : Network) (old : Nat) (new : Signal) : Network :=
  match Edit.substitute old new n with
  | .ok _ m => m
  | .error _ _ => n

lemma Network.replaced_wellFormed (hn : n.WellFormed) (old : Nat) (new : Signal) :
    (n.replaced old new).WellFormed := by
  rw [replaced]
  split
  · next hrun => exact (substitute_wellFormed hn hrun).1
  · exact hn

/-- Gate 4, which gate 5 reads, is replaced by gate 6 above it. -/
def detour : Network := (Network.empty.assemble [.input, .input, .input, .gate 2 4, .gate 8 6,
  .gate 3 6, .output 11]).replaced 4 (.ofNode 6)

/-- Gate 4 is replaced by gate 5, which reads it. -/
def roundabout : Network := (Network.empty.assemble [.input, .input, .input, .gate 2 4,
  .gate 8 6, .output 10]).replaced 4 (.ofNode 5)

/-- One network with a dead node and a fan-in above its gate, and one with a cycle. -/
theorem aiger_onePass_of_replaced :
    (detour.WellFormed ∧ detour.isDead 4 = true ∧ detour.reads 5 6 = true ∧
      ∃ text inputs outputs definitions, detour.aiger = .ok text ∧
        detour.WrittenInOnePass text inputs outputs definitions) ∧
    (roundabout.WellFormed ∧ roundabout.reads 5 5 = true ∧
      ∀ text, roundabout.aiger ≠ .ok text) := by
  have hdetour : detour.WellFormed :=
    Network.replaced_wellFormed (Network.Sound.assemble wellFormed_empty _).1 _ _
  have hroundabout : roundabout.WellFormed :=
    Network.replaced_wellFormed (Network.Sound.assemble wellFormed_empty _).1 _ _
  have hacyclic : detour.Acyclic := (Network.checkAcyclic_iff hdetour.fanIns_live).mp
    (show detour.checkAcyclic "" = .ok () by decide +kernel)
  have hcyclic : ¬ roundabout.Acyclic := fun h =>
    absurd ((Network.checkAcyclic_iff hroundabout.fanIns_live).mpr h)
      (show ¬ roundabout.checkAcyclic "" = .ok () by decide +kernel)
  obtain ⟨hwritten, -, hlines⟩ := aiger_onePass hdetour
  obtain ⟨text, htext⟩ := hwritten.mpr hacyclic
  obtain ⟨inputs, outputs, definitions, hpass⟩ := hlines text htext
  refine ⟨⟨hdetour, by decide +kernel, by decide +kernel, text, inputs, outputs, definitions,
    htext, hpass⟩, hroundabout, by decide +kernel, fun text htext => ?_⟩
  exact hcyclic ((aiger_onePass hroundabout).1.mp ⟨text, htext⟩)

end AndInverter
