import AndInverter.Proofs.Network.Assembly
import AndInverter.Proofs.Restructure.Derivation

/-!
Restructuring does not change what a network computes.

* `Rewrites.outputValues`: one rewrite keeps the values of the outputs, whatever the
  connectives are, as long as the gate and its replacement have the same value;
* `Derivation.outputValues`: so do all rewrites of a run;
* `restructure_outputValues`: and so does the run.
-/

namespace AndInverter

namespace Network

variable {n n₁ n₂ m : Network} {gate k : Nat} {s : Signal} {rewrites : List Rewrite}

section Values

variable {M : Type} {A : Connectives M} {α : Nat → M}

lemma outputValues_congr {φ : Nat → M}
    (h : ∀ s ∈ n.outputs, n.interpret A α s.node = φ s.node) :
    n.outputValues A α = n.outputs.toList.map (A.read φ) :=
  List.map_congr_left fun s hs => Connectives.read_congr (h s (Array.mem_toList_iff.mp hs))

/-- Where no gate is replaced, the outputs keep their values. -/
lemma Idles.outputValues (h : n.Idles m) (hn : n.WellFormed) (hacyclic : n.Acyclic)
    (hm : m.WellFormed) : m.outputValues A α = n.outputValues A α := by
  rw [outputValues_congr (φ := n.interpret A α) fun s hs =>
    h.interpret hn hacyclic hm (h.outputs ▸ hs), h.outputs]
  rfl

/-- **A substitution keeps the values of the outputs** if the gate and its replacement have the
same value before it. -/
lemma outputValues_of_substitute (hA : A.Lawful) (hn : n.WellFormed) (hacyclic : n.Acyclic)
    (hext : n.Extends n₁) (h₁ : n₁.WellFormed)
    (hvalue : n₁.interpret A α gate = A.read (n₁.interpret A α) s)
    (hsubstitute : Edit.substitute gate s n₁ = .ok k n₂) (hret : n₂.Retires m)
    (hm : m.WellFormed) (hmacyclic : m.Acyclic) :
    m.outputValues A α = n.outputValues A α := by
  have hacyclic₁ := hext.acyclic hacyclic hn.fanIns_live
  obtain ⟨hφ₂, houtputs⟩ :=
    substitute_models h₁ hsubstitute hA (models_interpret h₁ hacyclic₁) hvalue
  have hφ : A.Models α (n₁.interpret A α) m :=
    hφ₂.mono hret.inputs fun _ _ _ hg => hret.gate hg
  calc m.outputValues A α
      = m.outputs.toList.map (A.read (n₁.interpret A α)) := outputValues_congr fun s hs =>
        (eq_interpret_of_models hφ hm hmacyclic (hm.outputs_live s hs)).symm
    _ = n₁.outputs.toList.map (A.read (n₁.interpret A α)) := by rw [hret.outputs, houtputs]
    _ = n.outputs.toList.map (A.read (n₁.interpret A α)) := by rw [hext.outputs]
    _ = n.outputValues A α := (outputValues_congr fun s hs =>
        (hext.interpret hn hacyclic h₁ (hn.outputs_live s hs)).symm).symm

end Values

/-- A rewrite leaves the inputs alone. -/
lemma Rewrites.inputs (h : n.Rewrites gate m) : m.inputs = n.inputs := by
  obtain ⟨n₁, s, k, n₂, hproposes, -, hsubstitute, hret⟩ := h
  rw [hret.inputs, (substitute_wellFormed hproposes.wellFormed hsubstitute).2.inputs,
    hproposes.grows.inputs]

/-- **A rewrite keeps the truth values of the outputs.** -/
lemma Rewrites.outputValues {α : Nat → Bool} (h : n.Rewrites gate m) (hn : n.WellFormed)
    (hacyclic : n.Acyclic) (hm : m.WellFormed) (hmacyclic : m.Acyclic) :
    m.outputValues .bool α = n.outputValues .bool α := by
  obtain ⟨n₁, s, k, n₂, hproposes, -, hsubstitute, hret⟩ := h
  have hacyclic₁ := hproposes.grows.acyclic hacyclic hn.fanIns_live
  exact outputValues_of_substitute Connectives.bool_lawful hn hacyclic hproposes.grows
    hproposes.wellFormed (hproposes.value (models_interpret hproposes.wellFormed hacyclic₁))
    hsubstitute hret hm hmacyclic

/-- The rewrites of a derivation keep the inputs and the truth values of the outputs. -/
lemma Derivation.outputValues (h : n.Derivation rewrites m) : m.inputs = n.inputs ∧
    ∀ α : Nat → Bool, m.outputValues .bool α = n.outputValues .bool α := by
  induction h with
  | done => exact ⟨rfl, fun _ => rfl⟩
  | idle hn hacyclic hidle rest ih =>
      obtain ⟨hinputs, hvalues⟩ := ih
      refine ⟨hinputs.trans hidle.inputs, ?_⟩
      intro α
      rw [hvalues, hidle.outputValues hn hacyclic rest.source.1]
  | rewrite hn hacyclic hrewrites rest ih =>
      obtain ⟨hinputs, hvalues⟩ := ih
      obtain ⟨hl, hlacyclic⟩ := rest.source
      refine ⟨hinputs.trans hrewrites.inputs, ?_⟩
      intro α
      rw [hvalues, hrewrites.outputValues hn hacyclic hl hlacyclic]

lemma Derivation.outputs_size (h : n.Derivation rewrites m) : m.outputs.size = n.outputs.size := by
  have hlength := congrArg List.length (h.outputValues.2 fun _ => false)
  simpa [Network.outputValues] using hlength

end Network

variable {n : Network} {o : RestructureOptions} {report : RestructureReport} {w : Workspace}

/-- **Restructuring keeps the function of a network**: the inputs are the same in the same
order, there are as many outputs, and each output has the same truth value under every
assignment of the inputs. -/
theorem restructure_outputValues (hn : n.WellFormed) (h : n.restructure o = .ok report w) :
    w.network.inputs = n.inputs ∧ w.network.outputs.size = n.outputs.size ∧
      ∀ α : Nat → Bool, w.network.outputValues .bool α = n.outputValues .bool α := by
  obtain ⟨hinputs, hvalues⟩ := (restructure_derivation hn h).1.outputValues
  refine ⟨hinputs, ?_, hvalues⟩
  have hlength := congrArg List.length (hvalues fun _ => false)
  simpa [Network.outputValues] using hlength

/-- A late operand below an early one, brought forward by the associative law. -/
theorem restructure_outputValues_of_late : ∃ (n : Network) (report : RestructureReport)
    (w : Workspace), n.restructure {} = .ok report w ∧ report.tally.associativity = 1 ∧
      w.network.inputs = n.inputs ∧ w.network.outputs.size = n.outputs.size ∧
        ∀ α : Nat → Bool, w.network.outputValues .bool α = n.outputValues .bool α := by
  let n := Network.empty.assemble [.input, .input, .input, .input, .gate 2 4, .gate 10 8,
    .gate 6 12, .output 14]
  have hn : n.WellFormed := (Network.Sound.assemble wellFormed_empty _).1
  have hends : (match n.restructure {} with
    | .ok report _ => report.tally.associativity == 1 | .error _ _ => false) = true := by
    decide +kernel
  cases hrun : n.restructure {} with
  | error => simp [hrun] at hends
  | ok report w =>
      simp only [hrun, beq_iff_eq] at hends
      exact ⟨n, report, w, hrun, hends, restructure_outputValues hn hrun⟩

end AndInverter
