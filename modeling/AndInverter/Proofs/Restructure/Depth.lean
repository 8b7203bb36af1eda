import AndInverter.Proofs.Expression
import AndInverter.Proofs.Restructure.Function

/-!
What restructuring does to the depth.  Rename the expression of a replaced gate to that of its
replacement: this makes no expression higher, and a substitution keeps the renamed expressions
of the outputs.  An output can only have come to a higher level if its cone contains the
replaced expression all the same.

* `Rewrite.Leaves`: an output whose cone contains the replaced expression;
* `Rewrites.level_le`: the other outputs are not above the depth there was;
* `restructure_depth_iff`: exactly when no rewrite of a run makes the network deeper.
-/

namespace AndInverter

open Expression

namespace Network

variable {n n₁ m : Network} {gate v : Nat} {s : Signal} {rewrites : List Rewrite}

/-- **The replaced expression is renamed** to that of the replacement, which is not higher: then
the gate and its replacement are the same. -/
lemma Proposes.identifies (h : n.Proposes n₁ gate s) (hn : n.WellFormed) (hacyclic : n.Acyclic)
    (hne : s.node ≠ gate) :
    height (n₁.expressionOf s).node ≤ height (n.expression gate).node ∧
      n₁.renamed (n.expression gate) (n₁.expressionOf s) gate
        = (n₁.renamed (n.expression gate) (n₁.expressionOf s) s.node).complementIf
            s.complemented := by
  have h₁ := h.wellFormed
  have hacyclic₁ := h.grows.acyclic hacyclic hn.fanIns_live
  obtain ⟨a, b, hgate⟩ := isLiveGate_iff.mp h.isLiveGate
  have hgate₁ := h.grows.gate_of hgate
  have hexpression : n₁.expression gate = n.expression gate :=
    h.grows.interpret hn hacyclic h₁ hgate.isLive
  have hlevel := h.grows.level hn hacyclic h₁ hgate.isLive
  rw [← hexpression]
  refine ⟨?_, renamed_eq h₁ hacyclic₁ hgate₁.isLive (h₁.ne_zero_of_gate hgate₁) h.isLive
    (h.not_dependsOn hn hacyclic hne)⟩
  calc height (n₁.expressionOf s).node
      = n₁.level s.node := height_expression h₁ hacyclic₁ h.isLive
    _ ≤ n₁.level gate := hlevel ▸ h.level
    _ = height (n₁.expression gate).node := (height_expression h₁ hacyclic₁ hgate₁.isLive).symm

/-- **Where the replaced expression is gone, no output is above the depth there was.** -/
lemma Rewrites.level_le (h : n.Rewrites gate m) (hn : n.WellFormed) (hacyclic : n.Acyclic)
    (hm : m.WellFormed) (hmacyclic : m.Acyclic) (hs : s ∈ m.outputs)
    (hfree : ∀ v, m.DependsOn s.node v → m.expression v ≠ n.expression gate) :
    m.level s.node ≤ n.depth := by
  obtain ⟨n₁, t, k, n₂, hproposes, hne, hsubstitute, hret⟩ := h
  obtain ⟨hheight, hvalue⟩ := hproposes.identifies hn hacyclic hne
  rw [← Connectives.read_expressions] at hvalue
  have hvalues := outputValues_of_substitute (Connectives.expressions_lawful _) hn hacyclic
    hproposes.grows hproposes.wellFormed hvalue hsubstitute hret hm hmacyclic
  rw [Network.outputValues, Network.outputValues] at hvalues
  obtain ⟨s', hs', heq⟩ := List.mem_map.mp
    (hvalues ▸ List.mem_map_of_mem (Array.mem_toList_iff.mpr hs))
  have hs' := Array.mem_toList_iff.mp hs'
  have hlive := hm.outputs_live s hs
  have hnode : (n.renamed (n.expression gate) (n₁.expressionOf t) s'.node).node
      = (m.renamed (n.expression gate) (n₁.expressionOf t) s.node).node := by
    simpa only [Connectives.read_expressions, Signal.node_complementIf, renamed]
      using congrArg Signal.node heq
  calc m.level s.node
      = height (m.expression s.node).node := (height_expression hm hmacyclic hlive).symm
    _ = height (m.renamed (n.expression gate) (n₁.expressionOf t) s.node).node := by
        rw [renamed_of_free hm hmacyclic hlive hfree]
    _ = height (n.renamed (n.expression gate) (n₁.expressionOf t) s'.node).node := by rw [hnode]
    _ ≤ n.level s'.node := height_renamed_le hheight hn hacyclic (hn.outputs_live s' hs')
    _ ≤ n.depth := level_le_depth hs'

end Network

/-- An output that still contains the replaced expression. -/
def Rewrite.Leaves (r : Rewrite) (s : Signal) : Prop :=
  s ∈ r.after.outputs ∧
    ∃ v, r.after.DependsOn s.node v ∧ r.after.expression v = r.before.expression r.gate

/-- The outputs that still contain the replaced expression are not above the depth there was. -/
def Rewrite.Settles (r : Rewrite) : Prop :=
  ∀ s, r.Leaves s → r.after.level s.node ≤ r.before.depth

namespace Network

variable {n m : Network} {gate : Nat} {rewrites : List Rewrite}

/-- **Exactly when a rewrite does not make the network deeper.** -/
lemma Rewrites.depth_iff (h : n.Rewrites gate m) (hn : n.WellFormed) (hacyclic : n.Acyclic)
    (hm : m.WellFormed) (hmacyclic : m.Acyclic) :
    m.depth ≤ n.depth ↔ Rewrite.Settles ⟨n, gate, m⟩ := by
  rw [depth_le_iff]
  constructor
  · intro hle s hs
    exact hle s hs.1
  · intro hsettles s hs
    by_cases hleaves : Rewrite.Leaves ⟨n, gate, m⟩ s
    · exact hsettles s hleaves
    · refine h.level_le hn hacyclic hm hmacyclic hs fun v hv heq => hleaves ⟨hs, v, hv, heq⟩

/-- Where no gate is replaced, the depth stays. -/
lemma Idles.depth (h : n.Idles m) (hn : n.WellFormed) (hacyclic : n.Acyclic)
    (hm : m.WellFormed) : m.depth = n.depth := by
  have hle : ∀ d, m.depth ≤ d ↔ n.depth ≤ d := by
    intro d
    rw [depth_le_iff, depth_le_iff, h.outputs]
    refine forall₂_congr ?_
    intro s hs
    rw [show m.level s.node = n.level s.node from h.interpret hn hacyclic hm hs]
  exact le_antisymm ((hle _).mpr le_rfl) ((hle _).mp le_rfl)

/-- A derivation does not make a network deeper if none of its rewrites does. -/
lemma Derivation.depth_le (h : n.Derivation rewrites m)
    (hrewrites : ∀ r ∈ rewrites, r.after.depth ≤ r.before.depth) : m.depth ≤ n.depth := by
  induction h with
  | done => exact le_rfl
  | idle hn hacyclic hidle rest ih =>
      exact (ih hrewrites).trans (hidle.depth hn hacyclic rest.source.1).le
  | rewrite hn hacyclic hstep rest ih =>
      obtain ⟨hfirst, hrest⟩ := List.forall_mem_cons.mp hrewrites
      exact (ih hrest).trans hfirst

/-- Each rewrite of a derivation is one, between well-formed and acyclic networks. -/
lemma Derivation.mem (h : n.Derivation rewrites m) : ∀ r ∈ rewrites,
    r.before.Rewrites r.gate r.after ∧ (r.before.WellFormed ∧ r.before.Acyclic) ∧
      r.after.WellFormed ∧ r.after.Acyclic := by
  induction h with
  | done => exact nofun
  | idle _ _ _ _ ih => exact ih
  | rewrite hn hacyclic hstep rest ih =>
      exact List.forall_mem_cons.mpr ⟨⟨hstep, ⟨hn, hacyclic⟩, rest.source⟩, ih⟩

end Network

variable {n : Network} {o : RestructureOptions} {report : RestructureReport} {w : Workspace}

/-- **Exactly when restructuring never makes a network deeper.**  Neither the run nor any
rewrite in it does so if and only if after each rewrite the outputs that still contain the
replaced expression are not above the depth there was before. -/
theorem restructure_depth_iff (hn : n.WellFormed) (h : n.restructure o = .ok report w) :
    (report.depthAfter ≤ report.depthBefore ∧
        ∀ r ∈ n.rewrites o, r.after.depth ≤ r.before.depth) ↔
      ∀ r ∈ n.rewrites o, r.Settles := by
  obtain ⟨hderivation, -, hbefore, hafter⟩ := restructure_derivation hn h
  have hiff : ∀ r ∈ n.rewrites o, r.after.depth ≤ r.before.depth ↔ r.Settles := by
    intro r hr
    obtain ⟨hstep, ⟨hn, hacyclic⟩, hm, hmacyclic⟩ := hderivation.mem r hr
    exact hstep.depth_iff hn hacyclic hm hmacyclic
  rw [hbefore, hafter]
  constructor
  · rintro ⟨-, hrewrites⟩ r hr
    exact (hiff r hr).mp (hrewrites r hr)
  · intro hsettles
    have hrewrites : ∀ r ∈ n.rewrites o, r.after.depth ≤ r.before.depth :=
      fun r hr => (hiff r hr).mpr (hsettles r hr)
    exact ⟨hderivation.depth_le hrewrites, hrewrites⟩

/-- Two conjunctions with a common operand, factored by the distributive law. -/
theorem restructure_depth_iff_of_common : ∃ (n : Network) (report : RestructureReport)
    (w : Workspace), n.restructure {} = .ok report w ∧ report.tally.distributivity = 1 ∧
      ((report.depthAfter ≤ report.depthBefore ∧
          ∀ r ∈ n.rewrites {}, r.after.depth ≤ r.before.depth) ↔
        ∀ r ∈ n.rewrites {}, r.Settles) := by
  let n := Network.empty.assemble [.input, .input, .input, .gate 2 6, .gate 4 6, .gate 8 10,
    .output 12]
  have hn : n.WellFormed := (Network.Sound.assemble wellFormed_empty _).1
  have hends : (match n.restructure {} with
    | .ok report _ => report.tally.distributivity == 1 | .error _ _ => false) = true := by
    decide +kernel
  cases hrun : n.restructure {} with
  | error => simp [hrun] at hends
  | ok report w =>
      simp only [hrun, beq_iff_eq] at hends
      exact ⟨n, report, w, hrun, hends, restructure_depth_iff hn hrun⟩

/-- A network in which a factored gate, once replaced, is left behind below another output. -/
def leftover : Network := Network.empty.assemble
  [.input, .input, .input, .input, .input, .input, .input, .input, .gate 2 4, .gate 2 5,
    .gate 18 20, .gate 23 6, .gate 22 12, .gate 26 14, .gate 24 8, .gate 6 8, .gate 29 6,
    .gate 34 8, .gate 36 10, .gate 38 16, .gate 6 12, .gate 43 2, .gate 45 4, .gate 47 6,
    .gate 49 8, .gate 26 50, .gate 30 53, .gate 32 53, .gate 54 10, .gate 56 10, .output 58,
    .output 60, .output 40]

/-- **Restructuring may make a network deeper.**  Here one pass of the distributive laws takes
a network from depth 8 to depth 9. -/
theorem restructure_may_deepen : ¬ ∀ (n : Network) (o : RestructureOptions)
    (report : RestructureReport) (w : Workspace), n.WellFormed → n.Acyclic →
      n.restructure o = .ok report w → report.depthAfter ≤ report.depthBefore ∧
        ∀ r ∈ n.rewrites o, r.after.depth ≤ r.before.depth := by
  intro h
  let o : RestructureOptions := { RestructureOptions.only .distributivity with maxPasses := some 1 }
  obtain ⟨hn, hacyclic⟩ : leftover.Sound := Network.Sound.assemble wellFormed_empty _
  have hdepths : (match leftover.restructure o with
    | .ok report _ => report.depthBefore == 8 && report.depthAfter == 9
    | .error _ _ => false) = true := by decide +kernel
  cases hrun : leftover.restructure o with
  | error => simp [hrun] at hdepths
  | ok report w =>
      simp only [hrun, Bool.and_eq_true, beq_iff_eq] at hdepths
      have hle := (h leftover o report w hn hacyclic hrun).1
      omega

end AndInverter
