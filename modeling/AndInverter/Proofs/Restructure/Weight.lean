import Mathlib.Algebra.Order.BigOperators.Group.List
import AndInverter.Proofs.Network.Termination
import AndInverter.Proofs.Restructure.Depth
import AndInverter.Proofs.Weight

/-!
What restructuring does to weights.  Each law replaces a gate by something lighter, so a rewrite
takes weight off every output and every unused gate above the replaced one.

* `Associativity.build_weight_lt`, `Distributivity.build_weight_lt`,
  `ThreeLevel.build_weight_lt`: the laws make gates lighter;
* `Network.burden`: what the outputs and the unused gates of a network weigh together, and
  `burden_lt_passBound`: less than the number of passes that restructuring allows itself;
* `burden_lt_of_substitute`: a rewrite takes from the burden, unless the replaced expression
  occurs again; `Idles.burden_le`: nothing else that an attempt does adds to it.
-/

namespace AndInverter

open Expression Network Relation

variable {n n₁ n₂ m : Network} {gate k v : Nat} {a b f g s : Signal}

/-! ### Conjunctions that are added -/

lemma Network.Extends.weight (h : n.Extends m) (hn : n.WellFormed) (hacyclic : n.Acyclic)
    (hm : m.WellFormed) {v : Nat} (hv : n.isLive v = true) : m.weight v = n.weight v := by
  rw [Network.weight, Network.weight, expression, expression, h.interpret hn hacyclic hm hv]

/-- A conjunction that is added weighs one gate more than its operands, at most, and nothing else
gets heavier. -/
lemma weight_of_addAnd (hn : n.WellFormed) (hacyclic : n.Acyclic)
    (hrun : Edit.addAnd f g n = .ok s m) :
    m.weight s.node
        ≤ 16 ^ (1 + max (n.level f.node) (n.level g.node)) + n.weight f.node + n.weight g.node ∧
      ∀ v, n.isLive v = true → m.weight v = n.weight v := by
  obtain ⟨hf, hg, hm, hext, -, -, hand⟩ := addAnd_spec hn hrun
  have h := conjoins_of_addAnd hn hacyclic hrun
  have hkeep : ∀ v, n.isLive v = true → m.weight v = n.weight v :=
    fun v hv => hext.weight hn hacyclic hm hv
  refine ⟨?_, hkeep⟩
  rw [← hkeep _ hf, ← hkeep _ hg, ← h.level _ hf, ← h.level _ hg]
  exact hand.weight_le hm h.acyclic

lemma Network.Joins.weight (h : n.Joins gate a b) (hn : n.WellFormed) (hacyclic : n.Acyclic) :
    n.weight gate = 16 ^ n.level gate + n.weight a.node + n.weight b.node := by
  rcases h with h | h
  · exact weight_gate hn hacyclic h
  · have := weight_gate hn hacyclic h
    omega

/-! ### The three laws -/

/-- **The associative law makes a gate lighter.** -/
theorem Associativity.build_weight_lt {o : Opportunity} (hn : n.WellFormed)
    (hacyclic : n.Acyclic) (h : Matches n gate o) (hrun : build o n = .ok s m) :
    m.weight s.node < n.weight gate := by
  obtain ⟨q, hgate, -, hjoins, hlevel⟩ := h
  simp only [build, bind_eq_ok] at hrun
  obtain ⟨pb, n₁, hpb, hs⟩ := hrun
  have h₁ := conjoins_of_addAnd hn hacyclic hpb
  obtain ⟨hweight₁, hkeep₁⟩ := weight_of_addAnd hn hacyclic hpb
  obtain ⟨hweight₂, -⟩ := weight_of_addAnd h₁.wellFormed h₁.acyclic hs
  have ha := (hjoins.live hn).1
  rw [h₁.level _ ha, hkeep₁ _ ha] at hweight₂
  have hpb' := h₁.level_le
  have hinner := sixteen_mul_pow_le (show 1 + max (n.level o.p.node) (n.level o.b.node)
    < n.level gate by omega)
  have houter := sixteen_mul_pow_le (show 1 + max (n₁.level pb.node) (n.level o.a.node)
    < n.level gate by omega)
  have hold := hgate.weight hn hacyclic
  have hold' := hjoins.weight hn hacyclic
  have hpos : 0 < 16 ^ n.level gate := Nat.pow_pos (by omega)
  have hpos' : 0 < 16 ^ n.level q.node := Nat.pow_pos (by omega)
  omega

namespace Distributivity

/-- The gates above the three operands weigh more than those of the replacement. -/
lemma pow_add_pow_lt {x y z : Nat} (hz : z ≤ max x y) : 16 ^ z < 16 ^ x + 16 ^ y := by
  have hx : 0 < 16 ^ x := Nat.pow_pos (by omega)
  have hy : 0 < 16 ^ y := Nat.pow_pos (by omega)
  rcases le_total x y with hxy | hxy
  · have := Nat.pow_le_pow_right (show 0 < 16 by omega) (hz.trans_eq (max_eq_right hxy))
    omega
  · have := Nat.pow_le_pow_right (show 0 < 16 by omega) (hz.trans_eq (max_eq_left hxy))
    omega

/-- **A distributive law makes a gate lighter**, though it may not lower it: one of its fan-ins
is spared. -/
theorem build_weight_lt {o : Opportunity} (hn : n.WellFormed) (hacyclic : n.Acyclic)
    (h : Matches n gate o) (hrun : build o n = .ok s m) : m.weight s.node < n.weight gate := by
  obtain ⟨x, y, hgate, -, -, hx, hy⟩ := h
  have hold := hgate.weight hn hacyclic
  have holdx := hx.weight hn hacyclic
  have holdy := hy.weight hn hacyclic
  have hlevel := hgate.level hacyclic
  have hlevelx := hx.level hacyclic
  have hlevely := hy.level hacyclic
  have hspared := pow_add_pow_lt (show 1 + max (n.level o.a.node) (n.level o.b.node)
    ≤ max (n.level x.node) (n.level y.node) by omega)
  obtain ⟨f, g, both, either, t, n₁, hinner, houter, ⟨hf, hg⟩, heither, hs⟩ :=
    exists_addAnd_of_build hrun
  have h₁ := conjoins_of_addAnd hn hacyclic hinner
  obtain ⟨hweight₁, hkeep₁⟩ := weight_of_addAnd hn hacyclic hinner
  obtain ⟨hweight₂, -⟩ := weight_of_addAnd h₁.wellFormed h₁.acyclic houter
  have hshared := (hx.live hn).1
  have hle := h₁.level_le
  rw [h₁.level _ hshared, hkeep₁ _ hshared, heither] at hweight₂
  rw [hf, hg] at hweight₁ hle
  have hpow := Nat.pow_le_pow_right (show 0 < 16 by omega)
    (show 1 + max (n.level o.shared.node) (n₁.level both.node) ≤ n.level gate by omega)
  rw [hs]
  omega

end Distributivity

/-- **The three-level law makes a gate lighter.**  It doubles an operand, but one that is far
below the gate. -/
theorem ThreeLevel.build_weight_lt {o : Opportunity} (hn : n.WellFormed) (hacyclic : n.Acyclic)
    (h : Matches n gate o) (hrun : build o n = .ok s m) : m.weight s.node < n.weight gate := by
  obtain ⟨z, w, hgate, -, hz, -, hw, hlevelD, hlevelC, hlevelA⟩ := h
  simp only [build, Edit.addNand, bind_eq_ok, pure_eq_ok] at hrun
  obtain ⟨ad, n₁, had, adb, n₂, hadb, notCD, n₃, hnotCD, both, m, hboth, rfl, rfl⟩ := hrun
  have h₁ := conjoins_of_addAnd hn hacyclic had
  have h₂ := conjoins_of_addAnd h₁.wellFormed h₁.acyclic hadb
  have h₃ := conjoins_of_addAnd h₂.wellFormed h₂.acyclic hnotCD
  obtain ⟨hweight₁, hkeep₁⟩ := weight_of_addAnd hn hacyclic had
  obtain ⟨hweight₂, hkeep₂⟩ := weight_of_addAnd h₁.wellFormed h₁.acyclic hadb
  obtain ⟨hweight₃, hkeep₃⟩ := weight_of_addAnd h₂.wellFormed h₂.acyclic hnotCD
  obtain ⟨hweight₄, -⟩ := weight_of_addAnd h₃.wellFormed h₃.acyclic hboth
  have hb := (hw.live hn).1
  have hc := (hz.live hn).2
  have hd := (hgate.live hn).2
  have hle₁ := h₁.level_le
  have hle₂ := h₂.level_le
  have hle₃ := h₃.level_le
  simp only [Signal.node_not] at hweight₃ hweight₄ hle₃ ⊢
  -- everything is brought down to levels and weights in the first network
  have hc₁ := h₁.grows.isLive hc
  have hd₁ := h₁.grows.isLive hd
  rw [h₁.level _ hb, hkeep₁ _ hb] at hweight₂
  rw [h₁.level _ hb] at hle₂
  rw [h₂.level _ hc₁, h₁.level _ hc, h₂.level _ hd₁, h₁.level _ hd] at hle₃
  rw [h₂.level _ hc₁, h₁.level _ hc, h₂.level _ hd₁, h₁.level _ hd, hkeep₂ _ hc₁, hkeep₁ _ hc,
    hkeep₂ _ hd₁, hkeep₁ _ hd] at hweight₃
  rw [h₃.level _ h₂.isLive, hkeep₃ _ h₂.isLive] at hweight₄
  have hlevel := hgate.level hacyclic
  have hlevelz := hz.level hacyclic
  have hlevelw := hw.level hacyclic
  have hpow₁ := sixteen_mul_pow_le (show 1 + max (n.level o.a.node) (n.level o.d.node)
    < n.level gate by omega)
  have hpow₂ := sixteen_mul_pow_le (show 1 + max (n₁.level ad.node) (n.level o.b.node)
    < n.level gate by omega)
  have hpow₃ := sixteen_mul_pow_le (show 1 + max (n.level o.c.node) (n.level o.d.node)
    < n.level gate by omega)
  have hpow₄ := sixteen_mul_pow_le (show 1 + max (n₂.level adb.node) (n₃.level notCD.node)
    < n.level gate by omega)
  have hdouble := Network.weight_lt hn hacyclic hd
  have hfar := sixteen_mul_pow_le (show n.level o.d.node < n.level gate by omega)
  have hold := hgate.weight hn hacyclic
  have holdz := hz.weight hn hacyclic
  have holdw := hw.weight hn hacyclic
  have hposz : 0 < 16 ^ n.level z.node := Nat.pow_pos (by omega)
  have hposw : 0 < 16 ^ n.level w.node := Nat.pow_pos (by omega)
  have hpos : 0 < 16 ^ n.level gate := Nat.pow_pos (by omega)
  omega

/-- **Every law makes a gate lighter.** -/
theorem Law.Suggests.weight_lt {law : Law} (h : law.Suggests n gate s m) (hn : n.WellFormed)
    (hacyclic : n.Acyclic) : m.weight s.node < n.weight gate := by
  cases law <;> obtain ⟨o, hmatches, hbuild⟩ := h
  · exact Associativity.build_weight_lt hn hacyclic hmatches hbuild
  · exact Distributivity.build_weight_lt hn hacyclic hmatches hbuild
  · exact ThreeLevel.build_weight_lt hn hacyclic hmatches hbuild

/-! ### The burden of a network -/

namespace Network

instance : DecidablePred n.Dangling := fun _ => inferInstanceAs (Decidable (_ ∧ _))

/-- The live gates without a use. -/
def dangling (n : Network) : Finset Nat := (Finset.range n.size).filter n.Dangling

lemma mem_dangling : v ∈ n.dangling ↔ n.Dangling v := by
  rw [dangling, Finset.mem_filter, Finset.mem_range]
  refine ⟨And.right, fun h => ⟨?_, h⟩⟩
  obtain ⟨a, b, hg⟩ := isLiveGate_iff.mp h.1
  exact hg.lt_size

lemma Dangling.isLive (h : n.Dangling v) : n.isLive v = true := by
  obtain ⟨a, b, hg⟩ := isLiveGate_iff.mp h.1
  exact hg.isLive

/-- The load of the outputs and the unused gates, where each node weighs as much as is said. -/
def load (n : Network) (weight : Nat → Nat) : Nat :=
  (n.outputs.toList.map fun s => weight s.node).sum + ∑ v ∈ n.dangling, weight v

/-- **The burden of a network**: what its outputs and its unused gates weigh together. -/
def burden (n : Network) : Nat := n.load n.weight

variable {weight weight' : Nat → Nat}

/-- Where no live node is heavier, and some output or unused gate is lighter, the load is
smaller. -/
lemma load_lt (hn : n.WellFormed) (hle : ∀ v, n.isLive v = true → weight v ≤ weight' v)
    (hroot : n.Dangling v ∨ ∃ s ∈ n.outputs, s.node = v) (hlt : weight v < weight' v) :
    n.load weight < n.load weight' := by
  have houtputs : ∀ s ∈ n.outputs.toList, weight s.node ≤ weight' s.node :=
    fun s hs => hle _ (hn.outputs_live s (Array.mem_toList_iff.mp hs))
  have hgates : ∀ v ∈ n.dangling, weight v ≤ weight' v :=
    fun v hv => hle v (mem_dangling.mp hv).isLive
  rcases hroot with hv | ⟨s, hs, rfl⟩
  · refine Nat.add_lt_add_of_le_of_lt (List.sum_le_sum houtputs) ?_
    exact Finset.sum_lt_sum hgates ⟨v, mem_dangling.mpr hv, hlt⟩
  · refine Nat.add_lt_add_of_lt_of_le ?_ (Finset.sum_le_sum hgates)
    exact List.sum_lt_sum _ _ houtputs ⟨s, Array.mem_toList_iff.mpr hs, hlt⟩

/-- A network whose outputs weigh as much, and whose unused gates are among those of another and
weigh as much, has no larger load. -/
lemma load_le_load (houtputs : m.outputs.toList.map (fun s => weight s.node)
      = n.outputs.toList.map fun s => weight' s.node)
    (hgates : ∀ v, m.Dangling v → n.Dangling v ∧ weight v = weight' v) :
    m.load weight ≤ n.load weight' := by
  rw [load, load, houtputs]
  refine Nat.add_le_add_left ?_ _
  calc ∑ v ∈ m.dangling, weight v
      = ∑ v ∈ m.dangling, weight' v :=
        Finset.sum_congr rfl fun v hv => (hgates v (mem_dangling.mp hv)).2
    _ ≤ ∑ v ∈ n.dangling, weight' v :=
        Finset.sum_le_sum_of_subset fun v hv =>
          mem_dangling.mpr (hgates v (mem_dangling.mp hv)).1

section Burden

variable (hn : n.WellFormed) (h : n.Acyclic)

include hn h

/-- No level is as large as there are nodes. -/
lemma level_lt_size (hv : n.isLive v = true) : n.level v < n.size := by
  obtain ⟨rank, hrank⟩ := h.exists_ranks hn
  have hle : ∀ v, n.level v ≤ rank v := by
    refine h.induction ?_
    intro v ih
    by_cases hgate : n.isLiveGate v = true
    · obtain ⟨a, b, hg⟩ := isLiveGate_iff.mp hgate
      have ha := ih a.node hg.reads_left
      have hb := ih b.node hg.reads_right
      have hlta := hrank.lt v a.node hg.reads_left
      have hltb := hrank.lt v b.node hg.reads_right
      rw [level_gate h hg]
      omega
    · rw [level_of_not_gate hgate]
      exact Nat.zero_le _
  by_cases hgate : n.isLiveGate v = true
  · exact (hle v).trans_lt (hrank.lt_size v hgate)
  · rw [level_of_not_gate hgate]
    exact (Nat.zero_le v).trans_lt (lt_size_of_isLive hv)

/-- **The burden is less than the number of passes** that restructuring allows itself. -/
theorem burden_lt_passBound : n.burden < Restructuring.passBound n none := by
  rw [burden]
  have hle : ∀ v, n.isLive v = true → n.weight v ≤ 16 ^ n.size := by
    intro v hv
    have hweight := weight_lt hn h hv
    have hpow := sixteen_mul_pow_le (level_lt_size hn h hv)
    omega
  have houtputs : (n.outputs.toList.map fun s => n.weight s.node).sum
      ≤ n.outputs.size * 16 ^ n.size := by
    have hsum := List.sum_le_card_nsmul (n.outputs.toList.map fun s => n.weight s.node)
      (16 ^ n.size) ?_
    · simpa using hsum
    · intro w hw
      obtain ⟨s, hs, rfl⟩ := List.mem_map.mp hw
      exact hle _ (hn.outputs_live s (Array.mem_toList_iff.mp hs))
  have hgates : ∑ v ∈ n.dangling, n.weight v ≤ n.size * 16 ^ n.size := by
    calc ∑ v ∈ n.dangling, n.weight v
        ≤ n.dangling.card • 16 ^ n.size :=
          Finset.sum_le_card_nsmul _ _ _ fun v hv => hle v (mem_dangling.mp hv).isLive
      _ ≤ n.size * 16 ^ n.size := by
          refine Nat.mul_le_mul_right _ ?_
          simpa [dangling] using Finset.card_filter_le (Finset.range n.size) n.Dangling
  have hpos : 0 < 16 ^ n.size := Nat.pow_pos (by omega)
  calc n.load n.weight
      ≤ n.outputs.size * 16 ^ n.size + n.size * 16 ^ n.size := Nat.add_le_add houtputs hgates
    _ = (n.size + n.outputs.size) * 16 ^ n.size := by rw [← Nat.add_mul, Nat.add_comm]
    _ < (n.size + n.outputs.size + 1) * 16 ^ n.size := by
        rw [Nat.succ_mul]
        omega
    _ ≤ (n.size + n.outputs.size + 1) * 16 ^ (n.size + 1) :=
        Nat.mul_le_mul_left _ (Nat.pow_le_pow_right (by omega) (Nat.le_succ _))
    _ = Restructuring.passBound n none := by
        rw [Restructuring.passBound, Nat.shiftLeft_eq, Nat.pow_mul]

/-- Every live gate is in the cone of an output or of an unused gate. -/
lemma exists_root (hg : n.isLiveGate gate = true) :
    ∃ v, n.DependsOn v gate ∧ (n.Dangling v ∨ ∃ s ∈ n.outputs, s.node = v) := by
  obtain ⟨rank, hrank⟩ := h.exists_ranks hn
  -- going up, from gate to consumer, the rank gets closer to the number of nodes
  obtain ⟨d, hd⟩ : ∃ d, d = n.size - rank gate := ⟨_, rfl⟩
  induction d using Nat.strong_induction_on generalizing gate with
  | h d ih =>
      by_cases h0 : n.fanout gate = 0
      · exact ⟨gate, .refl, .inl ⟨hg, h0⟩⟩
      · obtain ⟨a, b, hgate⟩ := isLiveGate_iff.mp hg
        rcases hn.exists_use hgate.isLive h0 with ⟨u, hread⟩ | ⟨s, hs, hsv⟩
        · have hlt := hrank.lt u gate hread
          have hsize := hrank.lt_size u hread.isLiveGate
          obtain ⟨v, hdep, hroot⟩ := ih (n.size - rank u) (by omega) hread.isLiveGate rfl
          exact ⟨v, hdep.tail hread, hroot⟩
        · exact ⟨gate, .refl, .inr ⟨s, hs, hsv⟩⟩

end Burden

/-- **An idle attempt** adds nothing to the burden if it leaves no gate unused. -/
theorem Idles.burden_le (h : n.Idles m) (hn : n.WellFormed) (hacyclic : n.Acyclic)
    (hm : m.WellFormed) (hunused : ∀ v, m.Dangling v → n.Dangling v) :
    m.burden ≤ n.burden := by
  have hkeep : ∀ v, n.isLive v = true → m.isLive v = true → m.weight v = n.weight v := by
    intro v hv hv'
    rw [Network.weight, Network.weight, expression, expression,
      h.interpret_of_live hn hacyclic hm hv hv']
  refine load_le_load ?_ ?_
  · rw [h.outputs]
    refine List.map_congr_left ?_
    intro s hs
    have hs := Array.mem_toList_iff.mp hs
    exact hkeep _ (hn.outputs_live s hs) (hm.outputs_live s (h.outputs.symm ▸ hs))
  · intro v hv
    exact ⟨hunused v hv, hkeep v (hunused v hv).isLive hv.isLive⟩

/-- **A rewrite takes from the burden** if the replacement is lighter than the gate, no gate is
left unused, and the replaced expression does not occur again. -/
theorem burden_lt_of_substitute (hn : n.WellFormed) (hacyclic : n.Acyclic)
    (hproposes : n.Proposes n₁ gate s) (hlighter : n₁.weight s.node < n.weight gate)
    (hne : s.node ≠ gate) (hsubstitute : Edit.substitute gate s n₁ = .ok k n₂)
    (hret : n₂.Retires m) (hm : m.WellFormed) (hmacyclic : m.Acyclic)
    (hunused : ∀ v, m.Dangling v → n.Dangling v)
    (hgone : ∀ v, m.isLive v = true → m.expression v ≠ n.expression gate) :
    m.burden < n.burden := by
  have h₁ := hproposes.wellFormed
  have hacyclic₁ := hproposes.grows.acyclic hacyclic hn.fanIns_live
  obtain ⟨hheight, hvalue⟩ := hproposes.identifies hn hacyclic hne
  obtain ⟨root, hdep, hroot⟩ := exists_root hn hacyclic hproposes.isLiveGate
  generalize he : n.expression gate = e at hheight hvalue hgone
  generalize he' : n₁.expressionOf s = e' at hheight hvalue
  have hlight : Expression.weight e'.node < n.weight gate := by
    rw [← he']
    exact hlighter
  -- the value of a node: its expression, where the gate has the name of its replacement
  have hbefore : ∀ v, n.isLive v = true → n₁.renamed e e' v = n.renamed e e' v :=
    fun v hv => hproposes.grows.interpret hn hacyclic h₁ hv
  rw [← Connectives.read_expressions] at hvalue
  obtain ⟨hφ₂, -⟩ := substitute_models h₁ hsubstitute (Connectives.expressions_lawful _)
    (models_renamed e e' h₁ hacyclic₁) hvalue
  have hfree : ∀ v, m.isLive v = true → m.renamed e e' v = m.expression v := fun v hv =>
    renamed_of_free hm hmacyclic hv fun u hu => hgone u (hm.isLive_of_dependsOn hv hu)
  have hafter : ∀ v, m.isLive v = true → m.expression v = n₁.renamed e e' v := by
    intro v hv
    rw [← hfree v hv]
    exact (eq_interpret_of_models (hφ₂.mono hret.inputs fun _ _ _ hg => hret.gate hg) hm
      hmacyclic hv).symm
  have hvalues := outputValues_of_substitute (Connectives.expressions_lawful _) hn hacyclic
    hproposes.grows h₁ hvalue hsubstitute hret hm hmacyclic
  calc m.burden
      ≤ n.load fun v => Expression.weight (n.renamed e e' v).node := by
        refine load_le_load ?_ ?_
        · have hweights := congrArg (List.map fun t : Signal => Expression.weight t.node) hvalues
          simp only [Network.outputValues, List.map_map, Function.comp_def,
            Connectives.read_expressions, Signal.node_complementIf] at hweights
          refine Eq.trans (List.map_congr_left ?_) hweights
          intro t ht
          rw [Network.weight, ← hfree _ (hm.outputs_live t (Array.mem_toList_iff.mp ht))]
          rfl
        · intro v hv
          refine ⟨hunused v hv, ?_⟩
          rw [Network.weight, hafter v hv.isLive, hbefore v (hunused v hv).isLive]
    _ < n.burden := by
        refine load_lt hn ?_ hroot ?_
        · intro v hv
          refine weight_renamed_le hn hacyclic hheight ?_ hv
          rw [← he]
          exact hlight.le
        · subst he
          exact weight_renamed_lt hn hacyclic hheight hlight hproposes.isLiveGate hdep

/-- A gate that an extension leaves unused was unused before. -/
lemma Extends.dangling (h : n.Extends m) (hn : n.WellFormed) (hm : m.WellFormed)
    (hv : m.Dangling v) (hlt : v < n.size) : n.Dangling v := by
  obtain ⟨a, b, hg⟩ := isLiveGate_iff.mp hv.1
  have hgn := (h.gate hlt).mp hg
  refine ⟨isLiveGate_iff.mpr ⟨a, b, hgn⟩, ?_⟩
  by_contra h0
  rcases hn.exists_use hgn.isLive h0 with ⟨u, c, d, hu, hread⟩ | ⟨s, hs, rfl⟩
  · exact hm.fanout_ne_zero_of_reads ⟨c, d, h.gate_of hu, hread⟩ hv.2
  · exact hm.fanout_ne_zero_of_output (h.outputs ▸ hs) hv.2

end Network

/-- **An attempt leaves no gate unused** that was in use. -/
theorem Restructuring.Commits.dangling {replaced : Bool} (h : Commits n.size gate s n₁ replaced m)
    (hn : n.WellFormed) (h₁ : n₁.WellFormed) (hext : n.Extends n₁) (hv : m.Dangling v) :
    n.Dangling v := by
  obtain ⟨-, -, hretire⟩ | ⟨-, -, k, l, hsubstitute, hretire⟩ := h
  · obtain ⟨hv₁, hlt⟩ := (retireUnused_spec h₁ hretire).2.2 v hv
    exact hext.dangling hn h₁ hv₁ hlt
  · have hl := (substitute_wellFormed h₁ hsubstitute).1
    obtain ⟨hv₂, hlt⟩ := (retireUnused_spec hl hretire).2.2 v hv
    exact hext.dangling hn h₁ (substitute_dangling h₁ hsubstitute hv₂) hlt

/-- **The replaced expression occurs again** after a rewrite. -/
def Rewrite.Recurs (r : Rewrite) : Prop :=
  ∃ v, r.after.isLive v = true ∧ r.after.expression v = r.before.expression r.gate

namespace Restructuring

variable {w w' : Workspace} {law : Law} {replaced : Bool}

/-- **What an attempt does to the burden**: it takes from it when it replaces the gate, unless the
replaced expression occurs again, and never adds to it otherwise. -/
theorem apply_burden (hw : Ready w) (h : apply law gate w = .ok replaced w')
    (hacyclic : w'.network.Acyclic) :
    (replaced = false → w'.network.burden ≤ w.network.burden) ∧
      (replaced = true → w'.network.burden < w.network.burden ∨
        Rewrite.Recurs ⟨w.network, gate, w'.network⟩) := by
  have hout := apply_spec hw h
  obtain ⟨rfl, hnetwork, -⟩ | ⟨s, n₁, hsuggests, hcommits, -⟩ := apply_eq_ok hw h
  · exact ⟨fun _ => by rw [hnetwork], nofun⟩
  · have hproposes := hsuggests.proposes hw.wellFormed hw.acyclic
    have hunused : ∀ v, w'.network.Dangling v → w.network.Dangling v :=
      fun v => hcommits.dangling hw.wellFormed hproposes.wellFormed hproposes.grows
    refine ⟨fun hfalse => (hout.idles hfalse).burden_le hw.wellFormed hw.acyclic hout.wellFormed
      hunused, ?_⟩
    intro htrue
    obtain ⟨-, rfl, -⟩ | ⟨hne, -, k, l, hsubstitute, hretire⟩ := hcommits
    · cases htrue
    · by_cases hrecurs : Rewrite.Recurs ⟨w.network, gate, w'.network⟩
      · exact .inr hrecurs
      · have hl := (substitute_wellFormed hproposes.wellFormed hsubstitute).1
        refine .inl (burden_lt_of_substitute hw.wellFormed hw.acyclic hproposes
          (hsuggests.weight_lt hw.wellFormed hw.acyclic) hne hsubstitute
          (retireUnused_spec hl hretire).2.1 hout.wellFormed hacyclic hunused ?_)
        exact fun v hv heq => hrecurs ⟨v, hv, heq⟩

end Restructuring

end AndInverter
