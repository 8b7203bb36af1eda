import AndInverter.Network.Summary
import AndInverter.Proofs.Expression

/-!
Networks that differ in the positions of their nodes only.

* `Network.IsomorphicBy`: the positions of one network by those of another;
* `IsomorphicBy.gates_perm`, `references_perm`: gates and references correspond;
* `IsomorphicBy.level`, `IsomorphicBy.fanout`: so do levels and counts of uses;
* `IsomorphicBy.summary`: the figures by which a network is summed up are the same;
* `isomorphicBy_of_expression`: networks whose nodes have the same expressions are isomorphic.
-/

namespace AndInverter

/-- The signal when nodes go by other numbers. -/
def Signal.renumber (f : Nat → Nat) (s : Signal) : Signal := ⟨f s.node, s.complemented⟩

/-- **Two networks that differ in the positions of their nodes only**, where the second one has
no dead nodes.  The fan-ins of a gate may be in the other order. -/
structure Network.IsomorphicBy (n m : Network) (f : Nat → Nat) : Prop where
  bijOn : Set.BijOn f {v | n.isLive v = true} {v | v < m.size}
  zero : f 0 = 0
  inputs : m.inputs.toList = n.inputs.toList.map f
  isLiveGate_iff : ∀ v, n.isLive v = true → (m.isLiveGate (f v) = true ↔ n.isLiveGate v = true)
  gate : ∀ g a b, n.Gate g a b →
    m.Gate (f g) (a.renumber f) (b.renumber f) ∨ m.Gate (f g) (b.renumber f) (a.renumber f)
  outputs : m.outputs.toList = n.outputs.toList.map (·.renumber f)

namespace Network

variable {n m : Network} {f : Nat → Nat} {g u v w : Nat} {a b s t : Signal}

/-! ### Counting -/

/-- To be renamed by numbers that are different leaves the count of a number as it is. -/
lemma count_map_of_injOn {l : List Nat} (h : ∀ u ∈ l, f u = f v → u = v) :
    (l.map f).count (f v) = l.count v := by
  rw [List.count, List.countP_map, List.count]
  refine List.countP_congr fun u hu => ?_
  simp only [Function.comp_apply, beq_iff_eq]
  exact ⟨h u hu, fun heq => heq ▸ rfl⟩

/-- Two keys may be counted in either order. -/
lemma countUp_comm (k l : Nat) (counts : List (Nat × Nat)) :
    countUp k (countUp l counts) = countUp l (countUp k counts) := by
  induction counts with
  | nil =>
      rcases Nat.lt_trichotomy k l with hlt | rfl | hlt
      · simp [countUp, hlt, Nat.lt_asymm hlt, Nat.ne_of_gt hlt]
      · rfl
      · simp [countUp, hlt, Nat.lt_asymm hlt, Nat.ne_of_gt hlt]
  | cons first rest ih =>
      obtain ⟨key, count⟩ := first
      -- where both belong, as far as the first entry tells
      rcases Nat.lt_trichotomy k key with hk | hk | hk <;>
        rcases Nat.lt_trichotomy l key with hl | hl | hl <;>
          grind [countUp]

/-! ### What corresponds -/

namespace IsomorphicBy

section

variable (h : n.IsomorphicBy m f) (hn : n.WellFormed) (hm : m.WellFormed)

include h

/-- No two live nodes correspond to the same one. -/
lemma injOn (hu : n.isLive u = true) (hv : n.isLive v = true) (heq : f u = f v) : u = v :=
  h.bijOn.injOn hu hv heq

/-- The live gates correspond. -/
lemma gates_perm : m.gates.Perm (n.gates.map f) := by
  have hlive : ∀ g ∈ n.gates, n.isLive g = true := by
    intro g hg
    obtain ⟨a, b, hg⟩ := mem_gates.mp hg
    exact hg.isLive
  have hnodup : (n.gates.map f).Nodup :=
    n.nodup_gates.map_on fun u hu v hv => h.injOn (hlive u hu) (hlive v hv)
  refine (List.perm_ext_iff_of_nodup m.nodup_gates hnodup).mpr fun w => ?_
  rw [mem_gates, ← Network.isLiveGate_iff, List.mem_map]
  constructor
  · intro hw
    obtain ⟨a, b, hg⟩ := Network.isLiveGate_iff.mp hw
    obtain ⟨v, hv, rfl⟩ := h.bijOn.surjOn hg.lt_size
    exact ⟨v, mem_gates.mpr (Network.isLiveGate_iff.mp ((h.isLiveGate_iff v hv).mp hw)), rfl⟩
  · rintro ⟨v, hv, rfl⟩
    exact (h.isLiveGate_iff v (hlive v hv)).mpr (Network.isLiveGate_iff.mpr (mem_gates.mp hv))

/-- The references correspond, up to the order of the fan-ins. -/
lemma references_perm : m.references.Perm (n.references.map f) := by
  rw [references, references, List.map_append, List.map_flatMap]
  refine List.Perm.append ?_ (.of_eq ?_)
  · refine (h.gates_perm.flatMap_right _).trans ?_
    rw [List.flatMap_map]
    refine List.Perm.flatMap_left _ fun g hg => ?_
    obtain ⟨a, b, hg⟩ := mem_gates.mp hg
    rw [hg.fanIns?]
    rcases h.gate g a b hg with hg' | hg' <;> rw [hg'.fanIns?]
    · exact .refl _
    · exact .swap _ _ _
  · rw [h.outputs, List.map_map, List.map_map]
    rfl

include hn

/-- What corresponds to a live node is live. -/
lemma isLive (hm : m.WellFormed) (hv : n.isLive v = true) : m.isLive (f v) = true := by
  by_cases hgate : n.isLiveGate v = true
  · obtain ⟨a, b, hg⟩ := Network.isLiveGate_iff.mp ((h.isLiveGate_iff v hv).mpr hgate)
    exact hg.isLive
  · rcases hn.mem_sources_iff.mp (mem_sources.mpr ⟨hv, hgate⟩) with rfl | hinput
    · rw [h.zero]
      exact hm.isLive_zero
    · refine hm.isLive_of_mem_inputs (Array.mem_toList_iff.mp ?_)
      rw [h.inputs]
      exact List.mem_map_of_mem (Array.mem_toList_iff.mpr hinput)

/-- **Nodes that correspond are used equally often.** -/
lemma fanout (hm : m.WellFormed) (hv : n.isLive v = true) : m.fanout (f v) = n.fanout v := by
  have huses : (n.references.map f).count (f v) = n.references.count v :=
    count_map_of_injOn fun u hu => h.injOn (hn.isLive_of_mem_references hu) hv
  rw [hm.fanout_eq _ (h.isLive hn hm hv), hn.fanout_eq v hv, ← count_references,
    ← count_references, h.references_perm.count_eq, huses]
  rfl

variable (hacyclic : n.Acyclic) (hmacyclic : m.Acyclic)

include hacyclic hmacyclic

/-- **Nodes that correspond have the same level.** -/
lemma level (hv : n.isLive v = true) : m.level (f v) = n.level v := by
  revert hv
  refine hacyclic.induction (P := fun v => n.isLive v = true → m.level (f v) = n.level v) ?_ v
  intro v ih hv
  by_cases hgate : n.isLiveGate v = true
  · obtain ⟨a, b, hg⟩ := Network.isLiveGate_iff.mp hgate
    obtain ⟨hla, hlb⟩ := hn.fanIns_live v a b hg
    have ha := ih a.node hg.reads_left hla
    have hb := ih b.node hg.reads_right hlb
    rw [level_gate hacyclic hg, ← ha, ← hb]
    rcases h.gate v a b hg with hg' | hg' <;> rw [level_gate hmacyclic hg']
    · rfl
    · rw [max_comm]
      rfl
  · rw [level_of_not_gate hgate, level_of_not_gate (mt (h.isLiveGate_iff v hv).mp hgate)]

/-- **The depth is the same.** -/
lemma depth : m.depth = n.depth := by
  rw [Network.depth, Network.depth, ← Array.foldl_toList, ← Array.foldl_toList, h.outputs,
    List.foldl_map]
  refine List.foldl_ext _ _ 0 fun depth s hs => ?_
  have hlive := hn.outputs_live s (Array.mem_toList_iff.mp hs)
  exact congrArg (max depth) (h.level hn hacyclic hmacyclic hlive)

end

/-- As many nodes have as many uses. -/
lemma fanoutHistogram (h : n.IsomorphicBy m f) (hn : n.WellFormed) (hm : m.WellFormed) :
    m.fanoutHistogram = n.fanoutHistogram := by
  have hlive : ∀ v ∈ n.inputs.toList ++ n.gates, n.isLive v = true := by
    intro v hv
    rcases List.mem_append.mp hv with hv | hv
    · exact hn.isLive_of_mem_inputs (Array.mem_toList_iff.mp hv)
    · obtain ⟨a, b, hg⟩ := mem_gates.mp hv
      exact hg.isLive
  have hperm : (m.inputs.toList ++ m.gates).Perm ((n.inputs.toList ++ n.gates).map f) := by
    rw [List.map_append, h.inputs]
    exact h.gates_perm.append_left _
  rw [Network.fanoutHistogram, Network.fanoutHistogram,
    hperm.foldl_eq' fun u _ v _ counts => countUp_comm _ _ counts, List.foldl_map]
  refine List.foldl_ext _ _ [] fun counts v hv => ?_
  rw [h.fanout hn hm (hlive v hv)]

/-- Networks without dead nodes have as many nodes. -/
lemma size (h : n.IsomorphicBy m f) (hall : ∀ v, v < n.size → n.isLive v = true) :
    m.size = n.size := by
  have hset : {v | n.isLive v = true} = {v | v < n.size} :=
    Set.ext fun v => ⟨lt_size_of_isLive, hall v⟩
  have hbij := h.bijOn
  rw [hset] at hbij
  have hranges : Set.BijOn f (Finset.range n.size) (Finset.range m.size) := by
    rw [Finset.coe_range, Finset.coe_range]
    exact hbij
  simpa using hranges.finsetCard_eq.symm

end IsomorphicBy

/-! ### The figures -/

/-- **The figures of an acyclic network.** -/
lemma summary_eq_ok (hn : n.WellFormed) (hacyclic : n.Acyclic) : n.summary = .ok
    { inputs := n.inputs.size
      outputs := n.outputs.size
      gates := n.liveGates
      size := n.size
      depth := n.depth
      fanoutHistogram := n.fanoutHistogram } := by
  cases horder : n.order with
  | error fault => exact absurd hacyclic (order_eq_error horder hn.fanIns_live).1
  | ok order =>
      have hlevels : n.levels = .ok (n.levelsAlong order) := by
        rw [levels, horder]
        rfl
      have hdepth : n.outputDepth (n.levelsAlong order) = n.depth := by
        rw [outputDepth, depth]
        simp only [(levelsAlong_getD horder).2]
      rw [summary, hlevels, except_ok_bind, hdepth]
      rfl

/-- **Isomorphic networks have the same figures**, unless nodes are dead. -/
theorem IsomorphicBy.summary (h : n.IsomorphicBy m f) (hn : n.WellFormed) (hacyclic : n.Acyclic)
    (hm : m.WellFormed) (hmacyclic : m.Acyclic) (hall : ∀ v, v < n.size → n.isLive v = true) :
    m.summary = n.summary := by
  have hinputs : m.inputs.size = n.inputs.size := by
    rw [← Array.length_toList, h.inputs, List.length_map, Array.length_toList]
  have houtputs : m.outputs.size = n.outputs.size := by
    rw [← Array.length_toList, h.outputs, List.length_map, Array.length_toList]
  have hgates : m.liveGates = n.liveGates := by
    rw [hm.liveGates_eq, hn.liveGates_eq, h.gates_perm.length_eq, List.length_map]
  rw [summary_eq_ok hm hmacyclic, summary_eq_ok hn hacyclic, hinputs, houtputs, hgates,
    h.size hall, h.depth hn hacyclic hmacyclic, h.fanoutHistogram hn hm]

/-! ### Expressions -/

section Expressions

open Expression

variable (hn : n.WellFormed) (hacyclic : n.Acyclic)

include hn hacyclic

/-- No live node has a complemented expression. -/
lemma expression_plain (hv : n.isLive v = true) : (n.expression v).complemented = false :=
  (distinct hn hacyclic (n.level v + 1)).plain v hv (Nat.lt_succ_self _)

/-- Whether a live node is a gate can be read off its expression. -/
lemma isLiveGate_iff_expression (hv : n.isLive v = true) :
    n.isLiveGate v = true ↔ (n.expression v).node % 2 = 1 := by
  by_cases hgate : n.isLiveGate v = true
  · obtain ⟨a, b, hg⟩ := isLiveGate_iff.mp hgate
    obtain ⟨key, hkey, -⟩ := expression_gate hn hacyclic hg
    refine iff_of_true hgate ?_
    simp only [hkey, ofKey, Signal.ofNode]
    omega
  · refine iff_of_false hgate ?_
    rcases expression_source hn hacyclic hv hgate with ⟨-, hsource⟩ | ⟨i, -, hsource⟩
    · rw [hsource]
      decide
    · simp only [hsource, ofInput, Signal.ofNode]
      omega

variable (hm : m.WellFormed) (hmacyclic : m.Acyclic)
  (hf : ∀ v, n.isLive v = true → m.isLive (f v) = true ∧ m.expression (f v) = n.expression v)

include hm hmacyclic hf

omit hn hacyclic in
/-- A node with the expression of another one is the one that corresponds to it. -/
lemma eq_of_expression (hv : n.isLive v = true) (hw : m.isLive w = true)
    (heq : m.expression w = n.expression v) : w = f v := by
  obtain ⟨hlive, hsame⟩ := hf v hv
  exact expression_injective hm hmacyclic hw hlive (congrArg Signal.node (heq.trans hsame.symm))

/-- A signal with the expression of another one is the one that corresponds to it. -/
lemma eq_renumber (hs : n.isLive s.node = true) (ht : m.isLive t.node = true)
    (heq : m.expressionOf t = n.expressionOf s) : t = s.renumber f := by
  obtain ⟨hlive, hsame⟩ := hf s.node hs
  have hnodes : (m.expressionOf t).node = (n.expressionOf s).node := congrArg Signal.node heq
  have hnode : t.node = f s.node := by
    refine expression_injective hm hmacyclic ht hlive ?_
    rw [hsame]
    exact hnodes
  have hcomplemented := congrArg Signal.complemented heq
  simp only [expressionOf, Signal.complemented_complementIf, expression_plain hn hacyclic hs,
    expression_plain hm hmacyclic ht, Bool.false_xor] at hcomplemented
  cases t
  exact congr (congrArg Signal.mk hnode) hcomplemented

/-- A node corresponds to a gate exactly if it is one. -/
lemma isLiveGate_iff_of_expression (hv : n.isLive v = true) :
    m.isLiveGate (f v) = true ↔ n.isLiveGate v = true := by
  obtain ⟨hlive, hsame⟩ := hf v hv
  rw [isLiveGate_iff_expression hm hmacyclic hlive, hsame, isLiveGate_iff_expression hn hacyclic hv]

/-- **Gates with the same expression have the same fan-ins**, perhaps in the other order: their
keys are the same, and these are made of the expressions of the fan-ins. -/
lemma gate_of_expression (hg : n.Gate g a b) :
    m.Gate (f g) (a.renumber f) (b.renumber f) ∨ m.Gate (f g) (b.renumber f) (a.renumber f) := by
  obtain ⟨hla, hlb⟩ := hn.fanIns_live g a b hg
  have hgate : m.isLiveGate (f g) = true :=
    (isLiveGate_iff_of_expression hn hacyclic hm hmacyclic hf hg.isLive).mpr
      (isLiveGate_iff.mpr ⟨a, b, hg⟩)
  obtain ⟨c, d, hg'⟩ := isLiveGate_iff.mp hgate
  obtain ⟨hlc, hld⟩ := hm.fanIns_live (f g) c d hg'
  obtain ⟨key, hkey, hform⟩ := expression_gate hn hacyclic hg
  obtain ⟨key', hkey', hform'⟩ := expression_gate hm hmacyclic hg'
  obtain rfl : key' = key := by
    refine ofKey_injective ?_
    rw [← hkey', ← hkey, (hf g hg.isLive).2]
  have hfanIns : (m.expressionOf c = n.expressionOf a ∧ m.expressionOf d = n.expressionOf b) ∨
      (m.expressionOf c = n.expressionOf b ∧ m.expressionOf d = n.expressionOf a) := by
    rcases key_of_conjunction hform with h | h <;>
      rcases key_of_conjunction hform' with h' | h' <;>
        rw [h, AndKey.mk.injEq] at h' <;> simp [h'.1, h'.2]
  have hrenumber : ∀ {s t}, n.isLive s.node = true → m.isLive t.node = true →
      m.expressionOf t = n.expressionOf s → t = s.renumber f :=
    fun hs ht => eq_renumber hn hacyclic hm hmacyclic hf hs ht
  rcases hfanIns with ⟨hc, hd⟩ | ⟨hc, hd⟩
  · rw [← hrenumber hla hlc hc, ← hrenumber hlb hld hd]
    exact .inl hg'
  · rw [← hrenumber hlb hlc hc, ← hrenumber hla hld hd]
    exact .inr hg'

/-- As many inputs correspond in their order. -/
lemma inputs_of_expression (hinputs : m.inputs.size = n.inputs.size) :
    m.inputs.toList = n.inputs.toList.map f := by
  refine List.ext_getElem (by simpa using hinputs) fun k hk hk' => ?_
  rw [List.getElem_map]
  rw [List.length_map] at hk'
  have hat : m.inputs[k]? = some m.inputs.toList[k] := by
    rw [← Array.getElem?_toList, List.getElem?_eq_getElem hk]
  have hat' : n.inputs[k]? = some n.inputs.toList[k] := by
    rw [← Array.getElem?_toList, List.getElem?_eq_getElem hk']
  refine eq_of_expression hm hmacyclic hf (hn.isLive_of_mem_inputs (Array.mem_of_getElem? hat'))
    (hm.isLive_of_mem_inputs (Array.mem_of_getElem? hat)) ?_
  exact ((models_interpret hm hmacyclic).input k _ hat).trans
    ((models_interpret hn hacyclic).input k _ hat').symm

/-- Outputs with the same expressions correspond. -/
lemma outputs_of_expression
    (houtputs : m.outputs.toList.map m.expressionOf = n.outputs.toList.map n.expressionOf) :
    m.outputs.toList = n.outputs.toList.map (·.renumber f) := by
  have hlength : m.outputs.toList.length = n.outputs.toList.length := by
    simpa only [List.length_map] using congrArg List.length houtputs
  refine List.ext_getElem (by rw [List.length_map, hlength]) fun k hk hk' => ?_
  rw [List.length_map] at hk'
  rw [List.getElem_map]
  refine eq_renumber hn hacyclic hm hmacyclic hf
    (hn.outputs_live _ (Array.mem_toList_iff.mp (List.getElem_mem hk')))
    (hm.outputs_live _ (Array.mem_toList_iff.mp (List.getElem_mem hk))) ?_
  have hat := congrArg (·[k]?) houtputs
  simpa only [List.getElem?_map, List.getElem?_eq_getElem hk, List.getElem?_eq_getElem hk',
    Option.map_some, Option.some.injEq] using hat

/-- **Networks whose nodes have the same expressions are isomorphic.** -/
theorem isomorphicBy_of_expression
    (hall : ∀ w, w < m.size → m.isLive w = true ∧
      ∃ v, n.isLive v = true ∧ m.expression w = n.expression v)
    (hinputs : m.inputs.size = n.inputs.size)
    (houtputs : m.outputs.toList.map m.expressionOf = n.outputs.toList.map n.expressionOf) :
    n.IsomorphicBy m f where
  bijOn := by
    refine ⟨fun v hv => lt_size_of_isLive (hf v hv).1, fun u hu v hv heq => ?_, fun w hw => ?_⟩
    · refine expression_injective hn hacyclic hu hv (congrArg Signal.node ?_)
      rw [← (hf u hu).2, ← (hf v hv).2, heq]
    · obtain ⟨hlive, v, hv, hsame⟩ := hall w hw
      exact ⟨v, hv, (eq_of_expression hm hmacyclic hf hv hlive hsame).symm⟩
  zero := by
    refine (eq_of_expression hm hmacyclic hf hn.isLive_zero hm.isLive_zero ?_).symm
    rw [expression_zero hm hmacyclic, expression_zero hn hacyclic]
  inputs := inputs_of_expression hn hacyclic hm hmacyclic hf hinputs
  isLiveGate_iff _ hv := isLiveGate_iff_of_expression hn hacyclic hm hmacyclic hf hv
  gate _ _ _ hg := gate_of_expression hn hacyclic hm hmacyclic hf hg
  outputs := outputs_of_expression hn hacyclic hm hmacyclic hf houtputs

end Expressions

end Network

end AndInverter
