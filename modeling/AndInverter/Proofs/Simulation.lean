import AndInverter.Proofs.Network.Cone
import AndInverter.Proofs.Network.Evaluation
import AndInverter.Simulate

/-!
Simulation computes the values of the outputs, 64 assignments of the inputs at a time.  The
invariant of a pass along the cone is that the word of every node it has gone past carries the
values of that node, one in each lane.

* `lane` and `pattern`: one bit of a word, and the assignment that one lane of the words of the
  inputs stands for;
* `simulateAlong_lane`: a lane of the words of the outputs has their values under that
  assignment;
* `simulate_exact`: so each bit is the value of an output there, and depends on its cone alone;
* `lane_rowWord` and `lane_rowMask`: lane `j` of block `b` stands for row `64 * b + j`, and a
  table has as many lanes as rows.
-/

namespace AndInverter

variable {n : Network} {inputs : List UInt64} {words : Array UInt64} {before cone : List Nat}
  {j : Nat}

/-! ### Lanes -/

/-- **The bit in a lane** of a word. -/
def lane (word : UInt64) (j : Nat) : Bool := word.toNat.testBit j

@[simp] lemma lane_zero (j : Nat) : lane 0 j = false := Nat.zero_testBit j

@[simp] lemma lane_and (v w : UInt64) (j : Nat) : lane (v &&& w) j = (lane v j && lane w j) := by
  rw [lane, UInt64.toNat_and, Nat.testBit_and, lane, lane]

lemma lane_xor (v w : UInt64) (j : Nat) : lane (v ^^^ w) j = (lane v j ^^ lane w j) := by
  rw [lane, UInt64.toNat_xor, Nat.testBit_xor, lane, lane]

lemma lane_not (w : UInt64) (hj : j < 64) : lane (~~~w) j = !lane w j := by
  change (~~~w).toBitVec.getLsbD j = !w.toBitVec.getLsbD j
  rw [UInt64.toBitVec_not, BitVec.getLsbD_not, decide_eq_true hj, Bool.true_and]

/-- Words are the same if all their lanes are. -/
lemma eq_of_lane {v w : UInt64} (h : ∀ j < 64, lane v j = lane w j) : v = w :=
  UInt64.toBitVec_inj.mp (BitVec.eq_of_getLsbD_eq h)

/-- **The assignment in a lane** of the words of the inputs. -/
def pattern (inputs : List UInt64) (j : Nat) : Nat → Bool := fun i => lane (inputs.getD i 0) j

/-- The first lane of a word. -/
lemma lane_first (word : UInt64) : (word &&& 1 == 1) = lane word 0 := by
  rw [Bool.eq_iff_iff, beq_iff_eq, ← UInt64.toNat_inj, UInt64.toNat_and, lane, Nat.testBit_zero,
    decide_eq_true_eq]
  exact Iff.of_eq (congrArg (· = 1) (Nat.and_one_is_mod _))

/-- The assignment in a lane, as words of which the first lane carries it. -/
lemma pattern_map_lane (inputs : List UInt64) (j : Nat) :
    pattern ((inputs.map (lane · j)).map fun b => if b then 1 else 0) 0 = pattern inputs j := by
  funext i
  simp only [pattern, List.getD_eq_getElem?_getD, List.getElem?_map]
  cases inputs[i]? with
  | none => simp
  | some word =>
      simp only [Option.map_some, Option.getD_some]
      cases lane word j <;> decide

/-- The values in a lane of the words of the nodes. -/
def valuesIn (words : Array UInt64) (j : Nat) : Nat → Bool := fun v => lane (words.getD v 0) j

/-- A lane of the word of a signal is the value of the signal. -/
lemma lane_wordIn (s : Signal) (words : Array UInt64) (hj : j < 64) :
    lane (s.wordIn words) j = Connectives.bool.read (valuesIn words j) s := by
  rw [Connectives.read, Signal.wordIn]
  split
  · exact lane_not _ hj
  · rfl

/-! ### A pass along the cone -/

namespace Network

lemma size_foldl_setIfInBounds (pairs : List (Nat × UInt64)) (words : Array UInt64) :
    (pairs.foldl (fun words (p : Nat × UInt64) => words.setIfInBounds p.1 p.2) words).size
      = words.size := by
  induction pairs generalizing words with
  | nil => rfl
  | cons p rest ih => rw [List.foldl_cons, ih, Array.size_setIfInBounds]

/-- Words that are set at different positions are found there, and nothing else changes. -/
lemma getD_foldl_setIfInBounds (pairs : List (Nat × UInt64)) (words : Array UInt64)
    (hnodup : (pairs.map Prod.fst).Nodup) (hlt : ∀ p ∈ pairs, p.1 < words.size) (v : Nat) :
    (∀ w, (v, w) ∈ pairs → (pairs.foldl (fun words (p : Nat × UInt64) =>
      words.setIfInBounds p.1 p.2) words).getD v 0 = w) ∧
    (v ∉ pairs.map Prod.fst → (pairs.foldl (fun words (p : Nat × UInt64) =>
      words.setIfInBounds p.1 p.2) words).getD v 0 = words.getD v 0) := by
  induction pairs generalizing words with
  | nil => simp
  | cons p rest ih =>
      obtain ⟨hp, hrest⟩ := List.nodup_cons.mp hnodup
      have hlater := ih (words.setIfInBounds p.1 p.2) hrest (by
        intro q hq
        rw [Array.size_setIfInBounds]
        exact hlt q (List.mem_cons_of_mem p hq))
      simp only [List.foldl_cons]
      constructor
      · intro w hw
        rcases List.mem_cons.mp hw with rfl | hw
        · rw [hlater.2 hp, getD_setIfInBounds, if_pos ⟨rfl, hlt _ List.mem_cons_self⟩]
        · exact hlater.1 w hw
      · intro hv
        rw [List.map_cons, List.mem_cons, not_or] at hv
        rw [hlater.2 hv.2, getD_setIfInBounds, if_neg fun h => hv.1 h.1.symm]

/-- Before any gate is evaluated, the words are those of the inputs. -/
lemma inputWords_spec (hn : n.WellFormed) (hlength : inputs.length = n.inputs.size) :
    (n.inputWords inputs).size = n.size ∧
    (∀ (i v : Nat), n.inputs[i]? = some v → (n.inputWords inputs).getD v 0 = inputs.getD i 0) ∧
    (∀ v, v ∉ n.inputs → (n.inputWords inputs).getD v 0 = 0) := by
  have hkeys : (n.inputs.toList.zip inputs).map Prod.fst = n.inputs.toList :=
    List.map_fst_zip (by rw [Array.length_toList, hlength])
  have hzero : ∀ v, (Array.replicate n.size (0 : UInt64)).getD v 0 = 0 := by
    intro v
    rw [Array.getD_eq_getD_getElem?, Array.getElem?_replicate]
    split <;> rfl
  have hlt : ∀ p ∈ n.inputs.toList.zip inputs,
      p.1 < (Array.replicate n.size (0 : UInt64)).size := by
    intro p hp
    obtain ⟨i, hi, heq⟩ := List.getElem_of_mem (List.of_mem_zip (a := p.1) (b := p.2) hp).1
    have hkind := (hn.input_iff i p.1).mp (by
      rw [← Array.getElem?_toList, List.getElem?_eq_getElem hi, heq])
    obtain ⟨q, hq, -⟩ := Option.map_eq_some_iff.mp hkind
    rw [Array.size_replicate]
    exact lt_size_of_shape hq
  have hset := getD_foldl_setIfInBounds _ _ (hkeys.symm ▸ hn.inputs_nodup) hlt
  refine ⟨?_, ?_, ?_⟩
  · exact (size_foldl_setIfInBounds _ _).trans Array.size_replicate
  · intro i v hv
    obtain ⟨hi, heq⟩ := Array.getElem?_eq_some_iff.mp hv
    refine (hset v).1 _ (List.mem_iff_getElem?.mpr ⟨i, ?_⟩)
    rw [List.getElem?_zip_eq_some, Array.getElem?_toList]
    refine ⟨hv, ?_⟩
    rw [List.getD_eq_getElem?_getD, List.getElem?_eq_getElem (hlength ▸ hi), Option.getD_some]
  · intro v hv
    refine ((hset v).2 ?_).trans (hzero v)
    rw [hkeys, Array.mem_toList_iff]
    exact hv

/-- **A pass under way**: in a lane stand the values of the nodes that the pass has gone past,
and of those that are no gates. -/
structure Simulates (n : Network) (α : Nat → Bool) (j : Nat) (before : List Nat)
    (words : Array UInt64) : Prop where
  size : words.size = n.size
  value : ∀ v, n.isLive v = true → (n.isLiveGate v = true → v ∈ before) →
    valuesIn words j v = n.interpret .bool α v

lemma simulates_inputWords (hn : n.WellFormed) (hacyclic : n.Acyclic)
    (hlength : inputs.length = n.inputs.size) (j : Nat) :
    n.Simulates (pattern inputs j) j [] (n.inputWords inputs) := by
  have hφ := models_interpret (A := .bool) (α := pattern inputs j) hn hacyclic
  obtain ⟨hsize, hinput, hother⟩ := inputWords_spec hn hlength
  refine ⟨hsize, ?_⟩
  intro v hv hgate
  obtain ⟨k, hk⟩ := isLive_iff.mp hv
  have hkind : n.kind? v = some k := by rw [kind?, hk, Option.map_some]
  cases k with
  | constant =>
      obtain rfl := (hn.constant_iff v).mp hkind
      have hnot : 0 ∉ n.inputs := by
        intro hmem
        obtain ⟨i, hi⟩ := Array.mem_iff_getElem?.mp hmem
        rw [(hn.input_iff i 0).mp hi] at hkind
        cases hkind
      rw [hφ.zero, valuesIn, hother 0 hnot]
      exact lane_zero j
  | input i =>
      have hi := (hn.input_iff i v).mpr hkind
      rw [hφ.input i v hi, valuesIn, hinput i v hi]
      rfl
  | gate a b =>
      exact absurd (hgate (isLiveGate_iff.mpr ⟨a, b, gate_iff.mpr hk⟩)) List.not_mem_nil

/-- To evaluate a gate whose fan-ins have their values gives it its own. -/
lemma Simulates.evaluateGate {α : Nat → Bool} {g : Nat} (h : n.Simulates α j before words)
    (hn : n.WellFormed) (hacyclic : n.Acyclic) (hj : j < 64) (hg : n.isLive g = true)
    (hfanIns : ∀ v, n.Reads g v → v ∈ before) :
    n.Simulates α j (before ++ [g]) (n.evaluateGate words g) := by
  rw [Network.evaluateGate]
  split
  case h_1 a b hops =>
    have hgate : n.Gate g a b := gate_of_fanIns? hops hg
    obtain ⟨hla, hlb⟩ := hn.fanIns_live g a b hgate
    refine ⟨by rw [Array.size_setIfInBounds, h.size], ?_⟩
    intro v hv hpast
    rw [valuesIn, getD_setIfInBounds]
    split
    · next hgv =>
        rw [← hgv.1]
        calc lane (a.wordIn words &&& b.wordIn words) j
            = (Connectives.bool.read (valuesIn words j) a &&
                Connectives.bool.read (valuesIn words j) b) := by
              rw [lane_and, lane_wordIn a words hj, lane_wordIn b words hj]
          _ = (Connectives.bool.read (n.interpret .bool α) a &&
                Connectives.bool.read (n.interpret .bool α) b) := by
              rw [Connectives.read_congr (h.value _ hla fun _ => hfanIns _ hgate.reads_left),
                Connectives.read_congr (h.value _ hlb fun _ => hfanIns _ hgate.reads_right)]
          _ = n.interpret .bool α g := (interpret_gate (A := .bool) hacyclic hgate).symm
    · next hgv =>
        have hne : v ≠ g := by
          rintro rfl
          exact hgv ⟨rfl, h.size ▸ lt_size_of_isLive hv⟩
        refine h.value v hv ?_
        intro hvgate
        simpa [hne] using hpast hvgate
  case h_2 hops =>
    refine ⟨h.size, ?_⟩
    intro v hv hpast
    refine h.value v hv ?_
    intro hvgate
    have hne : v ≠ g := by
      rintro rfl
      obtain ⟨a, b, hgate⟩ := isLiveGate_iff.mp hvgate
      rw [hgate.fanIns?] at hops
      cases hops
    simpa [hne] using hpast hvgate

/-- A pass along live nodes, fan-ins first, gives all of them their values. -/
lemma Simulates.foldl_evaluateGate {α : Nat → Bool} (h : n.Simulates α j [] words)
    (hn : n.WellFormed) (hacyclic : n.Acyclic) (hj : j < 64) (hfirst : n.FanInsFirst cone)
    (hlive : ∀ v ∈ cone, n.isLive v = true) :
    n.Simulates α j cone (cone.foldl n.evaluateGate words) := by
  have key : ∀ before after words, cone = before ++ after → n.Simulates α j before words →
      n.Simulates α j cone (after.foldl n.evaluateGate words) := by
    intro before after
    induction after generalizing before with
    | nil =>
        intro words hcone h
        rwa [hcone, List.append_nil]
    | cons g rest ih =>
        intro words hcone h
        rw [List.foldl_cons]
        refine ih (before ++ [g]) _ (by rw [hcone, List.append_assoc, List.singleton_append]) ?_
        exact h.evaluateGate hn hacyclic hj (hlive g (by simp [hcone])) (hfirst before g rest hcone)
  exact key [] cone words rfl h

/-- **A lane of the words of the outputs** has their values under the assignment that this lane
of the words of the inputs stands for. -/
theorem simulateAlong_lane {order : Array Nat} (hn : n.WellFormed) (hacyclic : n.Acyclic)
    (hcone : n.coneOrder = .ok order) (hlength : inputs.length = n.inputs.size) (hj : j < 64) :
    (n.simulateAlong order inputs).map (lane · j) = n.outputValues .bool (pattern inputs j) := by
  obtain ⟨cone, hok, hfirst, hmem⟩ := coneOrder_spec hn hacyclic
  obtain rfl : cone = order := Except.ok.inj (hok.symm.trans hcone)
  have hlive : ∀ v ∈ cone.toList, n.isLive v = true := by
    intro v hv
    obtain ⟨s, hs, hdep⟩ := (hmem v).mp (Array.mem_toList_iff.mp hv)
    exact hn.isLive_of_dependsOn (hn.outputs_live s hs) hdep
  have hvalues := (simulates_inputWords hn hacyclic hlength j).foldl_evaluateGate hn hacyclic hj
    hfirst hlive
  rw [simulateAlong, outputValues, List.map_map, ← Array.foldl_toList]
  refine List.map_congr_left ?_
  intro s hs
  rw [Array.mem_toList_iff] at hs
  rw [Function.comp_apply, lane_wordIn s _ hj]
  refine Connectives.read_congr (hvalues.value _ (hn.outputs_live s hs) ?_)
  intro _
  exact Array.mem_toList_iff.mpr ((hmem s.node).mpr ⟨s, hs, .refl⟩)

/-! ### The words of the outputs -/

lemma simulate_of_coneOrder {order : Array Nat} (hcone : n.coneOrder = .ok order)
    (hlength : inputs.length = n.inputs.size) :
    n.simulate inputs = .ok (n.simulateAlong order inputs) := by
  rw [simulate, if_neg (not_not_intro hlength), hcone]
  rfl

lemma length_of_simulate {words : List UInt64} (hrun : n.simulate inputs = .ok words) :
    inputs.length = n.inputs.size := by
  by_contra hlength
  rw [simulate, if_pos hlength] at hrun
  cases hrun

/-- **Simulation succeeds** for a word for each input, and each lane is an evaluation. -/
lemma exists_simulate (hn : n.WellFormed) (hacyclic : n.Acyclic)
    (hlength : inputs.length = n.inputs.size) : ∃ words, n.simulate inputs = .ok words ∧
      ∀ j < 64, words.map (lane · j) = n.outputValues .bool (pattern inputs j) := by
  obtain ⟨order, hcone, -⟩ := coneOrder_spec hn hacyclic
  exact ⟨_, simulate_of_coneOrder hcone hlength,
    fun j hj => simulateAlong_lane hn hacyclic hcone hlength hj⟩

/-- **A word is shown** at an output that a signal drives. -/
def Shows (n : Network) (inputs : List UInt64) (s : Signal) (word : UInt64) : Prop :=
  ∃ (words : List UInt64) (k : Nat), n.simulate inputs = .ok words ∧ n.outputs[k]? = some s ∧
    words[k]? = some word

/-- Only acyclic networks show anything. -/
lemma Shows.acyclic {s : Signal} {word : UInt64} (h : n.Shows inputs s word) : n.Acyclic := by
  obtain ⟨words, -, hrun, -⟩ := h
  rw [simulate, if_neg (not_not_intro (length_of_simulate hrun))] at hrun
  obtain ⟨cone, hcone, -⟩ := bind_eq_except_ok.mp hrun
  obtain ⟨order, horder, -⟩ := bind_eq_except_ok.mp hcone
  exact (order_eq_ok horder).2.2

/-- **A lane of a word that is shown** tells the value of the node that drives the output. -/
lemma Shows.evaluates_iff {s : Signal} {word : UInt64} (h : n.Shows inputs s word)
    (hn : n.WellFormed) (hj : j < 64) (x : Bool) :
    n.Evaluates (pattern inputs j) s.node x ↔ lane word j = (x ^^ s.complemented) := by
  have hacyclic := h.acyclic
  obtain ⟨words, k, hrun, hs, hword⟩ := h
  obtain ⟨words', hrun', hlanes⟩ := exists_simulate hn hacyclic (length_of_simulate hrun)
  obtain rfl : words' = words := Except.ok.inj (hrun'.symm.trans hrun)
  have hlane : lane word j = (n.interpret .bool (pattern inputs j) s.node ^^ s.complemented) := by
    have hvalue := congrArg (·[k]?) (hlanes j hj)
    simp only [outputValues, List.getElem?_map, Array.getElem?_toList, hs, hword, Option.map_some,
      Option.some.injEq, read_bool] at hvalue
    exact hvalue
  obtain ⟨hk, rfl⟩ := Array.getElem?_eq_some_iff.mp hs
  have hvalue := evaluates_interpret (α := pattern inputs j) hn hacyclic
    (hn.outputs_live _ (Array.getElem_mem hk))
  rw [hlane, Bool.xor_left_inj]
  constructor
  · exact fun hx => hx.eq_of_models (models_interpret hn hacyclic)
  · rintro rfl
    exact hvalue

/-- An evaluation reads the assignment in a lane. -/
lemma evaluate_lane (hn : n.WellFormed) (hacyclic : n.Acyclic)
    (hlength : inputs.length = n.inputs.size) (j : Nat) :
    n.evaluate (inputs.map (lane · j)) = .ok (n.outputValues .bool (pattern inputs j)) := by
  have hlength' : ((inputs.map (lane · j)).map fun b => if b then (1 : UInt64) else 0).length
      = n.inputs.size := by rw [List.length_map, List.length_map, hlength]
  obtain ⟨words, hrun, hlanes⟩ := exists_simulate hn hacyclic hlength'
  rw [evaluate, hrun, ← pattern_map_lane, ← hlanes 0 (by decide)]
  exact congrArg Except.ok (List.map_congr_left fun word _ => lane_first word)

/-- **Simulation computes the values of the outputs**, each in its lane, and so does an evaluation
under the assignment of the lane.  Whatever another network is like outside the cone of an
output, and whatever the other lanes carry, it shows the same there. -/
theorem simulate_exact (hn : n.WellFormed) (hacyclic : n.Acyclic)
    (hlength : inputs.length = n.inputs.size) :
    ∃ words, n.simulate inputs = .ok words ∧ words.length = n.outputs.size ∧
      (∀ j < 64, n.evaluate (inputs.map (lane · j)) = .ok (words.map (lane · j))) ∧
      ∀ (k : Nat) (s : Signal) (word : UInt64), n.outputs[k]? = some s → words[k]? = some word →
        ∀ j < 64,
          (∀ x, n.Evaluates (pattern inputs j) s.node x ↔ lane word j = (x ^^ s.complemented)) ∧
          ∀ (m : Network) (inputs' : List UInt64) (word' : UInt64), m.WellFormed →
            m.Shows inputs' s word' → n.SameCone m s.node → ∀ j' < 64,
              (∀ (i v : Nat), n.inputs[i]? = some v → n.DependsOn s.node v →
                pattern inputs' j' i = pattern inputs j i) → lane word' j' = lane word j := by
  obtain ⟨words, hrun, hlanes⟩ := exists_simulate hn hacyclic hlength
  refine ⟨words, hrun, ?_, ?_, ?_⟩
  · have hwords := congrArg List.length (hlanes 0 (by decide))
    rwa [List.length_map, length_outputValues] at hwords
  · intro j hj
    rw [evaluate_lane hn hacyclic hlength, hlanes j hj]
  · intro k s word hs hword j hj
    have hshows : n.Shows inputs s word := ⟨words, k, hrun, hs, hword⟩
    have hvalue := hshows.evaluates_iff hn hj
    refine ⟨hvalue, ?_⟩
    intro m inputs' word' hm hshows' hcone j' hj' hinputs
    have hown : n.Evaluates (pattern inputs j) s.node (lane word j ^^ s.complemented) := by
      rw [hvalue, Bool.xor_assoc, Bool.xor_self, Bool.xor_false]
    have hother := hown.of_sameCone hn hm hcone hinputs
    rw [hshows'.evaluates_iff hm hj', Bool.xor_assoc, Bool.xor_self, Bool.xor_false] at hother
    exact hother

/-- A gate above another one, in four lanes. -/
theorem simulate_exact_of_two_gates : ∃ (n : Network) (words : List UInt64) (word : UInt64),
    n.simulate [6, 12, 5] = .ok words ∧ words.length = 2 ∧ words[0]? = some word ∧
      (∀ j < 64, n.evaluate ([6, 12, 5].map (lane · j)) = .ok (words.map (lane · j))) ∧
      ∀ j < 64, ∀ x, n.Evaluates (pattern [6, 12, 5] j) 5 x ↔ lane word j = (x ^^ true) := by
  let n := Network.empty.assemble
    [.input, .input, .input, .gate 2 4, .gate 8 7, .output 11, .output 8]
  have hinputs : [(6 : UInt64), 12, 5].length = n.inputs.size := by decide +kernel
  have houtputs : n.outputs[0]? = some ⟨5, true⟩ ∧ n.outputs.size = 2 := by decide +kernel
  have hn : n.Sound := Network.Sound.assemble wellFormed_empty _
  clear_value n
  obtain ⟨words, hrun, hlength, heval, hshown⟩ := simulate_exact hn.1 hn.2 hinputs
  rw [houtputs.2] at hlength
  have hword : words[0]? = some words[0] := List.getElem?_eq_getElem _
  exact ⟨n, words, _, hrun, hlength, hword, heval,
    fun j hj => (hshown 0 _ _ houtputs.1 hword j hj).1⟩

end Network

/-! ### Rows -/

/-- The words of the first six inputs are the bits of the number of the lane. -/
lemma lane_laneWords : ∀ i < 6, ∀ j < 64, lane (laneWords.getD i 0) j = j.testBit i := by
  decide +kernel

/-- **Lane `j` of block `b` stands for row `64 * b + j`.** -/
lemma lane_rowWord (block i : Nat) (hj : j < 64) :
    lane (rowWord block i) j = (64 * block + j).testBit i := by
  have hrow : (64 * block + j).testBit i
      = if i < 6 then j.testBit i else block.testBit (i - 6) :=
    Nat.testBit_two_pow_mul_add (i := 6) block hj i
  rw [hrow, rowWord]
  by_cases hi : i < 6
  · have hword : laneWords[i]? = some (laneWords.getD i 0) := by
      rw [List.getD_eq_getElem?_getD, List.getElem?_eq_getElem hi, Option.getD_some]
    rw [if_pos hi, hword]
    exact lane_laneWords i hi j hj
  · have hword : laneWords[i]? = none := List.getElem?_eq_none (Nat.le_of_not_lt hi)
    rw [if_neg hi, hword]
    change lane (if block.testBit (i - 6) then ~~~0 else 0) j = _
    split
    · next hbit => rw [lane_not 0 hj, lane_zero, hbit, Bool.not_false]
    · next hbit => rw [lane_zero, Bool.of_not_eq_true hbit]

/-- **The lanes of a block that belong to a row** are those whose row is in the table. -/
lemma lane_rowMask (rows block : Nat) (hj : j < 64) :
    lane (rowMask rows block) j = decide (64 * block + j < rows) := by
  rw [rowMask]
  split
  · next hfull =>
      rw [lane_not 0 hj, lane_zero, Bool.not_false, decide_eq_true (by omega)]
  · next hpart =>
      have hlt : 1 <<< (rows - 64 * block) - 1 < UInt64.size := by
        have hpow : 2 ^ (rows - 64 * block) ≤ 2 ^ 63 :=
          Nat.pow_le_pow_right (by omega) (by omega)
        rw [Nat.one_shiftLeft]
        exact Nat.lt_of_le_of_lt (Nat.sub_le _ _) (Nat.lt_of_le_of_lt hpow (by decide))
      rw [lane, UInt64.toNat_ofNat_of_lt' hlt, Nat.one_shiftLeft, Nat.testBit_two_pow_sub_one]
      exact decide_eq_decide.mpr (by omega)

end AndInverter
