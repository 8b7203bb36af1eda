import AndInverter.Equivalence
import AndInverter.Proofs.Network.Assembly
import AndInverter.Proofs.Run
import AndInverter.Proofs.Simulation
import Mathlib.Data.List.GetD

/-!
Comparing networks.  Both ways of comparing make a table of words for each output, whose lanes
are the values of that output under assignments that do not depend on the network; so tables
differ exactly where outputs do, and a difference in a table names an assignment.

* `Network.SameFunction`: two networks compute the same function;
* `Network.Tabulates`: what a table of words holds;
* `compareWords_eq_none` and `compareWords_eq_some`: what the first difference says;
* `Network.differenceBy`: the comparison with an arbitrary source of random words;
* `difference?_spec`: with few inputs it decides whether the functions are the same, with more
  it never tells apart networks of the same function, and what it names is a real difference.
-/

namespace AndInverter

variable {M : Type} {A : Connectives M} {n lhs rhs : Network} {o : EquivalenceOptions}
  {sampling : Sampling} {blocks count : Nat} {valid : Nat → Nat → Bool}
  {assigned : Nat → Nat → Nat → Bool}

namespace Network

/-- **Two networks compute the same function**: the values of their outputs are the same under
every assignment of their inputs. -/
structure SameFunction (lhs rhs : Network) : Prop where
  inputs : lhs.inputs.size = rhs.inputs.size
  outputs : lhs.outputs.size = rhs.outputs.size
  values : ∀ α, lhs.outputValues .bool α = rhs.outputValues .bool α

/-- **An output differs** under an assignment. -/
def Disagree (lhs rhs : Network) (output : Nat) (α : Nat → Bool) : Prop :=
  ∃ x y, (lhs.outputValues .bool α)[output]? = some x ∧
    (rhs.outputValues .bool α)[output]? = some y ∧ x ≠ y

/-- The values of the outputs depend on the values of the inputs only. -/
lemma outputValues_of_inputs {α β : Nat → M} (hn : n.WellFormed) (hacyclic : n.Acyclic)
    (h : ∀ i < n.inputs.size, α i = β i) : n.outputValues A α = n.outputValues A β := by
  have hφ := models_interpret (A := A) (α := α) hn hacyclic
  have hmodels : A.Models β (n.interpret A α) n := by
    refine ⟨hφ.zero, ?_, hφ.gate⟩
    intro i v hv
    obtain ⟨hi, -⟩ := Array.getElem?_eq_some_iff.mp hv
    rw [hφ.input i v hv, h i hi]
  refine List.map_congr_left ?_
  intro s hs
  exact Connectives.read_congr (eq_interpret_of_models hmodels hn hacyclic
    (hn.outputs_live s (Array.mem_toList_iff.mp hs)))

/-! ### Tables -/

/-- **What a table holds**: in the lanes of each block that are valid the values of an output
under the assignment of the lane, and nothing in the others. -/
structure Tabulates (n : Network) (blocks : Nat) (valid : Nat → Nat → Bool)
    (assigned : Nat → Nat → Nat → Bool) (tables : List (List UInt64)) : Prop where
  outputs : tables.length = n.outputs.size
  blocks : ∀ table ∈ tables, table.length = blocks
  lane : ∀ (output block : Nat) (table : List UInt64) (word : UInt64),
    tables[output]? = some table → table[block]? = some word → ∀ j < 64,
    lane word j = (valid block j && (n.outputValues .bool (assigned block j)).getD output false)

/-- The words of the outputs block by block, put together output by output. -/
lemma tabulates_of_blocks (words : List (List UInt64)) (hblocks : words.length = blocks)
    (hlane : ∀ (block : Nat) (outputs : List UInt64), words[block]? = some outputs → ∀ j < 64,
      outputs.map (AndInverter.lane · j)
        = (n.outputValues .bool (assigned block j)).map (valid block j && ·)) :
    n.Tabulates blocks valid assigned
      ((List.range n.outputs.size).map fun output => words.map (·.getD output 0)) where
  outputs := by rw [List.length_map, List.length_range]
  blocks := by
    intro table htable
    obtain ⟨output, -, rfl⟩ := List.mem_map.mp htable
    rw [List.length_map, hblocks]
  lane := by
    intro output block table word htable hword j hj
    rw [List.getElem?_map, Option.map_eq_some_iff] at htable
    obtain ⟨_, hrange, rfl⟩ := htable
    obtain ⟨_, rfl⟩ := List.getElem?_eq_some_iff.mp hrange
    rw [List.getElem?_map, Option.map_eq_some_iff] at hword
    obtain ⟨outputs, houtputs, rfl⟩ := hword
    rw [List.getElem_range]
    calc AndInverter.lane (outputs.getD output 0) j
        = (outputs.map (AndInverter.lane · j)).getD output false := by
          rw [← lane_zero j, List.getD_map]
      _ = ((n.outputValues .bool (assigned block j)).map (valid block j && ·)).getD output
            (valid block j && false) := by
          rw [hlane block outputs houtputs j hj, Bool.and_false]
      _ = (valid block j && (n.outputValues .bool (assigned block j)).getD output false) :=
          List.getD_map ..

/-- Every block of every output has its word. -/
lemma Tabulates.exists_word {tables : List (List UInt64)}
    (h : n.Tabulates blocks valid assigned tables) {output block : Nat}
    (houtput : output < n.outputs.size) (hblock : block < blocks) :
    ∃ table word, tables[output]? = some table ∧ table[block]? = some word := by
  rw [← h.outputs] at houtput
  rw [← h.blocks _ (List.getElem_mem houtput)] at hblock
  exact ⟨_, _, List.getElem?_eq_getElem houtput, List.getElem?_eq_getElem hblock⟩

end Network

/-! ### The first difference -/

section Pairs

variable {α β γ : Type} {l : List α} {r : List β} {f : (α × β) × Nat → Option γ}

lemma findSome?_zipIdx_zip_eq_none : (l.zip r).zipIdx.findSome? f = none ↔
    ∀ (i : Nat) (a : α) (b : β), l[i]? = some a → r[i]? = some b → f ((a, b), i) = none := by
  rw [List.findSome?_eq_none_iff]
  constructor
  · intro h i a b ha hb
    refine h _ (List.mem_zipIdx_iff_getElem?.mpr ?_)
    exact List.getElem?_zip_eq_some.mpr ⟨ha, hb⟩
  · rintro h ⟨⟨a, b⟩, i⟩ hmem
    obtain ⟨ha, hb⟩ := List.getElem?_zip_eq_some.mp (List.mem_zipIdx_iff_getElem?.mp hmem)
    exact h i a b ha hb

lemma exists_of_findSome?_zipIdx_zip {d : γ} (h : (l.zip r).zipIdx.findSome? f = some d) :
    ∃ (i : Nat) (a : α) (b : β), l[i]? = some a ∧ r[i]? = some b ∧ f ((a, b), i) = some d := by
  obtain ⟨⟨⟨a, b⟩, i⟩, hmem, hd⟩ := List.exists_of_findSome?_eq_some h
  obtain ⟨ha, hb⟩ := List.getElem?_zip_eq_some.mp (List.mem_zipIdx_iff_getElem?.mp hmem)
  exact ⟨i, a, b, ha, hb, hd⟩

/-- Lists of one length are the same if they are so at every position. -/
lemma eq_iff_of_length {l r : List α} (hlength : l.length = r.length) :
    (∀ (i : Nat) (a b : α), l[i]? = some a → r[i]? = some b → a = b) ↔ l = r := by
  constructor
  · intro h
    refine List.ext_getElem hlength ?_
    intro i hl hr
    exact h i _ _ (List.getElem?_eq_getElem hl) (List.getElem?_eq_getElem hr)
  · rintro rfl i a b ha hb
    exact Option.some.inj (ha.symm.trans hb)

end Pairs

/-- The lowest bit of a word other than zero is one of its bits. -/
lemma lowestBit_spec {word : UInt64} (h : word ≠ 0) :
    lowestBit word < 64 ∧ lane word (lowestBit word) = true := by
  rw [lowestBit]
  cases hfind : (List.range 64).find? word.toNat.testBit with
  | some j =>
      exact ⟨List.mem_range.mp (List.mem_of_find?_eq_some hfind), List.find?_some hfind⟩
  | none =>
      refine absurd (eq_of_lane ?_) h
      intro j hj
      rw [lane_zero]
      exact Bool.of_not_eq_true (List.find?_eq_none.mp hfind j (List.mem_range.mpr hj))

lemma firstDifference_eq_none {index : Nat} {l r : List UInt64} (hlength : l.length = r.length) :
    firstDifference index sampling l r = none ↔ l = r := by
  rw [firstDifference, findSome?_zipIdx_zip_eq_none, ← eq_iff_of_length hlength]
  simp only [ite_eq_left_iff, reduceCtorEq, imp_false, not_not]

/-- Tables of one shape have no first difference if and only if they are the same. -/
lemma compareWords_eq_none {l r : List (List UInt64)} (houter : l.length = r.length)
    (hinner : ∀ a ∈ l, ∀ b ∈ r, a.length = b.length) :
    compareWords sampling l r = none ↔ l = r := by
  rw [compareWords, findSome?_zipIdx_zip_eq_none, ← eq_iff_of_length houter]
  refine forall_congr' fun i => forall_congr' fun a => forall_congr' fun b => ?_
  refine imp_congr_right fun ha => imp_congr_right fun hb => ?_
  exact firstDifference_eq_none
    (hinner a (List.mem_of_getElem? ha) b (List.mem_of_getElem? hb))

/-- The first difference names words that differ, and a lane in which they do. -/
lemma compareWords_eq_some {l r : List (List UInt64)} {d : Difference}
    (h : compareWords sampling l r = some d) :
    ∃ (output block j : Nat) (tl tr : List UInt64) (wl wr : UInt64),
      d = .output output sampling block j wl wr ∧ l[output]? = some tl ∧ r[output]? = some tr ∧
      tl[block]? = some wl ∧ tr[block]? = some wr ∧ j < 64 ∧ lane wl j ≠ lane wr j := by
  obtain ⟨output, tl, tr, htl, htr, hd⟩ := exists_of_findSome?_zipIdx_zip h
  obtain ⟨block, wl, wr, hwl, hwr, hd⟩ := exists_of_findSome?_zipIdx_zip hd
  obtain ⟨hne, hd⟩ := Option.ite_none_left_eq_some.mp hd
  have hbits : wl ^^^ wr ≠ 0 := fun hzero => hne (UInt64.xor_eq_zero_iff.mp hzero)
  obtain ⟨hlt, hlane⟩ := lowestBit_spec hbits
  refine ⟨output, block, _, tl, tr, wl, wr, (Option.some.inj hd).symm, htl, htr, hwl, hwr, hlt, ?_⟩
  rw [lane_xor] at hlane
  exact bne_iff_ne.mp hlane

namespace Network

section Compare

variable {left right : List (List UInt64)}

/-- Tables over the same assignments have no first difference if and only if the values of all
outputs are the same in the valid lanes. -/
lemma Tabulates.compareWords_eq_none (hl : lhs.Tabulates blocks valid assigned left)
    (hr : rhs.Tabulates blocks valid assigned right)
    (houtputs : lhs.outputs.size = rhs.outputs.size) :
    compareWords sampling left right = none ↔ ∀ block < blocks, ∀ j < 64, valid block j = true →
      lhs.outputValues .bool (assigned block j) = rhs.outputValues .bool (assigned block j) := by
  have houter : left.length = right.length := by rw [hl.outputs, hr.outputs, houtputs]
  have hinner : ∀ a ∈ left, ∀ b ∈ right, a.length = b.length := fun a ha b hb =>
    (hl.blocks a ha).trans (hr.blocks b hb).symm
  rw [AndInverter.compareWords_eq_none houter hinner]
  constructor
  · rintro rfl block hblock j hj hvalid
    refine List.ext_getElem (by rw [length_outputValues, length_outputValues, houtputs]) ?_
    intro output hlo hro
    rw [length_outputValues] at hlo
    obtain ⟨table, word, htable, hword⟩ := hl.exists_word hlo hblock
    have hlane := (hl.lane output block table word htable hword j hj).symm.trans
      (hr.lane output block table word htable hword j hj)
    simpa [hvalid, List.getD_eq_getElem?_getD, hlo, hro, length_outputValues, houtputs.symm]
      using hlane
  · intro h
    refine (eq_iff_of_length houter).mp ?_
    intro output tl tr htl htr
    have hlengths := hinner _ (List.mem_of_getElem? htl) _ (List.mem_of_getElem? htr)
    refine (eq_iff_of_length hlengths).mp ?_
    intro block wl wr hwl hwr
    have hblock : block < blocks :=
      hl.blocks tl (List.mem_of_getElem? htl) ▸ (List.getElem?_eq_some_iff.mp hwl).1
    refine eq_of_lane ?_
    intro j hj
    rw [hl.lane output block tl wl htl hwl j hj, hr.lane output block tr wr htr hwr j hj]
    cases hvalid : valid block j with
    | false => rfl
    | true => rw [h block hblock j hj hvalid]

/-- A first difference between tables over the same assignments is one of the outputs. -/
lemma Tabulates.disagree {d : Difference} (hl : lhs.Tabulates blocks valid assigned left)
    (hr : rhs.Tabulates blocks valid assigned right)
    (houtputs : lhs.outputs.size = rhs.outputs.size)
    (h : compareWords sampling left right = some d) :
    ∃ (output block j : Nat) (wl wr : UInt64), d = .output output sampling block j wl wr ∧
      block < blocks ∧ j < 64 ∧ valid block j = true ∧
      lhs.Disagree rhs output (assigned block j) := by
  obtain ⟨output, block, j, tl, tr, wl, wr, rfl, htl, htr, hwl, hwr, hj, hne⟩ :=
    compareWords_eq_some h
  rw [hl.lane output block tl wl htl hwl j hj, hr.lane output block tr wr htr hwr j hj] at hne
  have hlo : output < lhs.outputs.size := hl.outputs ▸ (List.getElem?_eq_some_iff.mp htl).1
  have hro : output < rhs.outputs.size := houtputs ▸ hlo
  have hblock : block < blocks :=
    hl.blocks tl (List.mem_of_getElem? htl) ▸ (List.getElem?_eq_some_iff.mp hwl).1
  rw [← length_outputValues (A := .bool) _ (assigned block j)] at hlo hro
  cases hvalid : valid block j with
  | false => simp [hvalid] at hne -- both words are zero there
  | true =>
      refine ⟨output, block, j, wl, wr, rfl, hblock, hj, hvalid, _, _,
        List.getElem?_eq_getElem hlo, List.getElem?_eq_getElem hro, ?_⟩
      simpa [hvalid, List.getD_eq_getElem?_getD, hlo, hro] using hne

end Compare

/-! ### All assignments -/

lemma pattern_map_range (f : Nat → UInt64) {i j : Nat} (hi : i < count) :
    pattern ((List.range count).map f) j i = lane (f i) j := by
  simp [pattern, List.getD_eq_getElem?_getD, List.getElem?_range hi]

/-- **The tables over all assignments**: a lane stands for a row, as long as there are rows. -/
lemma exists_tables (hn : n.WellFormed) (hacyclic : n.Acyclic)
    (hfew : n.inputs.size ≤ tableInputLimit) :
    ∃ tables, n.tables = .ok tables ∧
      n.Tabulates ((2 ^ n.inputs.size + 63) / 64)
        (fun block j => decide (64 * block + j < 2 ^ n.inputs.size))
        (fun block j => (64 * block + j).testBit) tables := by
  obtain ⟨cone, hcone, -⟩ := coneOrder_spec hn hacyclic
  refine ⟨_, ?_, tabulates_of_blocks ((List.range ((n.rowCount + 63) / 64)).map
    (n.tableBlock cone)) ?_ ?_⟩
  · rw [tables, if_neg (Nat.not_lt.mpr hfew), hcone]
    rfl
  · rw [List.length_map, List.length_range, rowCount, Nat.one_shiftLeft]
  · intro block outputs houtputs j hj
    rw [List.getElem?_map, Option.map_eq_some_iff] at houtputs
    obtain ⟨_, hrange, rfl⟩ := houtputs
    obtain ⟨_, rfl⟩ := List.getElem?_eq_some_iff.mp hrange
    have hvalues : n.outputValues .bool (pattern ((List.range n.inputs.size).map (rowWord block)) j)
        = n.outputValues .bool (64 * block + j).testBit := by
      refine outputValues_of_inputs hn hacyclic ?_
      intro i hi
      rw [pattern_map_range _ hi, lane_rowWord block i hj]
    rw [List.getElem_range, ← hvalues, ← simulateAlong_lane hn hacyclic hcone (by simp) hj,
      tableBlock, List.map_map, List.map_map]
    refine List.map_congr_left ?_
    intro word _
    rw [Function.comp_apply, Function.comp_apply, lane_and, lane_rowMask _ _ hj, rowCount,
      Nat.one_shiftLeft, Bool.and_comm]

/-- Every assignment of the inputs is a row. -/
lemma exists_row (count : Nat) (α : Nat → Bool) :
    ∃ row < 2 ^ count, ∀ i < count, row.testBit i = α i := by
  refine ⟨Nat.ofBits fun i : Fin count => α i, Nat.ofBits_lt_two_pow _, ?_⟩
  intro i hi
  exact Nat.testBit_ofBits_lt _ i hi

/-- To agree in all rows of all blocks is to agree under all assignments. -/
lemma agree_iff_of_rows (hl : lhs.WellFormed) (hlacyclic : lhs.Acyclic) (hr : rhs.WellFormed)
    (hracyclic : rhs.Acyclic) (hinputs : lhs.inputs.size = rhs.inputs.size) :
    (∀ block < (2 ^ lhs.inputs.size + 63) / 64, ∀ j < 64,
      decide (64 * block + j < 2 ^ lhs.inputs.size) = true →
        lhs.outputValues .bool (64 * block + j).testBit
          = rhs.outputValues .bool (64 * block + j).testBit) ↔
      ∀ α, lhs.outputValues .bool α = rhs.outputValues .bool α := by
  constructor
  · intro h α
    obtain ⟨row, hrow, hbits⟩ := exists_row lhs.inputs.size α
    have hsplit : 64 * (row / 64) + row % 64 = row := Nat.div_add_mod row 64
    have hvalues := h (row / 64) (by omega) (row % 64) (Nat.mod_lt row (by decide))
      (by rw [hsplit]; exact decide_eq_true hrow)
    rw [hsplit] at hvalues
    calc lhs.outputValues .bool α
        = lhs.outputValues .bool row.testBit :=
          outputValues_of_inputs hl hlacyclic fun i hi => (hbits i hi).symm
      _ = rhs.outputValues .bool row.testBit := hvalues
      _ = rhs.outputValues .bool α :=
          outputValues_of_inputs hr hracyclic fun i hi => hbits i (hinputs ▸ hi)
  · intro h block _ j _ _
    exact h _

end Network

/-! ### Random assignments -/

namespace Generator

/-- **The words that a generator draws**, one after the other. -/
def word (g : Generator) : Nat → UInt64
  | 0 => g.next.1
  | k + 1 => g.next.2.word k

/-- The generator after some draws. -/
def after (g : Generator) : Nat → Generator
  | 0 => g
  | k + 1 => g.next.2.after k

lemma word_after (g : Generator) (k i : Nat) : (g.after k).word i = g.word (k + i) := by
  induction k generalizing g with
  | zero => rw [after, Nat.zero_add]
  | succ k ih => rw [after, ih, Nat.add_right_comm, word]

lemma words_eq (g : Generator) (count : Nat) :
    g.words count = ((List.range count).map g.word, g.after count) := by
  induction count generalizing g with
  | zero => rfl
  | succ count ih =>
      have hdraw : g.words (count + 1)
          = (g.next.1 :: (g.next.2.words count).1, (g.next.2.words count).2) := rfl
      rw [hdraw, ih, List.range_succ_eq_map, List.map_cons, List.map_map]
      rfl

end Generator

/-- The words of the inputs in a round, from a stream of words. -/
def roundWords (stream : Nat → UInt64) (count round : Nat) : List UInt64 :=
  (List.range count).map fun i => stream (count * round + i)

/-- **The assignment in a lane** of a word, given the stream that random words come from. -/
def Sampling.assignment (stream : Nat → UInt64) (count word j : Nat) : Sampling → Nat → Bool
  | .all => (64 * word + j).testBit
  | .random => fun i => lane (stream (count * word + i)) j

namespace Network

/-- The words of each output under the assignments of a stream. -/
def tablesFrom (n : Network) (stream : Nat → UInt64) (rounds : Nat) :
    Except Fault (List (List UInt64)) := do
  let words ← (List.range rounds).mapM fun round =>
    n.simulate (roundWords stream n.inputs.size round)
  return (List.range n.outputs.size).map fun output => words.map (·.getD output 0)

/-- **The comparison with an arbitrary source** of random words, a stream for each seed. -/
def differenceBy (source : UInt64 → Nat → UInt64) (lhs rhs : Network) (o : EquivalenceOptions) :
    Except Fault (Option Difference) := do
  if lhs.inputs.size ≠ rhs.inputs.size then
    return some (.inputs lhs.inputs.size rhs.inputs.size)
  if lhs.outputs.size ≠ rhs.outputs.size then
    return some (.outputs lhs.outputs.size rhs.outputs.size)
  if lhs.inputs.size ≤ tableInputLimit then
    return compareWords .all (← lhs.tables) (← rhs.tables)
  else
    return compareWords .random (← lhs.tablesFrom (source o.seed) o.rounds)
      (← rhs.tablesFrom (source o.seed) o.rounds)

lemma simulateRandom_eq (n : Network) (rounds : Nat) (g : Generator) :
    n.simulateRandom rounds g = (List.range rounds).mapM fun round =>
      n.simulate (roundWords g.word n.inputs.size round) := by
  induction rounds generalizing g with
  | zero => rfl
  | succ rounds ih =>
      have hround : ∀ round, roundWords (g.after n.inputs.size).word n.inputs.size round
          = roundWords g.word n.inputs.size (round + 1) := by
        intro round
        refine List.map_congr_left ?_
        intro i _
        rw [Generator.word_after]
        congr 1
        ring
      have hfirst : roundWords g.word n.inputs.size 0 = (List.range n.inputs.size).map g.word := by
        simp only [roundWords, Nat.mul_zero, Nat.zero_add]
      rw [simulateRandom, Generator.words_eq]
      simp only [ih, hround]
      rw [List.range_succ_eq_map, List.mapM_cons, List.mapM_map, hfirst]
      rfl

/-- **The comparison draws its words from the generator** that belongs to the seed. -/
lemma difference?_eq_differenceBy (lhs rhs : Network) (o : EquivalenceOptions) :
    lhs.difference? rhs o = lhs.differenceBy (fun seed => (Generator.ofSeed seed).word) rhs o := by
  have htables : ∀ n : Network,
      n.randomTables o = n.tablesFrom (Generator.ofSeed o.seed).word o.rounds := by
    intro n
    rw [randomTables, tablesFrom, simulateRandom_eq]
  rw [difference?, differenceBy, htables lhs, htables rhs]

/-- **The tables over the assignments of a stream.** -/
lemma exists_tablesFrom (hn : n.WellFormed) (hacyclic : n.Acyclic) (stream : Nat → UInt64)
    (rounds : Nat) : ∃ tables, n.tablesFrom stream rounds = .ok tables ∧
      n.Tabulates rounds (fun _ _ => true)
        (fun round j => Sampling.random.assignment stream n.inputs.size round j) tables := by
  obtain ⟨cone, hcone, -⟩ := coneOrder_spec hn hacyclic
  have hlength : ∀ round, (roundWords stream n.inputs.size round).length = n.inputs.size := by
    intro round
    rw [roundWords, List.length_map, List.length_range]
  have hsimulate : ∀ round, n.simulate (roundWords stream n.inputs.size round)
      = .ok (n.simulateAlong cone (roundWords stream n.inputs.size round)) :=
    fun round => simulate_of_coneOrder hcone (hlength round)
  refine ⟨_, ?_, tabulates_of_blocks ((List.range rounds).map fun round =>
    n.simulateAlong cone (roundWords stream n.inputs.size round)) ?_ ?_⟩
  · rw [tablesFrom, mapM_eq_except_ok fun round _ => hsimulate round]
    rfl
  · rw [List.length_map, List.length_range]
  · intro round outputs houtputs j hj
    rw [List.getElem?_map, Option.map_eq_some_iff] at houtputs
    obtain ⟨_, hrange, rfl⟩ := houtputs
    obtain ⟨_, rfl⟩ := List.getElem?_eq_some_iff.mp hrange
    rw [List.getElem_range, simulateAlong_lane hn hacyclic hcone (hlength round) hj]
    simp only [Bool.true_and, List.map_id']
    refine outputValues_of_inputs hn hacyclic ?_
    intro i hi
    exact pattern_map_range _ hi

/-! ### The comparison -/

section Comparison

variable {source : UInt64 → Nat → UInt64}

/-- **With few inputs** all rows are compared, which is to compare the functions. -/
lemma differenceBy_of_few (hl : lhs.WellFormed) (hlacyclic : lhs.Acyclic) (hr : rhs.WellFormed)
    (hracyclic : rhs.Acyclic) (hinputs : lhs.inputs.size = rhs.inputs.size)
    (houtputs : lhs.outputs.size = rhs.outputs.size) (hfew : lhs.inputs.size ≤ tableInputLimit) :
    ∃ found, lhs.differenceBy source rhs o = .ok found ∧
      (found = none ↔ lhs.SameFunction rhs) ∧
      ∀ output sampling word j l r, found = some (.output output sampling word j l r) →
        j < 64 ∧ sampling = .all ∧ 64 * word + j < 2 ^ lhs.inputs.size ∧
        lhs.Disagree rhs output (64 * word + j).testBit := by
  obtain ⟨left, hleft, htl⟩ := exists_tables hl hlacyclic hfew
  obtain ⟨right, hright, htr⟩ := exists_tables hr hracyclic (hinputs ▸ hfew)
  rw [← hinputs] at htr
  refine ⟨compareWords .all left right, ?_, ?_, ?_⟩
  · rw [differenceBy, if_neg (not_not_intro hinputs), if_neg (not_not_intro houtputs),
      if_pos hfew, hleft, hright]
    rfl
  · rw [htl.compareWords_eq_none htr houtputs]
    refine (agree_iff_of_rows hl hlacyclic hr hracyclic hinputs).trans ?_
    exact ⟨fun h => ⟨hinputs, houtputs, h⟩, SameFunction.values⟩
  · intro output sampling word j l r hfound
    obtain ⟨_, _, _, _, _, heq, -, hj, hrow, hdiffer⟩ := htl.disagree htr houtputs hfound
    cases heq
    exact ⟨hj, rfl, of_decide_eq_true hrow, hdiffer⟩

/-- **With more inputs** both networks are given the same random assignments. -/
lemma differenceBy_of_many (hl : lhs.WellFormed) (hlacyclic : lhs.Acyclic) (hr : rhs.WellFormed)
    (hracyclic : rhs.Acyclic) (hinputs : lhs.inputs.size = rhs.inputs.size)
    (houtputs : lhs.outputs.size = rhs.outputs.size)
    (hmany : ¬ lhs.inputs.size ≤ tableInputLimit) :
    ∃ found, lhs.differenceBy source rhs o = .ok found ∧
      (lhs.SameFunction rhs → found = none) ∧
      ∀ output sampling word j l r, found = some (.output output sampling word j l r) →
        j < 64 ∧ sampling = .random ∧ word < o.rounds ∧ lhs.Disagree rhs output
          (Sampling.random.assignment (source o.seed) lhs.inputs.size word j) := by
  obtain ⟨left, hleft, htl⟩ := exists_tablesFrom hl hlacyclic (source o.seed) o.rounds
  obtain ⟨right, hright, htr⟩ := exists_tablesFrom hr hracyclic (source o.seed) o.rounds
  rw [← hinputs] at htr
  refine ⟨compareWords .random left right, ?_, ?_, ?_⟩
  · rw [differenceBy, if_neg (not_not_intro hinputs), if_neg (not_not_intro houtputs),
      if_neg hmany, hleft, hright]
    rfl
  · intro h
    exact (htl.compareWords_eq_none htr houtputs).mpr fun _ _ _ _ _ => h.values _
  · intro output sampling word j l r hfound
    obtain ⟨_, _, _, _, _, heq, hword, hj, -, hdiffer⟩ := htl.disagree htr houtputs hfound
    cases heq
    exact ⟨hj, rfl, hword, hdiffer⟩

end Comparison

/-- **What a comparison finds.**  With few inputs on both sides it decides whether the networks
compute the same function; networks that do are never told apart; and if an output is said to
differ, it does so under the assignment that stands in this lane of this word. -/
theorem difference?_spec (hl : lhs.WellFormed) (hlacyclic : lhs.Acyclic) (hr : rhs.WellFormed)
    (hracyclic : rhs.Acyclic) (o : EquivalenceOptions) (source : UInt64 → Nat → UInt64) :
    lhs.difference? rhs o = lhs.differenceBy (fun seed => (Generator.ofSeed seed).word) rhs o ∧
    ∃ found, lhs.differenceBy source rhs o = .ok found ∧
      (lhs.inputs.size ≤ tableInputLimit → rhs.inputs.size ≤ tableInputLimit →
        (found = none ↔ lhs.SameFunction rhs)) ∧
      (lhs.SameFunction rhs → found = none) ∧
      ∀ output sampling word j l r, found = some (.output output sampling word j l r) →
        j < 64 ∧ (sampling = .all ↔ lhs.inputs.size ≤ tableInputLimit) ∧
        (sampling = .all → 64 * word + j < 2 ^ lhs.inputs.size) ∧
        (sampling = .random → word < o.rounds) ∧
        lhs.Disagree rhs output
          (sampling.assignment (source o.seed) lhs.inputs.size word j) := by
  refine ⟨difference?_eq_differenceBy lhs rhs o, ?_⟩
  by_cases hinputs : lhs.inputs.size = rhs.inputs.size
  case neg =>
    refine ⟨some (.inputs lhs.inputs.size rhs.inputs.size), ?_, ?_, ?_, nofun⟩
    · rw [differenceBy, if_pos hinputs]
      rfl
    · exact fun _ _ => iff_of_false (by simp) fun hsame => hinputs hsame.inputs
    · exact fun hsame => absurd hsame.inputs hinputs
  by_cases houtputs : lhs.outputs.size = rhs.outputs.size
  case neg =>
    refine ⟨some (.outputs lhs.outputs.size rhs.outputs.size), ?_, ?_, ?_, nofun⟩
    · rw [differenceBy, if_neg (not_not_intro hinputs), if_pos houtputs]
      rfl
    · exact fun _ _ => iff_of_false (by simp) fun hsame => houtputs hsame.outputs
    · exact fun hsame => absurd hsame.outputs houtputs
  by_cases hfew : lhs.inputs.size ≤ tableInputLimit
  · obtain ⟨found, hfound, hdecides, hnamed⟩ :=
      differenceBy_of_few hl hlacyclic hr hracyclic hinputs houtputs hfew
    refine ⟨found, hfound, fun _ _ => hdecides, hdecides.mpr, ?_⟩
    intro output sampling word j l r hdifference
    obtain ⟨hj, rfl, hrow, hdiffer⟩ := hnamed _ _ _ _ _ _ hdifference
    exact ⟨hj, iff_of_true rfl hfew, fun _ => hrow, nofun, hdiffer⟩
  · obtain ⟨found, hfound, hsame, hnamed⟩ :=
      differenceBy_of_many hl hlacyclic hr hracyclic hinputs houtputs hfew
    refine ⟨found, hfound, fun hle => absurd hle hfew, hsame, ?_⟩
    intro output sampling word j l r hdifference
    obtain ⟨hj, rfl, hword, hdiffer⟩ := hnamed _ _ _ _ _ _ hdifference
    exact ⟨hj, iff_of_false nofun hfew, nofun, fun _ => hword, hdiffer⟩

/-- A conjunction is found to be the same function when an operand is repeated, and to differ in
row 0 when the output is complemented. -/
theorem difference?_of_conjunction : ∃ lhs same other : Network,
    ((lhs.WellFormed ∧ lhs.Acyclic) ∧ (same.WellFormed ∧ same.Acyclic) ∧
      other.WellFormed ∧ other.Acyclic) ∧ lhs.gates ≠ same.gates ∧
      (lhs.difference? same {} = .ok none ∧ lhs.SameFunction same) ∧
      lhs.difference? other {} = .ok (some (.output 0 .all 0 0 8 7)) ∧
      lhs.Disagree other 0 (0).testBit := by
  let lhs := Network.empty.assemble [.input, .input, .gate 2 4, .output 6]
  let same := Network.empty.assemble [.input, .input, .gate 2 4, .gate 2 6, .output 8]
  let other := Network.empty.assemble [.input, .input, .gate 2 4, .output 7]
  obtain ⟨hl, hlacyclic⟩ : lhs.Sound := Network.Sound.assemble wellFormed_empty _
  obtain ⟨hs, hsacyclic⟩ : same.Sound := Network.Sound.assemble wellFormed_empty _
  obtain ⟨ho, hoacyclic⟩ : other.Sound := Network.Sound.assemble wellFormed_empty _
  have hfew : lhs.inputs.size ≤ tableInputLimit ∧ same.inputs.size ≤ tableInputLimit := by
    decide +kernel
  have hnone : lhs.difference? same {} = .ok none := by decide +kernel
  have hsome : lhs.difference? other {} = .ok (some (.output 0 .all 0 0 8 7)) := by
    decide +kernel
  refine ⟨lhs, same, other, ⟨⟨hl, hlacyclic⟩, ⟨hs, hsacyclic⟩, ho, hoacyclic⟩,
    by decide +kernel, ⟨hnone, ?_⟩, hsome, ?_⟩
  · obtain ⟨hgenerator, found, hfound, hdecides, -⟩ := difference?_spec hl hlacyclic hs hsacyclic {}
      fun seed => (Generator.ofSeed seed).word
    rw [← hgenerator, hnone] at hfound
    exact (hdecides hfew.1 hfew.2).mp (Except.ok.inj hfound).symm
  · obtain ⟨hgenerator, found, hfound, -, -, hdiffers⟩ :=
      difference?_spec hl hlacyclic ho hoacyclic {} fun seed => (Generator.ofSeed seed).word
    rw [← hgenerator, hsome] at hfound
    exact (hdiffers _ _ _ _ _ _ (Except.ok.inj hfound).symm).2.2.2.2

end Network

end AndInverter
