import Mathlib.Algebra.Order.Floor.Div
import AndInverter.Proofs.Equivalence

/-!
Truth tables, bit by bit.  The words of a table are read as one row of bits, 64 to a word; the
bits up to the number of rows are values of the output, and those beyond are zero.

* `cell`: the bit of a table at a position;
* `Network.evaluates_iff_getD`: the values of the outputs are those that come from below;
* `Network.Tabulates.cell_eq`: what stands in a cell of a table over all assignments;
* `Network.tables_exact`: so every cell that belongs to a row has the value of the output there,
  and no other cell is set.
-/

namespace AndInverter

/-- **The bit at a position of a table**, the words of which have 64 bits each. -/
def cell (table : List UInt64) (position : Nat) : Bool :=
  lane (table.getD (position / 64) 0) (position % 64)

/-- Beyond its words a table has no bits that are set. -/
lemma cell_of_length_le {table : List UInt64} {position : Nat}
    (h : table.length ≤ position / 64) : cell table position = false := by
  rw [cell, List.getD_eq_default _ _ h, lane_zero]

namespace Network

variable {n : Network} {k position : Nat} {s : Signal} {x : Bool} {α : Nat → Bool}
  {table : List UInt64} {tables : List (List UInt64)}

/-- The value of an output is that of the node behind it, complemented or not. -/
lemma evaluates_iff_getD (hn : n.WellFormed) (hacyclic : n.Acyclic)
    (hs : n.outputs[k]? = some s) : n.Evaluates α s.node x ↔
      (n.outputValues .bool α).getD k false = (x ^^ s.complemented) := by
  have hget : (n.outputValues .bool α).getD k false
      = (n.interpret .bool α s.node ^^ s.complemented) := by
    rw [List.getD_eq_getElem?_getD, outputValues, List.getElem?_map, Array.getElem?_toList, hs,
      Option.map_some, Option.getD_some, read_bool]
  have hvalue := evaluates_interpret (α := α) hn hacyclic
    (hn.outputs_live s (Array.mem_of_getElem? hs))
  rw [hget, Bool.xor_left_inj]
  constructor
  · exact fun hx => hx.eq_of_models (models_interpret hn hacyclic)
  · rintro rfl
    exact hvalue

/-- **A cell of a table over all assignments**: the value of the output in a row, if there is such
a row. -/
lemma Tabulates.cell_eq {rows : Nat} (h : n.Tabulates ((rows + 63) / 64)
      (fun block j => decide (64 * block + j < rows)) (fun block j => (64 * block + j).testBit)
      tables)
    (htable : tables[k]? = some table) (position : Nat) : cell table position
      = (decide (position < rows) && (n.outputValues .bool position.testBit).getD k false) := by
  have hsplit : 64 * (position / 64) + position % 64 = position := Nat.div_add_mod position 64
  by_cases hblock : position / 64 < table.length
  · have hlane := h.lane k _ table _ htable (List.getElem?_eq_getElem hblock) (position % 64)
      (Nat.mod_lt position (by decide))
    rw [cell, List.getD_eq_getElem?_getD, List.getElem?_eq_getElem hblock, Option.getD_some, hlane,
      hsplit]
  · -- the table has a word for every block that has a row
    have hlength := h.blocks table (List.mem_of_getElem? htable)
    have hrow : ¬ position < rows := by omega
    rw [cell_of_length_le (Nat.le_of_not_lt hblock), decide_eq_false hrow, Bool.false_and]

/-- **The truth tables of a network**: one for each output, with as many words as it takes for a
bit in each row.  In the cell of a row stands the value of the output under the assignment that is
written in the row number, input `i` having bit `i`; all cells beyond the last row are empty. -/
theorem tables_exact (hn : n.WellFormed) (hacyclic : n.Acyclic)
    (hfew : n.inputs.size ≤ tableInputLimit) :
    ∃ tables, n.tables = .ok tables ∧ tables.length = n.outputs.size ∧
      ∀ (k : Nat) (s : Signal) (table : List UInt64), n.outputs[k]? = some s →
        tables[k]? = some table →
          table.length = 2 ^ n.inputs.size ⌈/⌉ 64 ∧
          (∀ row < 2 ^ n.inputs.size, ∀ x, n.Evaluates row.testBit s.node x ↔
            cell table row = (x ^^ s.complemented)) ∧
          ∀ position, 2 ^ n.inputs.size ≤ position → cell table position = false := by
  obtain ⟨tables, htables, h⟩ := exists_tables hn hacyclic hfew
  refine ⟨tables, htables, h.outputs, ?_⟩
  intro k s table hs htable
  refine ⟨?_, ?_, ?_⟩
  · rw [h.blocks table (List.mem_of_getElem? htable), Nat.ceilDiv_eq_add_pred_div]
    rfl
  · intro row hrow x
    rw [h.cell_eq htable, decide_eq_true hrow, Bool.true_and]
    exact evaluates_iff_getD hn hacyclic hs
  · intro position hposition
    rw [h.cell_eq htable, decide_eq_false (Nat.not_lt.mpr hposition), Bool.false_and]

/-- An output that is complemented, over seven inputs: a block of rows in which it is true, and
one in which it is the complement of the first input. -/
theorem tables_exact_of_two_blocks : ∃ n : Network, (n.WellFormed ∧ n.Acyclic) ∧
    n.inputs.size = 7 ∧ 7 ≤ tableInputLimit ∧
    n.tables = .ok [[0xFFFFFFFFFFFFFFFF, 0x5555555555555555]] ∧ 2 ^ 7 ⌈/⌉ 64 = 2 ∧
    ∀ row < 2 ^ 7, ∀ x, n.Evaluates row.testBit 8 x ↔
      cell [0xFFFFFFFFFFFFFFFF, 0x5555555555555555] row = (x ^^ true) := by
  let n := Network.empty.assemble
    [.input, .input, .input, .input, .input, .input, .input, .gate 2 14, .output 17]
  have hn : n.Sound := Network.Sound.assemble wellFormed_empty _
  have hinputs : n.inputs.size = 7 := by decide +kernel
  have houtput : n.outputs[0]? = some ⟨8, true⟩ := by decide +kernel
  have hrun : n.tables = .ok [[0xFFFFFFFFFFFFFFFF, 0x5555555555555555]] := by decide +kernel
  clear_value n
  obtain ⟨tables, htables, -, hexact⟩ := tables_exact hn.1 hn.2 (hinputs.trans_le (by decide))
  obtain rfl : tables = [[0xFFFFFFFFFFFFFFFF, 0x5555555555555555]] :=
    Except.ok.inj (htables.symm.trans hrun)
  obtain ⟨hlength, hrows, -⟩ := hexact 0 _ _ houtput rfl
  rw [hinputs] at hlength hrows
  exact ⟨n, hn, hinputs, by decide, hrun, hlength.symm, hrows⟩

end Network

end AndInverter
