import AndInverter.Aiger.Parse
import AndInverter.Aiger.Write
import AndInverter.Proofs.Run
import AndInverter.Proofs.Text

/-!
A circuit file is read back from its text.

* `Document.Legible`: a file whose numbers are small enough and whose variables are distinct;
* `readInputs_lines`, `readOutputs_lines`, `readDefinitions_lines`: its sections are read back;
* `parse_text`: and so is the whole.
-/

namespace AndInverter.Aiger

open Text

/-! ### Lines of numbers -/

/-- The digits of some numbers, with spaces in between. -/
def numberChars (ns : List Nat) : Line := [' '].intercalate (ns.map (Nat.toDigits 10))

variable {n maxVar : Nat} {ns : List Nat} {field : Field} {h : Header} {ls : List Line}

lemma toList_numberLine (ns : List Nat) :
    (numberLine ns).toList = numberChars ns := by
  rw [numberLine, String.toList_intercalate, List.map_map, numberChars]
  refine congrArg _ (List.map_congr_left ?_)
  intro n _
  exact Nat.toList_repr

lemma isWord_of_mem_digits {w : List Char} (hw : w ∈ ns.map (Nat.toDigits 10)) :
    IsWord w := by
  obtain ⟨n, -, rfl⟩ := List.mem_map.mp hw
  exact isWord_digits n

lemma words_numberChars (ns : List Nat) :
    words (numberChars ns) = ns.map (Nat.toDigits 10) :=
  words_intercalate fun _ => isWord_of_mem_digits

lemma isLine_numberChars (ns : List Nat) : IsLine (numberChars ns) :=
  isLine_intercalate fun _ => isWord_of_mem_digits

lemma numberChars_singleton (n : Nat) : numberChars [n] = Nat.toDigits 10 n :=
  List.intercalate_singleton

lemma not_isAllBlank_numberChars (n : Nat) (ns : List Nat) :
    isAllBlank (numberChars (n :: ns)) = false := by
  cases ns with
  | nil =>
      rw [numberChars_singleton, ← List.append_nil (Nat.toDigits 10 n)]
      exact (isWord_digits n).not_isAllBlank []
  | cons m ns =>
      rw [numberChars, List.map_cons, List.map_cons, List.intercalate_cons_cons,
        List.append_assoc]
      exact (isWord_digits n).not_isAllBlank _

/-- A number is read back from its digits. -/
lemma readNumber_digits (hn : n ≤ numberLimit) :
    readNumber field (Nat.toDigits 10 n) = .ok n := by
  rw [readNumber, (isWord_digits n).trim, Numeral.read_digits hn]

/-- A line with numbers on it is the next line. -/
lemma nextLine_numberChars (which : Section) (expected : Nat) :
    nextLine which expected (numberChars (n :: ns) :: ls)
      = .ok (numberChars (n :: ns), ls) := by
  rw [nextLine, List.dropWhile_cons_of_neg]
  rw [not_isAllBlank_numberChars]
  exact Bool.false_ne_true

/-! ### The sections -/

/-- The variable of an input is read back. -/
lemma inputVar_numberChars {var : Nat} {known : Std.HashSet Nat} (hvar : 0 < var ∧ var ≤ maxVar)
    (hlimit : 2 * var ≤ numberLimit) (hfresh : var ∉ known) :
    inputVar maxVar known (numberChars [2 * var]) = .ok var := by
  have hhalf : 2 * var / 2 = var := by omega
  rw [inputVar, numberChars_singleton, readNumber_digits hlimit, except_ok_bind]
  simp only [Nat.mul_mod_right, hhalf]
  rw [if_neg (by simp), if_neg (by omega), if_neg (by omega), if_neg (by simpa using hfresh)]
  rfl

/-- **Inputs are read back**, and then their variables are known. -/
lemma readInputs_lines {vars : List Nat} {known : Std.HashSet Nat}
    (hvars : ∀ v ∈ vars, (0 < v ∧ v ≤ h.maxVar) ∧ 2 * v ≤ numberLimit)
    (hfresh : ∀ v ∈ vars, v ∉ known) (hnodup : vars.Nodup) :
    ∃ known', readInputs h vars.length known (vars.map (fun v => numberChars [2 * v]) ++ ls)
      = .ok (vars, known', ls) ∧ ∀ v, v ∈ known' ↔ v ∈ known ∨ v ∈ vars := by
  induction vars generalizing known with
  | nil => exact ⟨known, rfl, by simp⟩
  | cons var vars ih =>
      obtain ⟨⟨hvar, hlimit⟩, hvars⟩ := List.forall_mem_cons.mp hvars
      obtain ⟨hnew, hfresh⟩ := List.forall_mem_cons.mp hfresh
      obtain ⟨hnot, hnodup⟩ := List.nodup_cons.mp hnodup
      have hfresh' : ∀ v ∈ vars, v ∉ known.insert var := by
        intro v hv
        rw [Std.HashSet.mem_insert, not_or]
        refine ⟨?_, hfresh v hv⟩
        simp only [beq_iff_eq]
        rintro rfl
        exact hnot hv
      obtain ⟨known', hread, hmem⟩ := ih hvars hfresh' hnodup
      refine ⟨known', ?_, ?_⟩
      · rw [List.map_cons, List.cons_append, List.length_cons, readInputs]
        simp only [nextLine_numberChars, inputVar_numberChars hvar hlimit hnew, hread,
          except_ok_bind]
        rfl
      · intro v
        rw [hmem, Std.HashSet.mem_insert, List.mem_cons, beq_iff_eq, eq_comm (a := var)]
        tauto

/-- **Outputs are read back.** -/
lemma readOutputs_lines {literals : List Nat} (hlimit : ∀ l ∈ literals, l ≤ numberLimit) :
    readOutputs h literals.length (literals.map (fun l => numberChars [l]) ++ ls)
      = .ok (literals, ls) := by
  induction literals with
  | nil => rfl
  | cons literal literals ih =>
      obtain ⟨hl, hlimit⟩ := List.forall_mem_cons.mp hlimit
      rw [List.map_cons, List.cons_append, List.length_cons, readOutputs]
      simp only [nextLine_numberChars, except_ok_bind]
      rw [numberChars_singleton, readNumber_digits hl, except_ok_bind, ih hlimit]
      rfl

/-- The numbers of a definition. -/
def Definition.numbers (d : Definition) : List Nat := [2 * d.var, d.rhs₀, d.rhs₁]

/-- A definition is read back. -/
lemma definitionOf_numberChars {d : Definition} {known : Std.HashSet Nat}
    (hvar : 0 < d.var ∧ d.var ≤ maxVar) (hlimit : ∀ n ∈ d.numbers, n ≤ numberLimit)
    (hfresh : d.var ∉ known) :
    definitionOf maxVar known (numberChars d.numbers) = .ok d := by
  simp only [Definition.numbers, List.forall_mem_cons] at hlimit
  obtain ⟨hlhs, hrhs₀, hrhs₁, -⟩ := hlimit
  have hhalf : 2 * d.var / 2 = d.var := by omega
  rw [definitionOf, words_numberChars, Definition.numbers]
  simp only [List.map_cons, List.map_nil, readNumber_digits hlhs, readNumber_digits hrhs₀,
    readNumber_digits hrhs₁, except_ok_bind, Nat.mul_mod_right, hhalf]
  rw [if_neg (by simp), if_neg (by omega), if_neg (by simpa using hfresh)]
  rfl

/-- **Definitions are read back.** -/
lemma readDefinitions_lines {ds : List Definition} {known : Std.HashSet Nat}
    (hds : ∀ d ∈ ds, (0 < d.var ∧ d.var ≤ h.maxVar) ∧ ∀ n ∈ d.numbers, n ≤ numberLimit)
    (hfresh : ∀ d ∈ ds, d.var ∉ known) (hnodup : (ds.map (·.var)).Nodup) :
    readDefinitions h ds.length known (ds.map (fun d => numberChars d.numbers) ++ ls)
      = .ok (ds, ls) := by
  induction ds generalizing known with
  | nil => rfl
  | cons d ds ih =>
      obtain ⟨⟨hvar, hlimit⟩, hds⟩ := List.forall_mem_cons.mp hds
      obtain ⟨hnew, hfresh⟩ := List.forall_mem_cons.mp hfresh
      obtain ⟨hnot, hnodup⟩ := List.nodup_cons.mp hnodup
      have hfresh' : ∀ e ∈ ds, e.var ∉ known.insert d.var := by
        intro e he
        rw [Std.HashSet.mem_insert, not_or]
        refine ⟨?_, hfresh e he⟩
        simp only [beq_iff_eq]
        exact fun heq => hnot (List.mem_map.mpr ⟨e, he, heq.symm⟩)
      have hnext : nextLine .definitions h.definitions (numberChars d.numbers ::
          (ds.map (fun d => numberChars d.numbers) ++ ls))
            = .ok (numberChars d.numbers, ds.map (fun d => numberChars d.numbers) ++ ls) :=
        nextLine_numberChars _ _
      rw [List.map_cons, List.cons_append, List.length_cons, readDefinitions]
      simp only [hnext, definitionOf_numberChars hvar hlimit hnew, ih hds hfresh' hnodup,
        except_ok_bind]
      rfl

/-! ### The header -/

/-- The line of a header. -/
def headerChars (h : Header) : Line :=
  [' '].intercalate (['a', 'a', 'g'] ::
    [h.maxVar, h.inputs, 0, h.outputs, h.definitions].map (Nat.toDigits 10))

lemma isWord_of_mem_header {w : List Char} (hw : w ∈ ['a', 'a', 'g'] ::
    [h.maxVar, h.inputs, 0, h.outputs, h.definitions].map (Nat.toDigits 10)) : IsWord w := by
  rcases List.mem_cons.mp hw with rfl | hw
  · exact ⟨by simp, by simp [isBlank]⟩
  · exact isWord_of_mem_digits hw

/-- **A header is read back**, if its numbers are small enough. -/
lemma ofWords_headerChars (hcount : h.inputs + h.definitions ≤ h.maxVar)
    (hmaxVar : h.maxVar ≤ numberLimit) (houtputs : h.outputs ≤ numberLimit) :
    Header.ofWords (headerChars h) (words (headerChars h)) = .ok h := by
  have hwords : words (headerChars h) = ['a', 'a', 'g'] ::
      [h.maxVar, h.inputs, 0, h.outputs, h.definitions].map (Nat.toDigits 10) :=
    words_intercalate fun _ => isWord_of_mem_header
  rw [hwords]
  simp only [List.map_cons, List.map_nil, Header.ofWords, readNumber_digits hmaxVar,
    readNumber_digits (show h.inputs ≤ numberLimit by omega), readNumber_digits houtputs,
    readNumber_digits (show h.definitions ≤ numberLimit by omega),
    readNumber_digits (Nat.zero_le numberLimit), except_ok_bind]
  rw [if_neg (by simp), if_neg (by simp), if_neg (by omega)]
  rfl

/-! ### The whole -/

/-- **A legible document**: its numbers are small enough for a file, and every variable is
defined once at most. -/
structure Document.Legible (d : Document) : Prop where
  count_le : d.inputs.length + d.definitions.length ≤ d.maxVar
  maxVar_le : d.maxVar ≤ numberLimit
  outputs_length_le : d.outputs.length ≤ numberLimit
  inputs : ∀ v ∈ d.inputs, (0 < v ∧ v ≤ d.maxVar) ∧ 2 * v ≤ numberLimit
  outputs : ∀ l ∈ d.outputs, l ≤ numberLimit
  definitions : ∀ e ∈ d.definitions,
    (0 < e.var ∧ e.var ≤ d.maxVar) ∧ ∀ n ∈ e.numbers, n ≤ numberLimit
  nodup : (d.inputs ++ d.definitions.map (·.var)).Nodup

/-- The header of a document. -/
def Document.header (d : Document) : Header :=
  ⟨d.maxVar, d.inputs.length, d.outputs.length, d.definitions.length⟩

/-- The lines of a document, as characters. -/
lemma Document.toList_lines (d : Document) : d.lines.map String.toList = headerChars d.header ::
    (d.inputs.map (fun v => numberChars [2 * v]) ++ (d.outputs.map (fun l => numberChars [l]) ++
      (d.definitions.map (fun e => numberChars e.numbers) ++
        [['c'], "emitted by aigopt".toList]))) := by
  have hheader : d.headerLine.toList = headerChars d.header := by
    rw [headerLine, String.toList_append, toList_numberLine]
    rfl
  simp only [lines, List.map_append, List.map_cons, List.map_map, hheader, List.map_nil,
    Function.comp_def, toList_numberLine, Definition.line, List.cons_append, List.append_assoc]
  rfl

/-- **The lines of a text** are those of its document. -/
lemma Document.lines_text (d : Document) :
    Text.lines d.text.toList = d.lines.map String.toList := by
  have hlines : ∀ l ∈ d.lines.map String.toList, IsLine l := by
    rw [toList_lines]
    simp only [List.forall_mem_cons, List.forall_mem_append, List.forall_mem_map]
    refine ⟨isLine_intercalate fun _ => isWord_of_mem_header, ?_, ?_, ?_, ?_, ?_, ?_⟩
    · exact fun _ _ => isLine_numberChars _
    · exact fun _ _ => isLine_numberChars _
    · exact fun _ _ => isLine_numberChars _
    · simp [IsLine]
    · simp [IsLine]
    · exact fun _ h => absurd h List.not_mem_nil
  rw [text, String.toList_ofList, lines_unlines hlines]

/-- **A legible document is read back from its text.** -/
theorem Document.parse_text {d : Document} (hd : d.Legible) : Document.parse d.text = .ok d := by
  obtain ⟨hinputs, hvars, hdisjoint⟩ := List.nodup_append.mp hd.nodup
  have hheader := ofWords_headerChars (h := d.header) hd.count_le hd.maxVar_le
    hd.outputs_length_le
  generalize hcomments : [['c'], "emitted by aigopt".toList] = comments
  have hdone : checkSymbols d.header comments = .ok () := by
    rw [← hcomments]
    rfl
  have hdefinitions : ∀ known, (∀ e ∈ d.definitions, e.var ∉ known) →
      readDefinitions d.header d.definitions.length known
        (d.definitions.map (fun e => numberChars e.numbers) ++ comments)
          = .ok (d.definitions, comments) :=
    fun known hfresh => readDefinitions_lines hd.definitions hfresh hvars
  generalize hlast : d.definitions.map (fun e => numberChars e.numbers) ++ comments = last
    at hdefinitions
  have houtputs : readOutputs d.header d.outputs.length
      (d.outputs.map (fun l => numberChars [l]) ++ last) = .ok (d.outputs, last) :=
    readOutputs_lines hd.outputs
  generalize hmiddle : d.outputs.map (fun l => numberChars [l]) ++ last = middle at houtputs
  obtain ⟨known, hread, hmem⟩ : ∃ known, readInputs d.header d.inputs.length ∅
      (d.inputs.map (fun v => numberChars [2 * v]) ++ middle) = .ok (d.inputs, known, middle) ∧
        ∀ v, v ∈ known ↔ v ∈ (∅ : Std.HashSet Nat) ∨ v ∈ d.inputs :=
    readInputs_lines hd.inputs (fun _ _ => Std.HashSet.not_mem_empty) hinputs
  have hfresh : ∀ e ∈ d.definitions, e.var ∉ known := by
    intro e he hknown
    rcases (hmem e.var).mp hknown with hempty | hinput
    · exact Std.HashSet.not_mem_empty hempty
    · exact hdisjoint e.var hinput e.var (List.mem_map.mpr ⟨e, he, rfl⟩) rfl
  rw [Document.parse, lines_text, toList_lines, hcomments, hlast, hmiddle, Document.ofLines,
    hheader, except_ok_bind]
  simp only [show d.header.inputs = d.inputs.length from rfl,
    show d.header.outputs = d.outputs.length from rfl,
    show d.header.definitions = d.definitions.length from rfl, hread, houtputs,
    hdefinitions known hfresh, hdone, except_ok_bind]
  rfl

end AndInverter.Aiger
