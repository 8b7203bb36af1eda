import Mathlib.Data.List.DropRight
import Mathlib.Tactic
import AndInverter.Text.Blank
import AndInverter.Text.Lines
import AndInverter.Text.Numeral

/-!
Texts that are read back as they were written.

* `Numeral.read_digits`: a number is read from its digits;
* `IsNumeral`, and `Numeral.read_eq_ok`: what is read is a numeral, and a numeral is read;
* `IsWord`, and `isWord_digits`: the digits of a number are a word;
* `words_intercalate`: words are found on the line on which spaces part them.
-/

namespace AndInverter.Text

variable {n m limit : Nat} {c : Char} {w rest : List Char} {ws : List (List Char)}

/-! ### Numerals -/

namespace Numeral

lemma digit?_digitChar (h : n < 10) : digit? n.digitChar = some n := by
  have hvalue := Nat.toNat_digitChar_of_lt_ten h
  have hdigit : '0' ≤ n.digitChar ∧ n.digitChar ≤ '9' := by
    simp only [Char.le_def, UInt32.le_iff_toNat_le]
    change 48 ≤ n.digitChar.toNat ∧ n.digitChar.toNat ≤ 57
    omega
  rw [digit?, if_pos hdigit, hvalue]
  exact congrArg some (Nat.add_sub_cancel_left 48 n)

/-- Digits are read one after the other. -/
lemma readDigits_append {xs ys : List Char} (h : readDigits limit n xs = .ok m) :
    readDigits limit n (xs ++ ys) = readDigits limit m ys := by
  induction xs generalizing n with
  | nil =>
      cases h
      rfl
  | cons c xs ih =>
      rw [readDigits] at h
      rw [List.cons_append, readDigits]
      cases hc : digit? c with
      | none => simp [hc] at h
      | some d =>
          simp only [hc] at h ⊢
          split_ifs at h ⊢
          exact ih h

lemma readDigits_digits (h : n ≤ limit) : readDigits limit 0 (Nat.toDigits 10 n) = .ok n := by
  induction n using Nat.strong_induction_on with
  | h n ih =>
      rcases Nat.lt_or_ge n 10 with hlt | hge
      · rw [Nat.toDigits_of_lt_base hlt, readDigits, digit?_digitChar hlt]
        simp only [Nat.mul_zero, Nat.zero_add, if_neg (Nat.not_lt.mpr h)]
        rfl
      · have hlast : n % 10 < 10 := Nat.mod_lt n (by omega)
        have hvalue : 10 * (n / 10) + n % 10 = n := Nat.div_add_mod n 10
        rw [Nat.toDigits_of_base_le (by omega) hge,
          readDigits_append (ih (n / 10) (by omega) (by omega)), readDigits,
          digit?_digitChar hlast]
        simp only [hvalue, if_neg (Nat.not_lt.mpr h)]
        rfl

/-- **A number is read back from its digits**, unless it is too large. -/
theorem read_digits (h : n ≤ limit) : read limit (Nat.toDigits 10 n) = .ok n := by
  have hdigits := readDigits_digits h
  cases hform : Nat.toDigits 10 n with
  | nil => exact absurd hform Nat.toDigits_ne_nil
  | cons c rest =>
      have hc : c.isDigit = true := by
        refine Nat.isDigit_of_mem_toDigits (b := 10) (n := n) (by omega) le_rfl ?_
        rw [hform]
        exact List.mem_cons_self
      have hplus : c ≠ '+' := by
        rintro rfl
        exact absurd hc (by decide)
      rw [hform] at hdigits
      rw [read]
      · exact hdigits
      · exact fun h => nomatch h
      · intro h
        exact hplus (List.cons.inj h).1
      · intro digits h
        exact hplus (List.cons.inj h).1

end Numeral

/-- **A numeral**: at least one digit, perhaps behind a plus sign. -/
def IsNumeral (s : List Char) (n : Nat) : Prop :=
  ∃ digits, (s = digits ∨ s = '+' :: digits) ∧ digits ≠ [] ∧
    (∀ c ∈ digits, c.isDigit = true) ∧ Nat.ofDigitChars 10 digits 0 = n

namespace Numeral

lemma digit?_eq (c : Char) :
    digit? c = if c.isDigit = true then some (c.toNat - '0'.toNat) else none := by
  have hdigit : c.isDigit = true ↔ '0' ≤ c ∧ c ≤ '9' := by
    rw [Char.isDigit, Bool.and_eq_true, decide_eq_true_eq, decide_eq_true_eq]
    rfl
  simp only [digit?, hdigit]

/-- More digits make a number no smaller. -/
lemma le_ofDigitChars (n : Nat) (s : List Char) : n ≤ Nat.ofDigitChars 10 s n := by
  induction s generalizing n with
  | nil => exact le_rfl
  | cons c s ih =>
      rw [Nat.ofDigitChars_cons]
      exact le_trans (by omega) (ih _)

/-- Digits are read as the number that they write, if it is within the limit. -/
lemma readDigits_eq_ok {s : List Char} (hn : n ≤ limit) : readDigits limit n s = .ok m ↔
    (∀ c ∈ s, c.isDigit = true) ∧ Nat.ofDigitChars 10 s n = m ∧ m ≤ limit := by
  induction s generalizing n with
  | nil =>
      simp only [readDigits, Except.ok.injEq, Nat.ofDigitChars_nil, List.not_mem_nil, false_imp_iff,
        implies_true, true_and]
      exact ⟨fun h => ⟨h, h ▸ hn⟩, And.left⟩
  | cons c s ih =>
      rw [readDigits, digit?_eq, List.forall_mem_cons, Nat.ofDigitChars_cons]
      by_cases hc : c.isDigit = true
      · simp only [hc, if_true, true_and]
        by_cases hlarge : limit < 10 * n + (c.toNat - '0'.toNat)
        · rw [if_pos hlarge]
          refine iff_of_false (by simp) ?_
          rintro ⟨-, rfl, hle⟩
          exact absurd ((le_ofDigitChars _ s).trans hle) (Nat.not_le.mpr hlarge)
        · rw [if_neg hlarge, ih (Nat.le_of_not_lt hlarge)]
      · simp [hc]

/-- **What is read is a numeral** within the limit, and every such numeral is read. -/
theorem read_eq_ok {s : List Char} : read limit s = .ok n ↔ IsNumeral s n ∧ n ≤ limit := by
  have hplus : ¬ ('+' : Char).isDigit = true := by decide
  rw [read.eq_def]
  split
  case h_1 =>
    refine iff_of_false (by simp) ?_
    rintro ⟨⟨digits, rfl | h, hne, -⟩, -⟩
    · exact hne rfl
    · cases h
  case h_2 =>
    refine iff_of_false (by simp) ?_
    rintro ⟨⟨digits, rfl | h, hne, hall, -⟩, -⟩
    · exact hplus (hall '+' List.mem_cons_self)
    · exact hne (List.cons.inj h).2.symm
  case h_3 digits hne =>
    rw [readDigits_eq_ok (Nat.zero_le limit), ← and_assoc]
    refine and_congr_left fun _ => ⟨?_, ?_⟩
    · rintro ⟨hall, hvalue⟩
      exact ⟨digits, .inr rfl, fun h => hne (h ▸ rfl), hall, hvalue⟩
    · rintro ⟨digits', rfl | h, -, hall, hvalue⟩
      · exact absurd (hall '+' List.mem_cons_self) hplus
      · obtain ⟨-, rfl⟩ := List.cons.inj h
        exact ⟨hall, hvalue⟩
  case h_4 hempty _ hsign =>
    rw [readDigits_eq_ok (Nat.zero_le limit), ← and_assoc]
    refine and_congr_left fun _ => ⟨?_, ?_⟩
    · rintro ⟨hall, hvalue⟩
      exact ⟨s, .inl rfl, hempty, hall, hvalue⟩
    · rintro ⟨digits, rfl | rfl, -, hall, hvalue⟩
      · exact ⟨hall, hvalue⟩
      · exact absurd rfl (hsign digits)

end Numeral

/-! ### Words -/

/-- **A word**: at least one character, and none that is blank. -/
structure IsWord (w : List Char) : Prop where
  ne_nil : w ≠ []
  not_isBlank : ∀ c ∈ w, isBlank c = false

lemma not_isBlank_of_isDigit (h : c.isDigit = true) : isBlank c = false := by
  simp only [Char.isDigit, Bool.and_eq_true, decide_eq_true_eq, ge_iff_le,
    UInt32.le_iff_toNat_le] at h
  have hlow : 48 ≤ c.toNat := h.1
  have hhigh : c.toNat ≤ 57 := h.2
  simp only [isBlank, Bool.or_eq_false_iff, Bool.and_eq_false_iff, decide_eq_false_iff_not,
    beq_eq_false_iff_ne]
  omega

/-- **The digits of a number are a word.** -/
lemma isWord_digits (n : Nat) : IsWord (Nat.toDigits 10 n) where
  ne_nil := Nat.toDigits_ne_nil
  not_isBlank _ hc := not_isBlank_of_isDigit (Nat.isDigit_of_mem_toDigits (by omega) le_rfl hc)

/-- A word has nothing to trim. -/
lemma IsWord.trim (h : IsWord w) : trim w = w := by
  have hfront : w.dropWhile isBlank = w := by
    refine List.dropWhile_eq_self_iff.mpr ?_
    intro hpos
    simp [h.not_isBlank _ (List.getElem_mem hpos)]
  have hback : w.rdropWhile isBlank = w := by
    refine List.rdropWhile_eq_self_iff.mpr ?_
    intro hne
    simp [h.not_isBlank _ (List.getLast_mem hne)]
  rw [Text.trim, hfront]
  exact hback

/-- A word ends where a blank follows, or nothing. -/
lemma IsWord.words_append (h : IsWord w) (hrest : rest.head?.all isBlank = true) :
    words (w ++ rest) = w :: words rest := by
  obtain ⟨hne, hblank⟩ := h
  induction w with
  | nil => exact absurd rfl hne
  | cons c w ih =>
      obtain ⟨hc, hw⟩ := List.forall_mem_cons.mp hblank
      rw [List.cons_append, words, hc, if_neg Bool.false_ne_true]
      cases w with
      | nil =>
          rw [List.nil_append, if_pos hrest]
      | cons d w =>
          have hd := hw d List.mem_cons_self
          rw [ih (List.cons_ne_nil d w) hw, if_neg (by simp [hd])]
          rfl

/-- **Words are found on the line** on which single spaces part them. -/
theorem words_intercalate (h : ∀ w ∈ ws, IsWord w) : words ([' '].intercalate ws) = ws := by
  induction ws with
  | nil => rfl
  | cons w ws ih =>
      obtain ⟨hw, hws⟩ := List.forall_mem_cons.mp h
      cases ws with
      | nil =>
          have hwords : words (w ++ []) = [w] := hw.words_append rfl
          rw [List.append_nil] at hwords
          rw [List.intercalate_singleton, hwords]
      | cons v ws =>
          rw [List.intercalate_cons_cons, List.append_assoc, hw.words_append rfl,
            List.singleton_append]
          have hspace : isBlank ' ' = true := by decide
          rw [words, hspace, if_pos rfl, ih hws]

/-- Words that spaces part stand on one line. -/
lemma isLine_intercalate (h : ∀ w ∈ ws, IsWord w) : IsLine ([' '].intercalate ws) := by
  have hword : ∀ {w : List Char}, IsWord w → IsLine w := by
    intro w hw c hc
    have hblank := hw.not_isBlank c hc
    constructor <;> rintro rfl <;> exact absurd hblank (by decide)
  induction ws with
  | nil => exact fun c hc => absurd hc List.not_mem_nil
  | cons w ws ih =>
      obtain ⟨hw, hws⟩ := List.forall_mem_cons.mp h
      cases ws with
      | nil =>
          rw [List.intercalate_singleton]
          exact hword hw
      | cons v ws =>
          rw [List.intercalate_cons_cons, List.append_assoc]
          intro c hc
          rcases List.mem_append.mp hc with hc | hc
          · exact hword hw c hc
          rcases List.mem_cons.mp hc with rfl | hc
          · decide
          · exact ih hws c hc

/-- A line with a word on it is not blank. -/
lemma IsWord.not_isAllBlank (h : IsWord w) (rest : List Char) :
    isAllBlank (w ++ rest) = false := by
  cases w with
  | nil => exact absurd rfl h.ne_nil
  | cons c w => simp [isAllBlank, h.not_isBlank c List.mem_cons_self]

end AndInverter.Text
