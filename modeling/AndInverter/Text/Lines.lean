/-!
Lines of a text.  A line ends with a line feed, which may have a carriage return in front of
it; the last line may go without.  `lines_unlines` says that lines written with their line
feeds are read back, as long as none contains a line feed or ends with a carriage return.
-/

namespace AndInverter.Text

/-- The lines of a text, without their ends. -/
def lines : List Char → List (List Char)
  | [] => []
  | '\n' :: rest => [] :: lines rest
  | '\r' :: '\n' :: rest => [] :: lines rest
  | c :: rest =>
    match lines rest with
    | [] => [[c]]
    | l :: ls => (c :: l) :: ls

/-- A text made of lines. -/
def unlines (ls : List (List Char)) : List Char := ls.flatMap (· ++ ['\n'])

/-- A line that can stand in a text: no line feed, no carriage return. -/
def IsLine (l : List Char) : Prop := ∀ c ∈ l, c ≠ '\n' ∧ c ≠ '\r'

@[simp] theorem lines_lineFeed (rest : List Char) : lines ('\n' :: rest) = [] :: lines rest := by
  rw [lines]

theorem lines_cons {c : Char} (hc : c ≠ '\n' ∧ c ≠ '\r') (rest : List Char) :
    lines (c :: rest) = match lines rest with
      | [] => [[c]]
      | l :: ls => (c :: l) :: ls := by
  rw [lines]
  · exact fun h => hc.1 h
  · intro _ h
    exact absurd h hc.2

/-- A line with its line feed is read back. -/
theorem lines_append_lineFeed {l : List Char} (h : IsLine l) (rest : List Char) :
    lines (l ++ '\n' :: rest) = l :: lines rest := by
  induction l with
  | nil => simp
  | cons c l ih =>
    have hl : IsLine l := fun d hd => h d (List.mem_cons_of_mem _ hd)
    rw [List.cons_append, lines_cons (h c (List.mem_cons_self ..)), ih hl]

/-- Lines written with their line feeds are read back. -/
theorem lines_unlines {ls : List (List Char)} (h : ∀ l ∈ ls, IsLine l) :
    lines (unlines ls) = ls := by
  induction ls with
  | nil => rfl
  | cons l ls ih =>
    have hrest : lines (unlines ls) = ls := ih fun m hm => h m (List.mem_cons_of_mem _ hm)
    rw [unlines, List.flatMap_cons, List.append_assoc, List.singleton_append,
      lines_append_lineFeed (h l (List.mem_cons_self ..))]
    exact congrArg _ hrest

end AndInverter.Text
