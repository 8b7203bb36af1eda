import AndInverter.Proofs.Aiger.Parse

/-!
The format of a circuit file, said without a reader: which lines stand in which order, and what
stands on each.

* `Document.ReadFrom`: the content of a text in this format;
* `readKeyed_eq_ok`: a section is read exactly if its lines are the next ones and no variable
  comes twice;
* `checkSymbols_eq_ok`: what a symbol table may hold;
* `Document.parse_eq_ok`: what is read from a text is its content, and nothing else is read;
* `Document.blamesFile_parse`: a text that is not read is at fault itself.
-/

namespace AndInverter.Aiger

open Text

/-! ### The format -/

/-- **A number of a file**, with blanks around it or not. -/
def IsNumber (s : List Char) (n : Nat) : Prop := IsNumeral (trim s) n ∧ n ≤ numberLimit

/-- **The first line** of a file. -/
def Header.IsOn (h : Header) (l : Line) : Prop :=
  (∃ m i z o a, words l = [['a', 'a', 'g'], m, i, z, o, a] ∧ IsNumber m h.maxVar ∧
    IsNumber i h.inputs ∧ IsNumber z 0 ∧ IsNumber o h.outputs ∧ IsNumber a h.definitions) ∧
  h.inputs + h.definitions ≤ h.maxVar

/-- **The next lines that are not blank**, and what comes behind them. -/
inductive NextLines : List Line → List Line → List Line → Prop
  | nil (ls : List Line) : NextLines ls [] ls
  | cons {blanks ls found rest : List Line} {l : Line}
      (hblanks : ∀ b ∈ blanks, isAllBlank b = true) (hl : isAllBlank l = false)
      (h : NextLines ls found rest) : NextLines (blanks ++ l :: ls) (l :: found) rest

/-- **The line of an input**: its variable, as a literal that is not complemented. -/
def IsInputLine (maxVar : Nat) (l : Line) (var : Nat) : Prop :=
  IsNumber l (2 * var) ∧ 1 ≤ var ∧ var ≤ maxVar

/-- **The line of a definition**: its variable, as a literal that is not complemented, and the
two literals that it is the conjunction of. -/
def IsDefinitionLine (maxVar : Nat) (l : Line) (e : Definition) : Prop :=
  (∃ x y z, words l = [x, y, z] ∧ IsNumber x (2 * e.var) ∧ IsNumber y e.rhs₀ ∧
    IsNumber z e.rhs₁) ∧ 1 ≤ e.var ∧ e.var ≤ maxVar

/-- **The line of a symbol** of one kind: an index and behind a space a name. -/
def IsSymbolLine (kind : Char) (count : Nat) (l : Line) : Prop :=
  ∃ index name n, l = kind :: (index ++ ' ' :: name) ∧ IsNumeral index n ∧ n < count ∧
    isAllBlank name = false

/-- **The content of a text**: a header, and behind it the lines of the inputs, the outputs and
the definitions, none of which defines a variable anew; what is left until comments begin are
symbols. -/
def Document.ReadFrom (d : Document) (text : String) : Prop :=
  ∃ (first : Line) (rest inputs outputs definitions symbols : List Line),
    Text.lines text.toList = first :: rest ∧ d.header.IsOn first ∧
    NextLines rest (inputs ++ outputs ++ definitions) symbols ∧
    List.Forall₂ (IsInputLine d.maxVar) inputs d.inputs ∧
    List.Forall₂ IsNumber outputs d.outputs ∧
    List.Forall₂ (IsDefinitionLine d.maxVar) definitions d.definitions ∧
    (d.inputs ++ d.definitions.map (·.var)).Nodup ∧
    ∀ l ∈ symbols.takeWhile (·.head? ≠ some 'c'), isAllBlank l = true ∨
      IsSymbolLine 'i' d.inputs.length l ∨ IsSymbolLine 'o' d.outputs.length l

variable {α : Type} {field : Field} {which : Section} {s : List Char} {n maxVar count : Nat}
  {expected : Nat} {l : Line} {ls found rest : List Line} {known : Std.HashSet Nat}

/-! ### One line -/

lemma readNumber_eq_ok : readNumber field s = .ok n ↔ IsNumber s n := by
  rw [readNumber, IsNumber, ← Numeral.read_eq_ok]
  cases Numeral.read numberLimit (trim s) <;> simp

/-- **A header is read** exactly from a line that it is on. -/
lemma ofWords_eq_ok {h : Header} : Header.ofWords l (words l) = .ok h ↔ h.IsOn l := by
  rw [Header.ofWords.eq_def, Header.IsOn]
  split
  case h_1 tag m i z o a hwords =>
    simp only [guard_eq_except_ok, bind_eq_except_ok, readNumber_eq_ok, pure_eq_except_ok,
      not_not, not_lt]
    constructor
    · rintro ⟨rfl, maxVar, hm, inputs, hi, latches, hz, outputs, ho, definitions, ha, rfl, hle,
        rfl⟩
      exact ⟨⟨m, i, z, o, a, hwords, hm, hi, hz, ho, ha⟩, hle⟩
    · rintro ⟨⟨_, _, _, _, _, heq, hm, hi, hz, ho, ha⟩, hle⟩
      cases hwords.symm.trans heq
      exact ⟨rfl, _, hm, _, hi, _, hz, _, ho, _, ha, rfl, hle, rfl⟩
  case h_2 hwords =>
    refine iff_of_false nofun ?_
    rintro ⟨⟨m, i, z, o, a, heq, -⟩, -⟩
    exact hwords _ _ _ _ _ _ heq

/-- **The next line** is the first one that is not blank. -/
lemma nextLine_eq_ok : nextLine which expected ls = .ok (l, rest) ↔
    ∃ blanks, ls = blanks ++ l :: rest ∧ (∀ b ∈ blanks, isAllBlank b = true) ∧
      isAllBlank l = false := by
  have hfound : ls.dropWhile isAllBlank = l :: rest ↔
      ∃ blanks, ls = blanks ++ l :: rest ∧ (∀ b ∈ blanks, isAllBlank b = true) ∧
        isAllBlank l = false := by
    constructor
    · intro h
      refine ⟨ls.takeWhile isAllBlank, ?_, fun b hb => List.mem_takeWhile_imp hb, ?_⟩
      · rw [← h, List.takeWhile_append_dropWhile]
      · have hhead := List.head_dropWhile_not isAllBlank (h ▸ List.cons_ne_nil l rest)
        simpa only [h, List.head_cons] using hhead
    · rintro ⟨blanks, rfl, hblanks, hl⟩
      rw [List.dropWhile_append_of_pos hblanks, List.dropWhile_cons_of_neg (by simp [hl])]
  rw [← hfound, nextLine]
  cases ls.dropWhile isAllBlank <;> simp

/-- **The variable of an input is read** exactly from its line, unless it is known. -/
lemma inputVar_eq_ok {var : Nat} :
    inputVar maxVar known l = .ok var ↔ IsInputLine maxVar l var ∧ var ∉ known := by
  simp only [inputVar, guard_eq_except_ok, bind_eq_except_ok, readNumber_eq_ok, pure_eq_except_ok,
    not_not, not_lt, Std.HashSet.contains_iff_mem]
  constructor
  · rintro ⟨literal, hnumber, heven, hpos, hle, hnew, rfl⟩
    have hliteral : 2 * (literal / 2) = literal := by omega
    exact ⟨⟨hliteral.symm ▸ hnumber, by omega, hle⟩, hnew⟩
  · rintro ⟨⟨hnumber, hpos, hle⟩, hnew⟩
    have hvar : 2 * var / 2 = var := by omega
    exact ⟨2 * var, hnumber, by omega, by omega, by rwa [hvar], by rwa [hvar], hvar⟩

/-- **A definition is read** exactly from its line, unless its variable is known. -/
lemma definitionOf_eq_ok {e : Definition} :
    definitionOf maxVar known l = .ok e ↔ IsDefinitionLine maxVar l e ∧ e.var ∉ known := by
  rw [definitionOf.eq_def]
  split
  case h_1 x y z hwords =>
    simp only [guard_eq_except_ok, bind_eq_except_ok, readNumber_eq_ok, pure_eq_except_ok,
      not_not, Std.HashSet.contains_iff_mem, IsDefinitionLine]
    constructor
    · rintro ⟨lhs, hx, rhs₀, hy, rhs₁, hz, heven, hrange, hnew, rfl⟩
      have hlhs : 2 * (lhs / 2) = lhs := by omega
      rw [not_or, not_lt] at hrange
      exact ⟨⟨⟨x, y, z, hwords, hlhs.symm ▸ hx, hy, hz⟩, Nat.pos_of_ne_zero hrange.1, hrange.2⟩,
        hnew⟩
    · rintro ⟨⟨⟨_, _, _, heq, hx, hy, hz⟩, hpos, hle⟩, hnew⟩
      cases hwords.symm.trans heq
      have hvar : 2 * e.var / 2 = e.var := by omega
      exact ⟨2 * e.var, hx, e.rhs₀, hy, e.rhs₁, hz, by omega, by omega, by rwa [hvar],
        by rw [hvar]⟩
  case h_2 hwords =>
    refine iff_of_false nofun ?_
    rintro ⟨⟨⟨x, y, z, heq, -⟩, -⟩, -⟩
    exact hwords _ _ _ heq

/-! ### The sections -/

lemma NextLines.append {found' : List Line} : NextLines ls (found ++ found') rest ↔
    ∃ middle, NextLines ls found middle ∧ NextLines middle found' rest := by
  constructor
  · intro h
    induction found generalizing ls with
    | nil => exact ⟨ls, .nil ls, h⟩
    | cons l found ih =>
        cases h with
        | cons hblanks hl h =>
            obtain ⟨middle, hfirst, hsecond⟩ := ih h
            exact ⟨middle, .cons hblanks hl hfirst, hsecond⟩
  · rintro ⟨middle, hfirst, hsecond⟩
    induction hfirst with
    | nil => exact hsecond
    | cons hblanks hl _ ih => exact .cons hblanks hl (ih hsecond)

/-- Lines are only passed over. -/
lemma NextLines.length_le (h : NextLines ls found rest) : found.length ≤ ls.length := by
  induction h with
  | nil => exact Nat.zero_le _
  | cons _ _ _ ih =>
      rw [List.length_append, List.length_cons, List.length_cons]
      omega

/-- Reads `count` lines of a section, each of which may define a variable. -/
def readKeyed (which : Section) (expected : Nat)
    (readLine : Std.HashSet Nat → Line → Except LoadError α) (key : α → Option Nat) :
    (count : Nat) → Std.HashSet Nat → List Line →
      Except LoadError (List α × Std.HashSet Nat × List Line)
  | 0, known, ls => return ([], known, ls)
  | count + 1, known, ls => do
    let (l, ls) ← nextLine which expected ls
    let a ← readLine known l
    let (as, known, ls) ←
      readKeyed which expected readLine key count (known.insertMany (key a).toList) ls
    return (a :: as, known, ls)

/-- To learn some variables that are new is to learn the first ones, and then the others. -/
lemma fresh_append_iff {first vars : List Nat} (hfirst : first.Nodup) :
    (first ++ vars).Nodup ∧ (∀ v ∈ first ++ vars, v ∉ known) ↔
      (∀ v ∈ first, v ∉ known) ∧ vars.Nodup ∧ ∀ v ∈ vars, v ∉ known.insertMany first := by
  simp only [List.nodup_append, List.forall_mem_append, Std.HashSet.mem_insertMany_list,
    List.contains_iff_mem, not_or]
  constructor
  · rintro ⟨⟨-, hvars, hdisjoint⟩, hnew, hnew'⟩
    exact ⟨hnew, hvars, fun v hv => ⟨hnew' v hv, fun hv' => hdisjoint v hv' v hv rfl⟩⟩
  · rintro ⟨hnew, hvars, hrest⟩
    refine ⟨⟨hfirst, hvars, ?_⟩, hnew, fun v hv => (hrest v hv).1⟩
    rintro v hv _ hv' rfl
    exact (hrest v hv').2 hv

/-- **A section is read** exactly if its lines are the next ones, and the variables that they
define are different and were not known. -/
lemma readKeyed_eq_ok {readLine : Std.HashSet Nat → Line → Except LoadError α}
    {key : α → Option Nat} {P : Line → α → Prop} {as : List α} {known' : Std.HashSet Nat}
    (hline : ∀ known l a, readLine known l = .ok a ↔ P l a ∧ ∀ k ∈ key a, k ∉ known) :
    readKeyed which expected readLine key count known ls = .ok (as, known', rest) ↔
      (∃ found, NextLines ls found rest ∧ List.Forall₂ P found as) ∧ as.length = count ∧
        ((as.filterMap key).Nodup ∧ ∀ k ∈ as.filterMap key, k ∉ known) ∧
        known.insertMany (as.filterMap key) = known' := by
  have hkeys : ∀ (a : α) (as : List α),
      (a :: as).filterMap key = (key a).toList ++ as.filterMap key := by
    intro a as
    cases h : key a <;> simp [h]
  have hone : ∀ a : α, (key a).toList.Nodup := by
    intro a
    cases key a <;> simp
  induction count generalizing known known' ls rest as with
  | zero =>
      constructor
      · intro h
        cases h
        exact ⟨⟨[], .nil _, .nil⟩, rfl, ⟨List.nodup_nil, nofun⟩, rfl⟩
      · rintro ⟨⟨found, hnext, hall⟩, hlength, -, rfl⟩
        obtain rfl := List.eq_nil_of_length_eq_zero hlength
        cases hall
        cases hnext
        rfl
  | succ count ih =>
      simp only [readKeyed, bind_eq_except_ok, Prod.exists, nextLine_eq_ok, hline, ih,
        pure_eq_except_ok, Prod.mk.injEq]
      constructor
      · rintro ⟨l, ls, ⟨blanks, rfl, hblanks, hl⟩, a, ⟨hP, hnew⟩, as, _, _,
          ⟨⟨found, hnext, hall⟩, rfl, hfresh, rfl⟩, rfl, rfl, rfl⟩
        refine ⟨⟨l :: found, .cons hblanks hl hnext, .cons hP hall⟩, rfl, ?_, ?_⟩
        · rw [hkeys, fresh_append_iff (hone a)]
          exact ⟨fun k hk => hnew k (Option.mem_toList.mp hk), hfresh⟩
        · rw [hkeys, Std.HashSet.insertMany_append]
      · rintro ⟨⟨found, hnext, hall⟩, hlength, hfresh, rfl⟩
        cases hall with
        | nil => cases hlength
        | @cons l a found as hP hall =>
            cases hnext with
            | @cons blanks ls _ _ _ hblanks hl hnext =>
                rw [hkeys, fresh_append_iff (hone a)] at hfresh
                refine ⟨l, ls, ⟨blanks, rfl, hblanks, hl⟩, a, ⟨hP, ?_⟩, as, _, rest,
                  ⟨⟨found, hnext, hall⟩, Nat.succ.inj hlength, hfresh.2, rfl⟩, rfl, ?_, rfl⟩
                · exact fun k hk => hfresh.1 k (Option.mem_toList.mpr hk)
                · rw [hkeys, Std.HashSet.insertMany_append]

lemma readInputs_eq (h : Header) (count : Nat) (known : Std.HashSet Nat) (ls : List Line) :
    readInputs h count known ls
      = readKeyed .inputs h.inputs (inputVar h.maxVar) some count known ls := by
  induction count generalizing known ls with
  | zero => rfl
  | succ count ih =>
      rw [readInputs, readKeyed]
      simp only [ih]
      rfl

lemma readOutputs_eq (h : Header) (count : Nat) (known : Std.HashSet Nat) (ls : List Line) :
    readOutputs h count ls = (readKeyed .outputs h.outputs (fun _ => readNumber .output)
      (fun _ => none) count known ls).map fun p => (p.1, p.2.2) := by
  induction count generalizing known ls with
  | zero => rfl
  | succ count ih =>
      rw [readOutputs, readKeyed]
      cases nextLine .outputs h.outputs ls with
      | error e => rfl
      | ok p =>
          cases hline : readNumber .output p.1 with
          | error e =>
              simp only [except_ok_bind, hline]
              rfl
          | ok literal =>
              simp only [except_ok_bind, hline, ih (known.insertMany (none : Option Nat).toList)]
              cases readKeyed .outputs h.outputs _ _ count _ p.2 <;> rfl

lemma readDefinitions_eq (h : Header) (count : Nat) (known : Std.HashSet Nat) (ls : List Line) :
    readDefinitions h count known ls = (readKeyed .definitions h.definitions
      (definitionOf h.maxVar) (some ·.var) count known ls).map fun p => (p.1, p.2.2) := by
  induction count generalizing known ls with
  | zero => rfl
  | succ count ih =>
      rw [readDefinitions, readKeyed]
      cases nextLine .definitions h.definitions ls with
      | error e => rfl
      | ok p =>
          cases hline : definitionOf h.maxVar known p.1 with
          | error e =>
              simp only [except_ok_bind, hline]
              rfl
          | ok e =>
              have hlearn : known.insert e.var = known.insertMany (some e.var).toList :=
                Std.HashSet.insertMany_list_singleton.symm
              simp only [except_ok_bind, hline, hlearn, ih]
              cases readKeyed .definitions h.definitions _ _ count _ p.2 <;> rfl

/-- **The inputs are read** exactly from their lines. -/
lemma readInputs_eq_ok {h : Header} {vars : List Nat} {known' : Std.HashSet Nat} :
    readInputs h count known ls = .ok (vars, known', rest) ↔
      (∃ found, NextLines ls found rest ∧ List.Forall₂ (IsInputLine h.maxVar) found vars) ∧
        vars.length = count ∧ (vars.Nodup ∧ ∀ v ∈ vars, v ∉ known) ∧
        known.insertMany vars = known' := by
  rw [readInputs_eq, readKeyed_eq_ok (P := IsInputLine h.maxVar), List.filterMap_some]
  intro known l var
  simp only [inputVar_eq_ok, Option.mem_some_iff, forall_eq']

/-- A section whose variables are not asked for. -/
lemma map_readKeyed_eq_ok {x : Except LoadError (List α × Std.HashSet Nat × List Line)}
    {as : List α} : x.map (fun p => (p.1, p.2.2)) = .ok (as, rest) ↔
      ∃ known, x = .ok (as, known, rest) := by
  cases x with
  | error e => simp [Except.map]
  | ok p =>
      obtain ⟨as', known, rest'⟩ := p
      simp [Except.map, and_comm]

/-- **The outputs are read** exactly from their lines. -/
lemma readOutputs_eq_ok {h : Header} {literals : List Nat} :
    readOutputs h count ls = .ok (literals, rest) ↔
      (∃ found, NextLines ls found rest ∧ List.Forall₂ IsNumber found literals) ∧
        literals.length = count := by
  have hline : ∀ (known : Std.HashSet Nat) (l : Line) (literal : Nat),
      readNumber .output l = .ok literal ↔
        IsNumber l literal ∧ ∀ k ∈ (none : Option Nat), k ∉ known := by
    intro known l literal
    simp [readNumber_eq_ok]
  simp only [readOutputs_eq h count ∅ ls, map_readKeyed_eq_ok, readKeyed_eq_ok hline]
  simp

/-- **The definitions are read** exactly from their lines. -/
lemma readDefinitions_eq_ok {h : Header} {ds : List Definition} :
    readDefinitions h count known ls = .ok (ds, rest) ↔
      (∃ found, NextLines ls found rest ∧ List.Forall₂ (IsDefinitionLine h.maxVar) found ds) ∧
        ds.length = count ∧ (ds.map (·.var)).Nodup ∧ ∀ v ∈ ds.map (·.var), v ∉ known := by
  have hline : ∀ (known : Std.HashSet Nat) (l : Line) (e : Definition),
      definitionOf h.maxVar known l = .ok e ↔
        IsDefinitionLine h.maxVar l e ∧ ∀ k ∈ some e.var, k ∉ known := by
    intro known l e
    simp only [definitionOf_eq_ok, Option.mem_some_iff, forall_eq']
  have hkeys : ds.filterMap (fun e => some e.var) = ds.map (·.var) :=
    congrFun List.filterMap_eq_map ds
  simp only [readDefinitions_eq, map_readKeyed_eq_ok, readKeyed_eq_ok hline, hkeys,
    exists_and_left, exists_eq', and_true]

/-! ### The symbol table -/

lemma not_space_of_isNumeral {index : List Char} (h : IsNumeral index n) :
    ∀ c ∈ index, c ≠ ' ' := by
  obtain ⟨digits, hform, -, hdigits, -⟩ := h
  have hspace : ∀ c ∈ digits, c ≠ ' ' := by
    rintro c hc rfl
    exact absurd (hdigits ' ' hc) (by decide)
  rcases hform with rfl | rfl
  · exact hspace
  · exact List.forall_mem_cons.mpr ⟨by decide, hspace⟩

/-- An index and a name pass exactly if a space parts them and both are in order. -/
lemma checkIndexAndName_eq_ok {limit : Nat} (hlimit : limit ≤ numberLimit) :
    checkIndexAndName l limit s = .ok () ↔ ∃ index name n, s = index ++ ' ' :: name ∧
      IsNumeral index n ∧ n < limit ∧ isAllBlank name = false := by
  rw [checkIndexAndName.eq_def]
  constructor
  · intro h
    have hsplit : s.takeWhile (· ≠ ' ') ++ s.dropWhile (· ≠ ' ') = s :=
      List.takeWhile_append_dropWhile
    generalize hindex : s.takeWhile (· ≠ ' ') = index at h hsplit
    cases hread : Numeral.read numberLimit index with
    | error cause => simp only [hread] at h; cases h
    | ok n =>
        simp only [hread, guard_eq_except_ok, not_le] at h
        obtain ⟨hlt, h⟩ := h
        split at h
        case isTrue => cases h
        case isFalse hname =>
          cases hrest : s.dropWhile (· ≠ ' ') with
          | nil =>
              -- without a space there is no name
              rw [hrest, List.append_nil] at hsplit
              rw [hsplit, List.drop_eq_nil_of_le (Nat.le_succ _)] at hname
              exact absurd rfl hname
          | cons c name =>
              have hc := List.head_dropWhile_not (· ≠ ' ') (hrest ▸ List.cons_ne_nil c name)
              simp only [hrest, List.head_cons, decide_eq_false_iff_not, not_not] at hc
              subst hc
              rw [hrest] at hsplit
              refine ⟨index, name, n, hsplit.symm, (Numeral.read_eq_ok.mp hread).1, hlt, ?_⟩
              rw [← hsplit, ← List.drop_drop, List.drop_left] at hname
              exact Bool.of_not_eq_true hname
  · rintro ⟨index, name, n, rfl, hindex, hlt, hname⟩
    have htake : (index ++ ' ' :: name).takeWhile (· ≠ ' ') = index := by
      have hspace : ∀ c ∈ index, decide (c ≠ ' ') = true :=
        fun c hc => decide_eq_true (not_space_of_isNumeral hindex c hc)
      rw [List.takeWhile_append_of_pos hspace]
      simp
    have hread : Numeral.read numberLimit index = .ok n :=
      Numeral.read_eq_ok.mpr ⟨hindex, by omega⟩
    have hdrop : (index ++ ' ' :: name).drop (index.length + 1) = name := by
      rw [← List.drop_drop, List.drop_left]
      rfl
    simp only [htake, hread, hdrop, hname, guard_eq_except_ok]
    exact ⟨Nat.not_le.mpr hlt, rfl⟩

/-- **A symbol passes** exactly if it is one of an input or of an output. -/
lemma checkSymbol_eq_ok {h : Header} (hinputs : h.inputs ≤ numberLimit)
    (houtputs : h.outputs ≤ numberLimit) : checkSymbol h l = .ok () ↔
      IsSymbolLine 'i' h.inputs l ∨ IsSymbolLine 'o' h.outputs l := by
  rw [checkSymbol.eq_def]
  split
  case h_1 rest =>
    rw [checkIndexAndName_eq_ok hinputs]
    simp [IsSymbolLine]
  case h_2 rest =>
    rw [checkIndexAndName_eq_ok houtputs]
    simp [IsSymbolLine]
  case h_3 rest => simp [IsSymbolLine]
  case h_4 hi ho hl =>
    refine iff_of_false nofun ?_
    rintro (⟨index, name, n, rfl, -⟩ | ⟨index, name, n, rfl, -⟩)
    · exact hi _ rfl
    · exact ho _ rfl

/-- **A symbol table passes** exactly if all its lines do until comments begin. -/
lemma checkSymbols_eq_ok {h : Header} (hinputs : h.inputs ≤ numberLimit)
    (houtputs : h.outputs ≤ numberLimit) : checkSymbols h ls = .ok () ↔
      ∀ l ∈ ls.takeWhile (·.head? ≠ some 'c'), isAllBlank l = true ∨
        IsSymbolLine 'i' h.inputs l ∨ IsSymbolLine 'o' h.outputs l := by
  induction ls with
  | nil => exact iff_of_true rfl nofun
  | cons l ls ih =>
      rw [checkSymbols]
      by_cases hcomment : l.head? = some 'c'
      · simp [hcomment]
      · rw [if_neg hcomment, List.takeWhile_cons_of_pos (by simpa using hcomment),
          List.forall_mem_cons, ← ih]
        by_cases hblank : isAllBlank l = true
        · simp [hblank]
        · rw [if_neg hblank, or_iff_right hblank, ← checkSymbol_eq_ok hinputs houtputs,
            bind_eq_except_ok]
          exact ⟨fun ⟨_, hl, hrest⟩ => ⟨hl, hrest⟩, fun ⟨hl, hrest⟩ => ⟨(), hl, hrest⟩⟩

/-! ### The whole -/

lemma Header.IsOn.counts_le {h : Header} (hl : h.IsOn l) :
    h.inputs ≤ numberLimit ∧ h.outputs ≤ numberLimit ∧ h.definitions ≤ numberLimit := by
  obtain ⟨⟨m, i, z, o, a, -, -, hi, -, ho, ha⟩, -⟩ := hl
  exact ⟨hi.2, ho.2, ha.2⟩

/-- **A document is read from a text** exactly if it is its content. -/
theorem Document.parse_eq_ok {d : Document} {text : String} :
    Document.parse text = .ok d ↔ d.ReadFrom text := by
  rw [Document.parse, Document.ReadFrom]
  cases hlines : Text.lines text.toList with
  | nil => simp [Document.ofLines]
  | cons first rest =>
      simp only [Document.ofLines, bind_eq_except_ok, Prod.exists, ofWords_eq_ok, readInputs_eq_ok,
        readOutputs_eq_ok, readDefinitions_eq_ok, pure_eq_except_ok]
      constructor
      · rintro ⟨h, hheader, inputs, _, ls₁, ⟨⟨inputLines, hnext₁, hinputs⟩, hlength₁,
          ⟨hnodup, -⟩, rfl⟩, outputs, ls₂, ⟨⟨outputLines, hnext₂, houtputs⟩, hlength₂⟩,
          definitions, ls₃, ⟨⟨definitionLines, hnext₃, hdefinitions⟩, hlength₃, hvars, hfresh⟩,
          ⟨⟩, hsymbols, rfl⟩
        obtain ⟨hle₁, hle₂, -⟩ := hheader.counts_le
        rw [checkSymbols_eq_ok hle₁ hle₂] at hsymbols
        obtain ⟨maxVar, _, _, _⟩ := h
        simp only at hlength₁ hlength₂ hlength₃
        subst hlength₁ hlength₂ hlength₃
        refine ⟨first, rest, inputLines, outputLines, definitionLines, ls₃, rfl, hheader,
          NextLines.append.mpr ⟨ls₂, NextLines.append.mpr ⟨ls₁, hnext₁, hnext₂⟩, hnext₃⟩,
          hinputs, houtputs, hdefinitions, List.nodup_append.mpr ⟨hnodup, hvars, ?_⟩, hsymbols⟩
        rintro v hv _ hv' rfl
        have hknown := List.contains_iff_mem.mpr hv
        exact hfresh v hv' (Std.HashSet.mem_insertMany_list.mpr (.inr hknown))
      · rintro ⟨_, _, inputLines, outputLines, definitionLines, symbols, heq, hheader, hnext,
          hinputs, houtputs, hdefinitions, hnodup, hsymbols⟩
        cases heq
        obtain ⟨ls₂, hnext, hnext₃⟩ := NextLines.append.mp hnext
        obtain ⟨ls₁, hnext₁, hnext₂⟩ := NextLines.append.mp hnext
        obtain ⟨hle₁, hle₂, -⟩ := hheader.counts_le
        obtain ⟨hinputs_nodup, hvars, hdisjoint⟩ := List.nodup_append.mp hnodup
        refine ⟨d.header, hheader, d.inputs, _, ls₁, ⟨⟨inputLines, hnext₁, hinputs⟩, rfl,
          ⟨hinputs_nodup, fun v _ => Std.HashSet.not_mem_empty⟩, rfl⟩, d.outputs, ls₂,
          ⟨⟨outputLines, hnext₂, houtputs⟩, rfl⟩, d.definitions, symbols,
          ⟨⟨definitionLines, hnext₃, hdefinitions⟩, rfl, hvars, ?_⟩, (),
          (checkSymbols_eq_ok hle₁ hle₂).mpr hsymbols, rfl⟩
        intro v hv hknown
        rcases Std.HashSet.mem_insertMany_list.mp hknown with hempty | hinput
        · exact Std.HashSet.not_mem_empty hempty
        · exact hdisjoint v (List.contains_iff_mem.mp hinput) v hv rfl

/-- **What is known of a content**: its counts are small, and there are at least as many lines as
it takes. -/
lemma Document.ReadFrom.counts {d : Document} {text : String} (h : d.ReadFrom text) :
    d.definitions.length ≤ numberLimit ∧
      d.inputs.length + d.outputs.length + d.definitions.length
        < (Text.lines text.toList).length := by
  obtain ⟨first, rest, inputs, outputs, definitions, symbols, hlines, hheader, hnext, hinputs,
    houtputs, hdefinitions, -⟩ := h
  refine ⟨hheader.counts_le.2.2, ?_⟩
  have hlength := hnext.length_le
  rw [List.length_append, List.length_append, hinputs.length_eq, houtputs.length_eq,
    hdefinitions.length_eq] at hlength
  rw [hlines, List.length_cons]
  omega

/-! ### Refusals -/

/-- Errors of the network that is made from a file. -/
def LoadError.isInternal : LoadError → Bool
  | .internal _ => true
  | _ => false

/-- **A reading that blames the file**: when it fails, no network is at fault. -/
def BlamesFile (x : Except LoadError α) : Prop := ∀ e, x = .error e → e.isInternal = false

section Refusals

variable {β : Type} {x : Except LoadError α} {f : α → Except LoadError β} {e : LoadError}

lemma blamesFile_ok (a : α) : BlamesFile (.ok a : Except LoadError α) := by
  simp only [BlamesFile, reduceCtorEq, false_implies, implies_true]

lemma blamesFile_error : BlamesFile (.error e : Except LoadError α) ↔ e.isInternal = false := by
  simp only [BlamesFile, Except.error.injEq, forall_eq']

lemma BlamesFile.ne_internal (h : BlamesFile x) (fault : Fault) :
    x ≠ .error (.internal fault) := by
  intro hfault
  exact Bool.noConfusion (h _ hfault)

lemma BlamesFile.bind (hx : BlamesFile x) (hf : ∀ a, BlamesFile (f a)) :
    BlamesFile (x >>= f) := by
  cases x with
  | error e => exact blamesFile_error.mpr (blamesFile_error.mp hx)
  | ok a => exact hf a

lemma BlamesFile.guard {c : Prop} [Decidable c] (he : e.isInternal = false)
    (hx : BlamesFile x) {f : β → Except LoadError α} :
    BlamesFile (if c then throw e >>= f else x) := by
  split
  · exact blamesFile_error.mpr he
  · exact hx

lemma BlamesFile.map (hx : BlamesFile x) (g : α → β) : BlamesFile (x.map g) := by
  cases x with
  | error e => exact blamesFile_error.mpr (blamesFile_error.mp hx)
  | ok a => exact blamesFile_ok (g a)

lemma blamesFile_readNumber : BlamesFile (readNumber field s) := by
  rw [readNumber]
  split
  · exact blamesFile_ok _
  · exact blamesFile_error.mpr rfl

lemma blamesFile_ofWords {ws : List (List Char)} : BlamesFile (Header.ofWords l ws) := by
  rw [Header.ofWords.eq_def]
  split
  · refine .guard rfl (.bind blamesFile_readNumber fun _ => ?_)
    refine .bind blamesFile_readNumber fun _ => .bind blamesFile_readNumber fun _ => ?_
    refine .bind blamesFile_readNumber fun _ => .bind blamesFile_readNumber fun _ => ?_
    exact .guard rfl (.guard rfl (blamesFile_ok _))
  · exact blamesFile_error.mpr rfl

lemma blamesFile_inputVar : BlamesFile (inputVar maxVar known l) := by
  refine .bind blamesFile_readNumber fun _ => .guard rfl ?_
  exact .guard rfl (.guard rfl (.guard rfl (blamesFile_ok _)))

lemma blamesFile_definitionOf : BlamesFile (definitionOf maxVar known l) := by
  rw [definitionOf.eq_def]
  split
  · refine .bind blamesFile_readNumber fun _ => .bind blamesFile_readNumber fun _ => ?_
    refine .bind blamesFile_readNumber fun _ => ?_
    exact .guard rfl (.guard rfl (.guard rfl (blamesFile_ok _)))
  · exact blamesFile_error.mpr rfl

lemma blamesFile_readKeyed {readLine : Std.HashSet Nat → Line → Except LoadError α}
    {key : α → Option Nat} (hline : ∀ known l, BlamesFile (readLine known l)) :
    BlamesFile (readKeyed which expected readLine key count known ls) := by
  induction count generalizing known ls with
  | zero => exact blamesFile_ok _
  | succ count ih =>
      rw [readKeyed]
      refine .bind ?_ fun _ => .bind (hline _ _) fun _ => .bind ih fun _ => blamesFile_ok _
      rw [nextLine]
      split
      · exact blamesFile_error.mpr rfl
      · exact blamesFile_ok _

lemma blamesFile_checkIndexAndName {limit : Nat} : BlamesFile (checkIndexAndName l limit s) := by
  rw [checkIndexAndName.eq_def]
  dsimp only
  split
  · exact blamesFile_error.mpr rfl
  · refine .guard rfl ?_
    split
    · exact blamesFile_error.mpr rfl
    · exact blamesFile_ok _

lemma blamesFile_checkSymbols {h : Header} : BlamesFile (checkSymbols h ls) := by
  induction ls with
  | nil => exact blamesFile_ok _
  | cons l ls ih =>
      rw [checkSymbols]
      split
      · exact blamesFile_ok _
      split
      · exact ih
      refine .bind ?_ fun _ => ih
      rw [checkSymbol.eq_def]
      split
      · exact blamesFile_checkIndexAndName
      · exact blamesFile_checkIndexAndName
      · exact blamesFile_error.mpr rfl
      · exact blamesFile_error.mpr rfl

/-- **A text that is not read** is at fault itself. -/
theorem Document.blamesFile_parse (text : String) : BlamesFile (Document.parse text) := by
  rw [Document.parse]
  cases Text.lines text.toList with
  | nil => exact blamesFile_error.mpr rfl
  | cons first rest =>
      rw [Document.ofLines]
      refine .bind blamesFile_ofWords fun h => ?_
      simp only [readInputs_eq, readOutputs_eq h _ ∅, readDefinitions_eq]
      refine .bind (blamesFile_readKeyed fun _ _ => blamesFile_inputVar) fun _ => ?_
      refine .bind (.map (blamesFile_readKeyed fun _ _ => blamesFile_readNumber) _) fun _ => ?_
      refine .bind (.map (blamesFile_readKeyed fun _ _ => blamesFile_definitionOf) _) fun _ => ?_
      exact .bind blamesFile_checkSymbols fun _ => blamesFile_ok _

end Refusals

end AndInverter.Aiger
