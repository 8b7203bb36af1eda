import Std.Data.HashSet
import AndInverter.Aiger.Document
import AndInverter.Aiger.Error
import AndInverter.Text.Blank
import AndInverter.Text.Lines

/-!
Reading the text of a circuit file: a header `aag M I L O A` on the first line, then the
lines of the inputs, outputs and definitions, a symbol table and comments.  Blank lines do
not count behind the header.  Every line is judged where it stands, so the first bad line
decides what is wrong with a file.
-/

namespace AndInverter.Aiger

open Text

/-- A line of a file. -/
abbrev Line := List Char

/-- A number of a file, with blanks around it or not. -/
def readNumber (field : Field) (s : List Char) : Except LoadError Nat :=
  match Numeral.read numberLimit (trim s) with
  | .ok n => .ok n
  | .error cause => .error (.badNumber field (String.ofList s) cause)

/-! ### The header -/

/-- The numbers of a header. -/
structure Header where
  maxVar : Nat
  inputs : Nat
  outputs : Nat
  definitions : Nat
deriving DecidableEq

/-- Reads a header from its words. -/
def Header.ofWords (line : Line) : List (List Char) → Except LoadError Header
  | [tag, m, i, l, o, a] => do
    if tag ≠ ['a', 'a', 'g'] then
      throw (.unknownFormat (String.ofList tag))
    let maxVar ← readNumber .maxVar m
    let inputs ← readNumber .inputCount i
    let latches ← readNumber .latchCount l
    let outputs ← readNumber .outputCount o
    let definitions ← readNumber .definitionCount a
    if latches ≠ 0 then
      throw .latches
    if maxVar < inputs + definitions then
      throw (.tooManyVariables (inputs + definitions) maxVar)
    return ⟨maxVar, inputs, outputs, definitions⟩
  | ws => .error (.headerLength ws.length (String.ofList line))

/-! ### The sections -/

/-- The next line of a section that has `expected` of them. -/
def nextLine (which : Section) (expected : Nat) (ls : List Line) :
    Except LoadError (Line × List Line) :=
  match ls.dropWhile isAllBlank with
  | [] => .error (.linesMissing which expected)
  | l :: rest => .ok (l, rest)

/-- The variable of an input line; `known` are the variables of the lines above. -/
def inputVar (maxVar : Nat) (known : Std.HashSet Nat) (l : Line) : Except LoadError Nat := do
  let literal ← readNumber .input l
  if literal % 2 ≠ 0 then
    throw (.complementedInput literal)
  let var := literal / 2
  if var = 0 then
    throw .constantInput
  if maxVar < var then
    throw (.inputOutOfRange var maxVar)
  if known.contains var then
    throw (.repeatedInput var)
  return var

/-- Reads `count` input lines. -/
def readInputs (h : Header) : (count : Nat) → Std.HashSet Nat → List Line →
    Except LoadError (List Nat × Std.HashSet Nat × List Line)
  | 0, known, ls => return ([], known, ls)
  | count + 1, known, ls => do
    let (l, ls) ← nextLine .inputs h.inputs ls
    let var ← inputVar h.maxVar known l
    let (vars, known, ls) ← readInputs h count (known.insert var) ls
    return (var :: vars, known, ls)

/-- Reads `count` output lines. -/
def readOutputs (h : Header) : (count : Nat) → List Line →
    Except LoadError (List Nat × List Line)
  | 0, ls => return ([], ls)
  | count + 1, ls => do
    let (l, ls) ← nextLine .outputs h.outputs ls
    let literal ← readNumber .output l
    let (literals, ls) ← readOutputs h count ls
    return (literal :: literals, ls)

/-- The definition on a line; `known` are the variables of the inputs and the lines above. -/
def definitionOf (maxVar : Nat) (known : Std.HashSet Nat) (l : Line) :
    Except LoadError Definition :=
  match words l with
  | [x, y, z] => do
    let lhs ← readNumber .lhs x
    let rhs₀ ← readNumber .rhs y
    let rhs₁ ← readNumber .rhs z
    if lhs % 2 ≠ 0 then
      throw (.complementedDefinition lhs)
    let var := lhs / 2
    if var = 0 ∨ maxVar < var then
      throw (.definitionOutOfRange var maxVar)
    if known.contains var then
      throw (.alreadyDefined var)
    return ⟨var, rhs₀, rhs₁⟩
  | _ => .error (.definitionLength (String.ofList l))

/-- Reads `count` definition lines. -/
def readDefinitions (h : Header) : (count : Nat) → Std.HashSet Nat → List Line →
    Except LoadError (List Definition × List Line)
  | 0, _, ls => return ([], ls)
  | count + 1, known, ls => do
    let (l, ls) ← nextLine .definitions h.definitions ls
    let d ← definitionOf h.maxVar known l
    let (ds, ls) ← readDefinitions h count (known.insert d.var) ls
    return (d :: ds, ls)

/-! ### The symbol table -/

/-- Checks the index and the name of a symbol; the index is what stands before the first
space. -/
def checkIndexAndName (l : Line) (limit : Nat) (rest : List Char) : Except LoadError Unit := do
  let index := rest.takeWhile (· ≠ ' ')
  match Numeral.read numberLimit index with
  | .error cause => throw (.badSymbolIndex (String.ofList l) cause)
  | .ok n =>
    if limit ≤ n then
      throw (.symbolOutOfRange (String.ofList l) limit)
    if isAllBlank (rest.drop (index.length + 1)) then
      throw (.symbolWithoutName (String.ofList l))

/-- Checks a line of the symbol table. -/
def checkSymbol (h : Header) (l : Line) : Except LoadError Unit :=
  match l with
  | 'i' :: rest => checkIndexAndName l h.inputs rest
  | 'o' :: rest => checkIndexAndName l h.outputs rest
  | 'l' :: _ => .error (.latchSymbol (String.ofList l))
  | _ => .error (.unexpectedLine (String.ofList l))

/-- Checks the symbol table, which ends with the file or where comments begin. -/
def checkSymbols (h : Header) : List Line → Except LoadError Unit
  | [] => .ok ()
  | l :: ls =>
    if l.head? = some 'c' then .ok ()
    else if isAllBlank l then checkSymbols h ls
    else do
      checkSymbol h l
      checkSymbols h ls

/-- Reads a file from its lines. -/
def Document.ofLines : List Line → Except LoadError Document
  | [] => .error .emptyFile
  | first :: ls => do
    let h ← Header.ofWords first (words first)
    let (inputs, known, ls) ← readInputs h h.inputs ∅ ls
    let (outputs, ls) ← readOutputs h h.outputs ls
    let (definitions, ls) ← readDefinitions h h.definitions known ls
    checkSymbols h ls
    return ⟨h.maxVar, inputs, outputs, definitions⟩

/-- Reads a file from its text. -/
def Document.parse (text : String) : Except LoadError Document :=
  Document.ofLines (lines text.toList)

end AndInverter.Aiger
