import AndInverter.Fault
import AndInverter.Text.Numeral

/-!
Why a circuit file is refused, and why a network cannot be written as one.
-/

namespace AndInverter.Aiger

/-- The places of a file where a number stands. -/
inductive Field where
  | maxVar
  | inputCount
  | latchCount
  | outputCount
  | definitionCount
  | input
  | output
  | lhs
  | rhs
deriving DecidableEq

def Field.name : Field → String
  | .maxVar => "M"
  | .inputCount => "I"
  | .latchCount => "L"
  | .outputCount => "O"
  | .definitionCount => "A"
  | .input => "input literal"
  | .output => "output literal"
  | .lhs => "AND lhs"
  | .rhs => "AND rhs"

/-- The sections of a file that have a known number of lines. -/
inductive Section where
  | inputs
  | outputs
  | definitions
deriving DecidableEq

def Section.name : Section → String
  | .inputs => "input"
  | .outputs => "output"
  | .definitions => "AND"

/-- **Why a file is refused.** -/
inductive LoadError where
  | emptyFile
  | headerLength (count : Nat) (line : String)
  | unknownFormat (tag : String)
  | badNumber (field : Field) (text : String) (cause : Text.NumeralError)
  | latches
  | tooManyVariables (sum maxVar : Nat)
  | linesMissing (which : Section) (expected : Nat)
  | complementedInput (literal : Nat)
  | constantInput
  | inputOutOfRange (var maxVar : Nat)
  | repeatedInput (var : Nat)
  | definitionLength (line : String)
  | complementedDefinition (literal : Nat)
  | definitionOutOfRange (var maxVar : Nat)
  | alreadyDefined (var : Nat)
  | latchSymbol (line : String)
  | unexpectedLine (line : String)
  | badSymbolIndex (line : String) (cause : Text.NumeralError)
  | symbolOutOfRange (line : String) (limit : Nat)
  | symbolWithoutName (line : String)
  | undefinedOrCyclic (var rhs₀ rhs₁ : Nat)
  | undefinedOutput (literal : Nat)
  /-- The network that is being built is at fault, not the file. -/
  | internal (fault : Fault)
deriving DecidableEq

/-- The wording of a refusal. -/
def LoadError.message : LoadError → String
  | .emptyFile => "empty AIGER input"
  | .headerLength count line => s!"expected 6 tokens in AIGER header, got {count} (\"{line}\")"
  | .unknownFormat tag => s!"only ASCII-AIGER (aag) is supported; got '{tag}'"
  | .badNumber field text cause => s!"invalid {field.name} value '{text}': {cause.message}"
  | .latches => "latch count (L) must be zero; sequential AIGER is not supported"
  | .tooManyVariables sum maxVar => s!"header declares I + A = {sum} > M = {maxVar}"
  | .linesMissing which expected => s!"expected {expected} {which.name} lines but found fewer"
  | .complementedInput literal =>
    s!"input literal must be positive, got negated literal {literal}"
  | .constantInput => "input literal refers to constant false (0)"
  | .inputOutOfRange var maxVar => s!"input variable {var} exceeds M = {maxVar}"
  | .repeatedInput var => s!"duplicate input variable index {var}"
  | .definitionLength line => s!"AND line should have 3 fields, got '{line}'"
  | .complementedDefinition literal => s!"AND lhs literal {literal} must be positive (even)"
  | .definitionOutOfRange var maxVar => s!"AND lhs variable {var} out of range 1..={maxVar}"
  | .alreadyDefined var => s!"variable {var} already defined"
  | .latchSymbol line => s!"latch symbol '{line}' in combinational file"
  | .unexpectedLine line => s!"unexpected line after definitions: '{line}'"
  | .badSymbolIndex line cause => s!"invalid symbol index in '{line}': {cause.message}"
  | .symbolOutOfRange line limit => s!"symbol '{line}' index out of range (limit {limit})"
  | .symbolWithoutName line => s!"malformed symbol '{line}': missing name"
  | .undefinedOrCyclic var rhs₀ rhs₁ =>
    s!"AND definition of variable {var} references an undefined variable or sits on a cycle " ++
      s!"({rhs₀} {rhs₁})"
  | .undefinedOutput literal =>
    s!"output references undefined variable {literal / 2} (literal {literal})"
  | .internal fault => fault.message.getD ""

/-- **Why a network cannot be written.** -/
inductive WriteError where
  | cyclic (unvisited : List Nat)
  | notLive (signal : Signal)
deriving DecidableEq

/-- The wording of a failure to write. -/
def WriteError.message : WriteError → String
  | .cyclic unvisited =>
    s!"cannot emit cyclic network; nodes on or behind a cycle: {nodeListText unvisited}"
  | .notLive signal => s!"signal {signal.text} refers to a node that is not live"

end AndInverter.Aiger
