/-!
The content of a circuit file in the ASCII AIGER format, without latches.

A file numbers its variables from 0, which is the constant false, to a greatest one.  A
literal is twice a variable, plus one where the variable is complemented.  Some variables are
inputs, others are defined as the conjunction of two literals, and the outputs are literals.
-/

namespace AndInverter.Aiger

/-- A variable as the conjunction of two literals. -/
structure Definition where
  var : Nat
  rhs₀ : Nat
  rhs₁ : Nat
deriving DecidableEq, Inhabited

/-- **A circuit file**: its greatest variable, the variables of its inputs, the literals of
its outputs and its definitions, each in the order of the file. -/
structure Document where
  maxVar : Nat
  inputs : List Nat
  outputs : List Nat
  definitions : List Definition
deriving DecidableEq, Inhabited

/-- The largest number in a file. -/
def numberLimit : Nat := 0xFFFFFFFF

end AndInverter.Aiger
