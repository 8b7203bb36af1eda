/-!
Reading natural numbers.  A numeral is a row of ASCII digits, with a plus sign in front of it
or not, and its value may not exceed a given limit.
-/

namespace AndInverter.Text

/-- Why a text is not a numeral. -/
inductive NumeralError where
  | empty
  | invalidDigit
  | tooLarge
deriving DecidableEq

def NumeralError.message : NumeralError → String
  | .empty => "cannot parse integer from empty string"
  | .invalidDigit => "invalid digit found in string"
  | .tooLarge => "number too large to fit in target type"

namespace Numeral

/-- The value of a digit. -/
def digit? (c : Char) : Option Nat :=
  if '0' ≤ c ∧ c ≤ '9' then some (c.toNat - '0'.toNat) else none

/-- Reads digits behind a number that is read already; the first bad digit or the first
excess over the limit decides. -/
def readDigits (limit : Nat) : Nat → List Char → Except NumeralError Nat
  | n, [] => .ok n
  | n, c :: rest =>
    match digit? c with
    | none => .error .invalidDigit
    | some d => if limit < 10 * n + d then .error .tooLarge else readDigits limit (10 * n + d) rest

/-- Reads a numeral whose value is at most `limit`. -/
def read (limit : Nat) : List Char → Except NumeralError Nat
  | [] => .error .empty
  | ['+'] => .error .invalidDigit
  | '+' :: digits => readDigits limit 0 digits
  | digits => readDigits limit 0 digits

end Numeral

end AndInverter.Text
