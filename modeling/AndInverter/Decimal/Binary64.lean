/-!
Binary floating-point numbers of 64 bits, by their exact values.  A finite number is
`± m · 2 ^ q` with `m` below `2 ^ 53`; decimals are rounded to the nearest number, and a tie
goes to the even mantissa.
-/

namespace AndInverter

/-- **A binary64 number**, by its value. -/
inductive Binary64 where
  | nan
  | infinite (negative : Bool)
  /-- The number `± mantissa · 2 ^ exponent`. -/
  | finite (negative : Bool) (mantissa : Nat) (exponent : Int)
deriving DecidableEq, Inhabited

/-- The nearest integer to a quotient; a tie goes to the even one. -/
def roundQuotient (num den : Nat) : Nat :=
  let q := num / den
  let r := num % den
  if 2 * r < den ∨ (2 * r = den ∧ q % 2 = 0) then q else q + 1

namespace Binary64

/-- The number of mantissas. -/
def mantissaCount : Nat := 0x20000000000000

/-- The least exponent of a number. -/
def minExponent : Int := -1074

/-- The number zero with a sign. -/
def zero (negative : Bool) : Binary64 := .finite negative 0 minExponent

/-- Multiplies a quotient by a power of two. -/
def scale (num den : Nat) (exponent : Int) : Nat × Nat :=
  (num <<< exponent.toNat, den <<< (-exponent).toNat)

/-- The exponent of the largest power of two that does not exceed a positive quotient. -/
def floorLog2 (num den : Nat) : Int :=
  let guess : Int := num.log2 - den.log2
  let (n, d) := scale num den (-guess)
  if n < d then guess - 1 else guess

/-- The number nearest to a positive quotient. -/
def ofQuotient (negative : Bool) (num den : Nat) : Binary64 :=
  let exponent := max (floorLog2 num den - 52) minExponent
  let (n, d) := scale num den (-exponent)
  let mantissa := roundQuotient n d
  let (mantissa, exponent) :=
    if mantissa = mantissaCount then (mantissaCount / 2, exponent + 1) else (mantissa, exponent)
  if 971 < exponent then .infinite negative else .finite negative mantissa exponent

/-- A power of ten. -/
def tenToThe (exponent : Nat) : Nat := Nat.pow 10 exponent

/-- The number nearest to `± digits · 10 ^ exponent`.  Far outside of the range of numbers
the value is not computed. -/
def ofDecimal (negative : Bool) (digits : Nat) (exponent : Int) : Binary64 :=
  let magnitude := exponent + digits.log2 * 30103 / 100000
  if digits = 0 ∨ magnitude < -500 then zero negative
  else if 500 < magnitude then .infinite negative
  else ofQuotient negative (digits * tenToThe exponent.toNat) (tenToThe (-exponent).toNat)

/-- Does the number lie between zero and one? -/
def isProbability : Binary64 → Bool
  | .nan => false
  | .infinite _ => false
  | .finite negative m q =>
    m = 0 || (!negative && m <<< q.toNat ≤ 1 <<< (-q).toNat)

end Binary64

end AndInverter
