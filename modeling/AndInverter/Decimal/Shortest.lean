import AndInverter.Decimal.Binary64

/-!
Binary64 numbers in decimal.  A number is written with as few digits as read back to it; these
are the nearest such digits, and of two equally near numbers the larger.  There is no exponent,
whatever the size.
-/

namespace AndInverter.Binary64

/-- A number `coefficient · 10 ^ exponent`. -/
structure Decimal where
  coefficient : Nat
  exponent : Int
deriving DecidableEq, Inhabited

/-- The two natural numbers, over a common denominator, with the values `a · 2 ^ u` and
`c · 10 ^ p`. -/
def align (a : Nat) (u : Int) (c : Nat) (p : Int) : Nat × Nat :=
  ((a * tenToThe (-p).toNat) <<< u.toNat, (c * tenToThe p.toNat) <<< (-u).toNat)

/-- Does a decimal read back to `m · 2 ^ q`?  The numbers that do lie half-way to the
neighbours at most, the ends included when `m` is even. -/
def readsBack (m : Nat) (q : Int) (d : Decimal) : Bool :=
  let below := if m = mantissaCount / 2 ∧ minExponent < q then 4 * m - 1 else 4 * m - 2
  let (lo, x) := align below (q - 2) d.coefficient d.exponent
  let (hi, y) := align (4 * m + 2) (q - 2) d.coefficient d.exponent
  if m % 2 = 0 then lo ≤ x && y ≤ hi else lo < x && y < hi

/-- The distance of a decimal from `m · 2 ^ q`, up to a factor that depends on `m`, `q` and
the exponent only. -/
def distance (m : Nat) (q : Int) (d : Decimal) : Nat :=
  let (x, y) := align m q d.coefficient d.exponent
  (x - y) + (y - x)

/-- Is `m · 2 ^ q` at least `10 ^ e`? -/
def atLeastPower (m : Nat) (q e : Int) : Bool :=
  let (x, y) := align m q 1 e
  y ≤ x

/-- The exponent of the largest power of ten that does not exceed `m · 2 ^ q`. -/
def floorLog10 (m : Nat) (q : Int) : Int :=
  let guess := (m.log2 + q) * 30103 / 100000
  if atLeastPower m q (guess + 1) then guess + 1
  else if atLeastPower m q guess then guess
  else guess - 1

/-- The decimal nearest to `m · 2 ^ q` with this many digits, if one of that length reads
back.  Only the two neighbours of the value can. -/
def withDigits? (m : Nat) (q : Int) (digits : Nat) : Option Decimal :=
  let exponent := floorLog10 m q - (digits - 1 : Int)
  let (x, y) := align m q 1 exponent
  let down : Decimal := ⟨x / y, exponent⟩
  let up : Decimal := ⟨x / y + 1, exponent⟩
  match readsBack m q down, readsBack m q up with
  | true, true => some (if distance m q up ≤ distance m q down then up else down)
  | true, false => some down
  | false, true => some up
  | false, false => none

/-- The shortest decimal that reads back; seventeen digits always do. -/
def shortest (m : Nat) (q : Int) : Decimal :=
  ((List.range' 1 17).findSome? (withDigits? m q)).getD ⟨m, 0⟩

/-- Drops the zeros at the end of a coefficient. -/
def stripZeros : (bound : Nat) → Decimal → Decimal
  | 0, d => d
  | bound + 1, d =>
    if d.coefficient % 10 = 0 then stripZeros bound ⟨d.coefficient / 10, d.exponent + 1⟩ else d

/-- A decimal without exponent. -/
def Decimal.text (d : Decimal) : String :=
  let d := stripZeros 17 d
  let digits := (toString d.coefficient).toList
  let fraction := (-d.exponent).toNat
  if fraction = 0 then
    String.ofList (digits ++ List.replicate d.exponent.toNat '0')
  else
    let digits := List.replicate (fraction + 1 - digits.length) '0' ++ digits
    let whole := digits.length - fraction
    String.ofList (digits.take whole ++ '.' :: digits.drop whole)

/-- The written form of a number. -/
def text : Binary64 → String
  | .nan => "NaN"
  | .infinite negative => if negative then "-inf" else "inf"
  | .finite negative m q =>
    (if negative then "-" else "") ++ (if m = 0 then "0" else (shortest m q).text)

end AndInverter.Binary64
