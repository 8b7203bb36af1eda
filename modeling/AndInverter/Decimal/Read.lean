import AndInverter.Decimal.Binary64

/-!
Reading binary64 numbers: a sign or none, then digits with a point among them or not and an
exponent or none, or the name of infinity or of no number in letters of either case.
-/

namespace AndInverter.Binary64

/-- The digits at the head of a text and the rest. -/
def splitDigits (s : List Char) : List Char × List Char :=
  (s.takeWhile Char.isDigit, s.dropWhile Char.isDigit)

/-- The number written by some digits. -/
def digitsValue (ds : List Char) : Nat :=
  ds.foldl (fun n c => 10 * n + (c.toNat - '0'.toNat)) 0

/-- The exponent at the end of a number. -/
def readExponent : List Char → Option Int
  | [] => some 0
  | e :: rest =>
    if e = 'e' ∨ e = 'E' then
      let (negative, ds) := match rest with
        | '-' :: ds => (true, ds)
        | '+' :: ds => (false, ds)
        | ds => (false, ds)
      if ds ≠ [] ∧ ds.all Char.isDigit then
        some (if negative then -(digitsValue ds : Int) else digitsValue ds)
      else none
    else none

/-- A number without sign, made of digits. -/
def readUnsigned (negative : Bool) (s : List Char) : Option Binary64 :=
  let (whole, rest) := splitDigits s
  let (fraction, rest) := match rest with
    | '.' :: rest => splitDigits rest
    | rest => ([], rest)
  if whole = [] ∧ fraction = [] then none
  else (readExponent rest).map fun exponent =>
    ofDecimal negative (digitsValue (whole ++ fraction)) (exponent - fraction.length)

/-- A number without sign. -/
def readMagnitude (negative : Bool) (s : List Char) : Option Binary64 :=
  let word := String.ofList (s.map Char.toLower)
  if word = "inf" ∨ word = "infinity" then some (.infinite negative)
  else if word = "nan" then some .nan
  else readUnsigned negative s

/-- Reads a number. -/
def read? : List Char → Option Binary64
  | '-' :: s => readMagnitude true s
  | '+' :: s => readMagnitude false s
  | s => readMagnitude false s

end AndInverter.Binary64
