import AndInverter.Decimal.Binary64
import AndInverter.Random.Generator

/-!
The chance that belongs to a probability given as a number.  Numbers outside of the unit
interval count as its nearer end.
-/

namespace AndInverter

/-- The chance of a probability: so many words out of `2 ^ 64`, rounded down. -/
def Chance.ofNumber : Binary64 → Chance
  | .nan => .wordsBelow 0
  | .infinite negative => if negative then .wordsBelow 0 else .certain
  | .finite negative m q =>
    let (num, den) := Binary64.scale m 1 (q + 64)
    let words := num / den
    if negative then .wordsBelow 0
    else if wordCount ≤ words then .certain
    else .wordsBelow words

end AndInverter
