/-!
A generator of pseudo-random words, xoshiro256++, seeded through splitmix64, and the draws
made with it.  All arithmetic is modulo `2 ^ 64`.

* `Generator.next` draws a word;
* `Generator.below` draws a number below a bound, all of them equally likely;
* `Generator.chance` draws a truth value.
-/

namespace AndInverter

/-- The number of words. -/
def wordCount : Nat := 0x10000000000000000

/-- Rotates a word to the left. -/
def rotateLeft (word amount : UInt64) : UInt64 :=
  (word <<< amount) ||| (word >>> (64 - amount))

/-- The state of a generator. -/
structure Generator where
  s₀ : UInt64
  s₁ : UInt64
  s₂ : UInt64
  s₃ : UInt64
deriving DecidableEq, Inhabited

namespace Generator

/-- The distance between the states of the seeding generator. -/
def seedStep : UInt64 := 0x9e3779b97f4a7c15

/-- Scrambles a state of the seeding generator. -/
def scramble (state : UInt64) : UInt64 :=
  let z := (state ^^^ (state >>> 30)) * 0xbf58476d1ce4e5b9
  let z := (z ^^^ (z >>> 27)) * 0x94d049bb133111eb
  z ^^^ (z >>> 31)

/-- The generator that belongs to a seed. -/
def ofSeed (seed : UInt64) : Generator where
  s₀ := scramble (seed + seedStep)
  s₁ := scramble (seed + 2 * seedStep)
  s₂ := scramble (seed + 3 * seedStep)
  s₃ := scramble (seed + 4 * seedStep)

/-- Draws a word. -/
def next (g : Generator) : UInt64 × Generator :=
  let word := rotateLeft (g.s₀ + g.s₃) 23 + g.s₀
  let s₂ := g.s₂ ^^^ g.s₀
  let s₃ := g.s₃ ^^^ g.s₁
  (word, ⟨g.s₀ ^^^ s₃, g.s₁ ^^^ s₂, s₂ ^^^ (g.s₁ <<< 17), rotateLeft s₃ 45⟩)

/-- Draws some words. -/
def words : (count : Nat) → Generator → List UInt64 × Generator
  | 0, g => ([], g)
  | count + 1, g =>
    let (word, g) := g.next
    let (rest, g) := words count g
    (word :: rest, g)

/-- Draws words until the low half of the product with `range` lies in the zone; the high
half is the result. -/
def belowWithin (range zone : Nat) : (bound : Nat) → Generator → Nat × Generator
  | 0, g => (0, g)
  | bound + 1, g =>
    let (word, g) := g.next
    let product := word.toNat * range
    if product % wordCount ≤ zone then (product / wordCount, g) else belowWithin range zone bound g

/-- Draws a number below `range`.  The zone is the largest power of two times `range` that
fits into a word, less one; at least every other word falls into it.  The states of the
generator repeat after fewer than `2 ^ 256` draws. -/
def below (range : Nat) (g : Generator) : Nat × Generator :=
  belowWithin range (range <<< (63 - range.log2) - 1) (1 <<< 256) g

end Generator

/-- The probability of a draw: certainty, or a number of words out of `2 ^ 64`. -/
inductive Chance where
  | certain
  | wordsBelow (limit : Nat)
deriving DecidableEq, Inhabited

/-- An even chance. -/
def Chance.even : Chance := .wordsBelow (wordCount / 2)

/-- Draws a truth value; certainty takes no draw. -/
def Generator.chance (c : Chance) (g : Generator) : Bool × Generator :=
  match c with
  | .certain => (true, g)
  | .wordsBelow limit =>
    let (word, g) := g.next
    (word.toNat < limit, g)

end AndInverter
