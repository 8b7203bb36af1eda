import AndInverter.Random.Generator
import AndInverter.Simulate

/-!
Comparing two networks by simulation.  With few inputs all assignments are gone through, so
that the answer is a proof; with more, both networks are given the same random assignments.
-/

namespace AndInverter

/-- A word as sixteen hexadecimal digits. -/
def wordText (word : UInt64) : String :=
  let digits := (Nat.toDigits 16 word.toNat)
  String.ofList (List.replicate (16 - digits.length) '0' ++ digits)

/-- **Options of the comparison**: the rounds of 64 random assignments, and their seed. -/
structure EquivalenceOptions where
  rounds : Nat := 256
  seed : UInt64 := 0
deriving DecidableEq, Inhabited

/-- The assignments that were gone through. -/
inductive Sampling where
  | all
  | random
deriving DecidableEq

/-- What the words of a sampling are called. -/
def Sampling.unit : Sampling → String
  | .all => "exhaustive row block"
  | .random => "random round"

/-- **How two networks differ.** -/
inductive Difference where
  | inputs (lhs rhs : Nat)
  | outputs (lhs rhs : Nat)
  /-- An output has different values under the assignment in this lane of this word. -/
  | output (index : Nat) (sampling : Sampling) (word lane : Nat) (lhs rhs : UInt64)
deriving DecidableEq

/-- The wording of a difference. -/
def Difference.message : Difference → String
  | .inputs lhs rhs => s!"input count mismatch: {lhs} vs {rhs}"
  | .outputs lhs rhs => s!"output count mismatch: {lhs} vs {rhs}"
  | .output index sampling word lane lhs rhs =>
    s!"output {index} differs in {sampling.unit} {word} (lane {lane}): 0x{wordText lhs} vs " ++
      s!"0x{wordText rhs}"

/-- The position of the lowest bit that is set. -/
def lowestBit (word : UInt64) : Nat := ((List.range 64).find? word.toNat.testBit).getD 64

/-- The first word in which two lists of words differ. -/
def firstDifference (index : Nat) (sampling : Sampling) (lhs rhs : List UInt64) :
    Option Difference :=
  (lhs.zip rhs).zipIdx.findSome? fun ((l, r), word) =>
    if l = r then none
    else some (.output index sampling word (lowestBit (l ^^^ r)) l r)

/-- The first difference between the words of all outputs. -/
def compareWords (sampling : Sampling) (lhs rhs : List (List UInt64)) : Option Difference :=
  (lhs.zip rhs).zipIdx.findSome? fun ((l, r), index) => firstDifference index sampling l r

namespace Network

/-- The words of the outputs under random assignments, round by round. -/
def simulateRandom (n : Network) : (rounds : Nat) → Generator → Except Fault (List (List UInt64))
  | 0, _ => return []
  | rounds + 1, g => do
    let (inputs, g) := g.words n.inputs.size
    let words ← n.simulate inputs
    return words :: (← n.simulateRandom rounds g)

/-- The words of each output under random assignments. -/
def randomTables (n : Network) (o : EquivalenceOptions) : Except Fault (List (List UInt64)) := do
  let rounds ← n.simulateRandom o.rounds (.ofSeed o.seed)
  return (List.range n.outputs.size).map fun output => rounds.map (·.getD output 0)

/-- **Compares two networks**: a difference that was found, or none. -/
def difference? (lhs rhs : Network) (o : EquivalenceOptions) : Except Fault (Option Difference) := do
  if lhs.inputs.size ≠ rhs.inputs.size then
    return some (.inputs lhs.inputs.size rhs.inputs.size)
  if lhs.outputs.size ≠ rhs.outputs.size then
    return some (.outputs lhs.outputs.size rhs.outputs.size)
  if lhs.inputs.size ≤ tableInputLimit then
    return compareWords .all (← lhs.tables) (← rhs.tables)
  else
    return compareWords .random (← lhs.randomTables o) (← rhs.randomTables o)

end Network

end AndInverter
