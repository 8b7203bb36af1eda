import AndInverter.Depth

/-!
Simulation.  A word carries one bit for each of 64 assignments of the inputs, so a gate is
evaluated under 64 assignments by one operation.

* `Network.simulate` computes the words of the outputs from the words of the inputs;
* `Network.evaluate` does so for a single assignment;
* `Network.tables` goes through all assignments: bit `i` of a row number is the value of
  input `i` in that row.
-/

namespace AndInverter

/-- The largest number of inputs for which all assignments are gone through. -/
def tableInputLimit : Nat := 16

/-- The word of a signal, given the words of the nodes. -/
def Signal.wordIn (s : Signal) (words : Array UInt64) : UInt64 :=
  let word := words.getD s.node 0
  if s.complemented then ~~~word else word

namespace Network

/-- The words of the nodes before any gate is evaluated. -/
def inputWords (n : Network) (inputs : List UInt64) : Array UInt64 :=
  (n.inputs.toList.zip inputs).foldl (fun words (node, word) => words.setIfInBounds node word)
    (Array.replicate n.size 0)

/-- Evaluates a gate. -/
def evaluateGate (n : Network) (words : Array UInt64) (node : Nat) : Array UInt64 :=
  match n.fanIns? node with
  | some (a, b) => words.setIfInBounds node (a.wordIn words &&& b.wordIn words)
  | none => words

/-- The words of the outputs, given the nodes they depend on, fan-ins first. -/
def simulateAlong (n : Network) (cone : Array Nat) (inputs : List UInt64) : List UInt64 :=
  let words := cone.foldl n.evaluateGate (n.inputWords inputs)
  n.outputs.toList.map (·.wordIn words)

/-- The words of the outputs, given one word for each input. -/
def simulate (n : Network) (inputs : List UInt64) : Except Fault (List UInt64) := do
  if inputs.length ≠ n.inputs.size then
    throw .inputWords
  let cone ← n.coneOrder
  return n.simulateAlong cone inputs

/-- The values of the outputs under one assignment of the inputs. -/
def evaluate (n : Network) (inputs : List Bool) : Except Fault (List Bool) := do
  let words ← n.simulate (inputs.map fun b => if b then 1 else 0)
  return words.map fun word => word &&& 1 == 1

end Network

/-! ### Truth tables -/

/-- The word of each of the first six inputs: bit `j` is bit `i` of `j`. -/
def laneWords : List UInt64 :=
  [0xAAAAAAAAAAAAAAAA, 0xCCCCCCCCCCCCCCCC, 0xF0F0F0F0F0F0F0F0, 0xFF00FF00FF00FF00,
    0xFFFF0000FFFF0000, 0xFFFFFFFF00000000]

/-- The word of an input in a block of 64 rows. -/
def rowWord (block input : Nat) : UInt64 :=
  match laneWords[input]? with
  | some word => word
  | none => if block.testBit (input - laneWords.length) then ~~~0 else 0

/-- The bits of a block that belong to one of this many rows. -/
def rowMask (rows block : Nat) : UInt64 :=
  if 64 ≤ rows - 64 * block then ~~~0 else UInt64.ofNat (1 <<< (rows - 64 * block) - 1)

/-- The number of rows of a table. -/
def Network.rowCount (n : Network) : Nat := 1 <<< n.inputs.size

/-- The words of the outputs in a block of rows. -/
def Network.tableBlock (n : Network) (cone : Array Nat) (block : Nat) : List UInt64 :=
  let inputs := (List.range n.inputs.size).map (rowWord block)
  (n.simulateAlong cone inputs).map (· &&& rowMask n.rowCount block)

/-- For every output its value in every row, 64 rows a word. -/
def Network.tables (n : Network) : Except Fault (List (List UInt64)) := do
  if tableInputLimit < n.inputs.size then
    throw (.tableTooLarge n.inputs.size tableInputLimit)
  let cone ← n.coneOrder
  let blocks := (List.range ((n.rowCount + 63) / 64)).map (n.tableBlock cone)
  return (List.range n.outputs.size).map fun output => blocks.map (·.getD output 0)

end AndInverter
