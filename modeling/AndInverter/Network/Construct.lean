import AndInverter.Network.Edit

/-!
Building a network.  Inputs and outputs are appended; a gate is made only if its conjunction
neither folds nor has a gate already, so asking twice for the same gate gives the same signal.
All other connectives are made of conjunctions and complements.
-/

namespace AndInverter.Edit

/-- Appends an input. -/
def addInput : Edit Signal := do
  let node ← view (·.size)
  let index ← view (·.inputs.size)
  update (·.pushNode (.input index))
  update fun n => { n with inputs := n.inputs.push node }.advance.notify (.added node)
  return .ofNode node

/-- Appends an output driven by a live signal; the result is its position. -/
def addOutput (s : Signal) : Edit Nat := do
  query (·.requireLive .addOutput s.node)
  let _ ← raiseFanout s.node
  let index ← view (·.outputs.size)
  update fun n =>
    { n with outputs := n.outputs.push s }.advance.notify (.outputAdded index)
  return index

/-- Appends a gate and enters it into the structural hash. -/
def allocate (key : AndKey) : Edit Signal := do
  let node ← view (·.size)
  update (·.pushNode (.gate key.lhs key.rhs))
  let _ ← raiseFanout key.lhs.node
  let _ ← raiseFanout key.rhs.node
  update fun n =>
    { n with hash := n.hash.insert key node, liveGates := n.liveGates + 1 }.advance.notify
      (.added node)
  return .ofNode node

/-- The conjunction of two live signals. -/
def addAnd (f g : Signal) : Edit Signal := do
  query (·.requireLive .addAnd f.node)
  query (·.requireLive .addAnd g.node)
  match conjunction f g with
  | .folded s => return s
  | .gate key =>
    match ← view (·.hash[key]?) with
    | some node => return .ofNode node
    | none => allocate key

def addNand (f g : Signal) : Edit Signal := return ~~~(← addAnd f g)

def addOr (f g : Signal) : Edit Signal := return ~~~(← addAnd (~~~f) (~~~g))

def addNor (f g : Signal) : Edit Signal := addAnd (~~~f) (~~~g)

def addXor (f g : Signal) : Edit Signal := do
  let fNotG ← addAnd f (~~~g)
  let gNotF ← addAnd (~~~f) g
  addOr fNotG gNotF

def addXnor (f g : Signal) : Edit Signal := return ~~~(← addXor f g)

/-- The conjunction of a list of signals, from left to right; of no signals, it is true. -/
def addChain : List Signal → Edit Signal
  | [] => return .one
  | s :: rest => rest.foldlM addAnd s

end AndInverter.Edit
