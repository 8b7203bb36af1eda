import AndInverter.Network.Retire

/-!
Putting a signal in the place of a node, everywhere.

A consumer of the node gets the signal as fan-in instead.  Often it is then no gate of its
own any more: its new conjunction folds, or another gate computes it already.  Such a
consumer keeps its fan-ins for the moment and a `Request` to replace it in turn is queued.

* `Edit.replaceInGate` and `Edit.replaceInOutputs` are the two ways in which a use moves;
* `Renaming` remembers which node went where, so that a request whose target was replaced
  meanwhile is served with the final target;
* `Edit.substitute` serves requests, first come first served, until none is left.

The target of a queued request counts as used, so no clean-up can retire it.
-/

namespace AndInverter

/-- **A request**: all uses of `node` are to become uses of `target`. -/
structure Request where
  node : Nat
  target : Signal
deriving DecidableEq

/-- Where the uses of replaced nodes went. -/
abbrev Renaming := Std.ExtTreeMap Nat Signal

namespace Renaming

/-- Follows a renaming for a bounded number of times. -/
def follow (r : Renaming) : (bound : Nat) → Signal → Signal
  | 0, s => s
  | bound + 1, s =>
    match r[s.node]? with
    | none => s
    | some t => r.follow bound (t.complementIf s.complemented)

/-- Follows a renaming to its end: no node is passed twice. -/
def resolve (r : Renaming) (s : Signal) : Signal := r.follow r.size s

end Renaming

namespace Edit

/-! ### Moving uses -/

/-- Gives a gate, whose fan-ins were `a` and `b`, the fan-ins of `key` instead.  Its use of
`old` becomes a use of `new`. -/
def rewire (gate : Nat) (a b : Signal) (key : AndKey) (old new : Nat) : Edit Unit := do
  unhash gate ⟨a, b⟩
  modifySlot gate ({ · with kind := .gate key.lhs key.rhs })
  update fun n => { n with hash := n.hash.insert key gate }
  let _ ← lowerFanout old
  let _ ← raiseFanout new
  update (·.advance.notify (.modified gate (a, b)))

/-- Replaces one fan-in of a gate by `new` while it keeps the other one.  When the
conjunction of the two folds or has another gate already, the gate is left as it is and that
signal is the result. -/
def replaceFanIn (gate : Nat) (a b kept : Signal) (old : Nat) (new : Signal) :
    Edit (Option Signal) := do
  match conjunction kept new with
  | .folded s => return some s
  | .gate key =>
    match ← view (·.hash[key]?) with
    | some other =>
      if other = gate then
        rewire gate a b key old new.node
        return none
      else
        return some (.ofNode other)
    | none =>
      rewire gate a b key old new.node
      return none

/-- Replaces the fan-in of a gate that reads from `old`, if there is one, by `new`. -/
def replaceInGate (gate old : Nat) (new : Signal) : Edit (Option Signal) := do
  let s ← slot gate
  match s.fanIns? with
  | none => return none
  | some (a, b) =>
    if a.node = old then
      replaceFanIn gate a b b old (new.complementIf a.complemented)
    else if b.node = old then
      replaceFanIn gate a b a old (new.complementIf b.complemented)
    else
      return none

/-- Replaces the driver of one output. -/
def redirectOutput (old : Nat) (new : Signal) (index : Nat) (output : Signal) : Edit Unit := do
  update fun n =>
    { n with outputs := n.outputs.setIfInBounds index (new.complementIf output.complemented) }
  let _ ← lowerFanout old
  let _ ← raiseFanout new.node
  update (·.notify (.outputModified index output))

/-- The outputs driven by a node, with their positions. -/
def outputsOf (node : Nat) (n : Network) : List (Signal × Nat) :=
  n.outputs.toList.zipIdx.filter (·.1.node == node)

/-- Replaces the driver of all outputs driven by `old`; the result is their number. -/
def replaceInOutputs (old : Nat) (new : Signal) : Edit Nat := do
  let driven ← view (outputsOf old)
  driven.forM fun (output, index) => redirectOutput old new index output
  if driven ≠ [] then
    update (·.advance)
  return driven.length

/-! ### Serving requests -/

/-- Moves the uses of `old` in the listed gates.  The requests for those that could not take
the new fan-in are the result; their targets count as used from now on. -/
def replaceInGates (old : Nat) (new : Signal) : List Nat → Edit (List Request)
  | [] => return []
  | gate :: rest => do
    match ← replaceInGate gate old new with
    | none => replaceInGates old new rest
    | some target =>
      let _ ← raiseFanout target.node
      return ⟨gate, target⟩ :: (← replaceInGates old new rest)

/-- Moves all uses of `old` and retires it if it is free of uses then. -/
def replaceUses (old : Nat) (new : Signal) : Edit (List Request) := do
  if (← slot new.node).dead then
    throw (.deadReplacement new old)
  let followUps ← replaceInGates old new (← view (·.consumers old))
  let _ ← replaceInOutputs old new
  if (← slot old).fanout = 0 then
    retire old
  return followUps

/-- Serves a request: a node that is dead or has become its own target needs nothing. -/
def serve (moved : Renaming) (r : Request) : Edit (List Request × Renaming) := do
  let target := moved.resolve r.target
  if (← slot r.node).dead || target.node == r.node then
    release r.target.node
    return ([], moved)
  else
    let followUps ← replaceUses r.node target
    release r.target.node
    return (followUps, moved.insert r.node target)

/-- Serves requests while the network stays as it is, and goes on with `resume` as soon as it
changed.  The result is the number of requests served. -/
def serveQuietly (resume : Nat → List Request → Renaming → Edit Nat) :
    (bound served : Nat) → List Request → Renaming → Edit Nat
  | _, served, [], _ => return served
  | 0, _, _ :: _, _ => throw .unfinished
  | bound + 1, served, r :: queue, moved => do
    let generation ← view (·.generation)
    let (followUps, moved) ← serve moved r
    if (← view (·.generation)) = generation then
      serveQuietly resume bound (served + 1) (queue ++ followUps) moved
    else
      resume (served + 1) (queue ++ followUps) moved

/-- Serves requests until none is left.  As long as the network does not change, requests
only climb from gates to their consumers.  An acyclic network of `n` nodes has fewer than `2 ^ n`
ways up from a node, so the bound is out of reach.  In a network that became cyclic requests may
climb round and round, and `.unfinished` may come before they would have stopped. -/
def serveAll : (changes served : Nat) → List Request → Renaming → Edit Nat
  | 0, served, queue, _ => if queue = [] then return served else throw .unfinished
  | changes + 1, served, queue, moved => do
    let size ← view (·.size)
    serveQuietly (serveAll changes) ((queue.length + 1) <<< (size + 1)) served queue moved

/-- **Substitution**: every use of `old` becomes a use of `new`, and `old` is retired with
whatever that leaves without uses.  The result is the number of requests it took.  A use
never returns to a node it was taken from, which bounds the number of changes. -/
def substitute (old : Nat) (new : Signal) : Edit Nat := do
  query (·.requireLive .substitute old)
  query (·.requireLive .substitute new.node)
  let _ ← raiseFanout new.node
  let changes ← view fun n => (n.size + 1) * (n.size + n.outputs.size + 2)
  serveAll changes 0 [⟨old, new⟩] ∅

end Edit

end AndInverter
