import AndInverter.Network.Basic

/-!
Use counts.  Each node stores how often live gates and outputs refer to it; here the uses are
counted afresh and compared with what is stored.
-/

namespace AndInverter

/-- A node whose stored use count is not the number of its uses. -/
inductive FanoutMismatch where
  /-- A dead node that is still in use. -/
  | deadInUse (node uses : Nat)
  /-- A live node that stores a wrong count. -/
  | wrongCount (node stored uses : Nat)
deriving DecidableEq

def FanoutMismatch.text : FanoutMismatch → String
  | .deadInUse node uses => s!"{nodeText node} is dead but still referenced {uses} times"
  | .wrongCount node stored uses =>
    s!"{nodeText node} stores fanout {stored} but is referenced {uses} times"

/-- The wording of all mismatches together. -/
def FanoutMismatch.summary (mismatches : List FanoutMismatch) : String :=
  "fanout accounting mismatch: " ++ "; ".intercalate (mismatches.map (·.text))

namespace Network

/-- The nodes that live gates and outputs refer to, once for each reference. -/
def references (n : Network) : List Nat :=
  n.gates.flatMap (fun gate =>
    match n.fanIns? gate with
    | some (a, b) => [a.node, b.node]
    | none => [])
  ++ n.outputs.toList.map (·.node)

/-- For every node the number of references to it. -/
def fanoutCounts (n : Network) : Array Nat :=
  n.references.foldl (fun counts node => counts.modify node (· + 1)) (Array.replicate n.size 0)

/-- What is wrong with the stored count of a node that has this many uses. -/
def fanoutMismatch? (n : Network) (node uses : Nat) : Option FanoutMismatch :=
  if n.isDead node then
    if uses = 0 then none else some (.deadInUse node uses)
  else if n.fanout node = uses then
    none
  else
    some (.wrongCount node (n.fanout node) uses)

/-- All nodes whose stored use count is wrong. -/
def fanoutMismatches (n : Network) : List FanoutMismatch :=
  n.fanoutCounts.toList.zipIdx.filterMap fun (uses, node) => n.fanoutMismatch? node uses

/-- Adds one to the count of a key in a list of counts that is sorted by keys. -/
def countUp (key : Nat) : List (Nat × Nat) → List (Nat × Nat)
  | [] => [(key, 1)]
  | (k, count) :: rest =>
    if key < k then (key, 1) :: (k, count) :: rest
    else if key = k then (k, count + 1) :: rest
    else (k, count) :: countUp key rest

/-- For every use count the number of inputs and live gates that have it, by count. -/
def fanoutHistogram (n : Network) : List (Nat × Nat) :=
  (n.inputs.toList ++ n.gates).foldl (fun counts node => countUp (n.fanout node) counts) []

end Network

end AndInverter
