import AndInverter.Network.Edit

/-!
Retiring gates.  A gate that nobody uses is marked dead and leaves the structural hash; its
fan-ins lose a use each, and those left without any are retired too.  The constant and the
inputs stay for good.
-/

namespace AndInverter.Edit

/-- Drops the entry of the structural hash that leads to this gate, if its key has one. -/
def unhash (gate : Nat) (key : AndKey) : Edit Unit := do
  if (← view (·.hash[key]?)) = some gate then
    update fun n => { n with hash := n.hash.erase key }

/-- Takes a use away from a fan-in of a retired gate; lists it if it is to be retired too. -/
def releaseFanIn (s : Signal) : Edit (List Nat) := do
  let left ← lowerFanout s.node
  if left = 0 && (← view (·.isGate s.node)) then return [s.node] else return []

/-- Marks a gate dead; lists the fan-ins that are to be retired next. -/
def retireOne (gate : Nat) (a b : Signal) : Edit (List Nat) := do
  modifySlot gate ({ · with dead := true })
  unhash gate ⟨a, b⟩
  update fun n => { n with liveGates := n.liveGates - 1 }.advance.notify (.deleted gate)
  let fromA ← releaseFanIn a
  let fromB ← releaseFanIn b
  return fromB ++ fromA

/-- Retires the gates of a worklist, the last found first. -/
def retireAll : (bound : Nat) → List Nat → Edit Unit
  | _, [] => return ()
  | 0, _ :: _ => throw .unfinished
  | bound + 1, gate :: rest => do
    let s ← slot gate
    match s.dead, s.fanIns? with
    | false, some (a, b) =>
      let found ← retireOne gate a b
      retireAll bound (found ++ rest)
    | _, _ => retireAll bound rest

/-- Retires a gate and every fan-in that is left without a use.  A gate is retired once and
then lists at most two others. -/
def retire (gate : Nat) : Edit Unit := do
  let s ← slot gate
  if s.isLiveGate then
    retireAll (2 * (← view (·.size)) + 1) [gate]

/-- Takes a use away from a node and retires it if that was the last. -/
def release (node : Nat) : Edit Unit := do
  if (← lowerFanout node) = 0 then
    retire node

end AndInverter.Edit
