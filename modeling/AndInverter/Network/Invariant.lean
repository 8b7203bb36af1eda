import AndInverter.Network.Basic

/-!
The check that a network is consistent: fan-ins of live gates and drivers of outputs are live,
fan-ins are in canonical order, and the structural hash and the gate counter describe exactly
the live gates.  The first violation is reported.
-/

namespace AndInverter.Network

/-- A fan-in of a live gate is a live node. -/
def checkFanIn (n : Network) (gate : Nat) (s : Signal) : Except Fault Unit :=
  match n.slot? s.node with
  | none => .error (.fanInOutOfBounds gate s n.size)
  | some slot => if slot.dead then .error (.deadFanIn gate s) else .ok ()

/-- A live gate has live fan-ins in canonical order, and its key leads to it. -/
def checkGate (n : Network) (gate : Nat) : Except Fault Unit :=
  match n.fanIns? gate with
  | none => .ok ()
  | some (a, b) => do
    n.checkFanIn gate a
    n.checkFanIn gate b
    if ¬ a < b then
      throw (.fanInsUnordered gate)
    if n.hash[(⟨a, b⟩ : AndKey)]? ≠ some gate then
      throw (.notHashed gate)

/-- An output is driven by a live node. -/
def checkOutput (n : Network) (index : Nat) (s : Signal) : Except Fault Unit :=
  if n.isLive s.node then .ok () else .error (.invalidOutput index s)

/-- The network is consistent. -/
def checkInvariants (n : Network) : Except Fault Unit := do
  n.gates.forM n.checkGate
  if n.gates.length ≠ n.liveGates then
    throw .gateCount
  if n.hash.size ≠ n.gates.length then
    throw .foreignHashEntry
  n.outputs.toList.zipIdx.forM fun (s, index) => n.checkOutput index s

end AndInverter.Network
