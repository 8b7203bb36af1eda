import AndInverter.Network.Topology

/-!
Networks and nodes as text.
-/

namespace AndInverter

/-- A signal as it appears in listings. -/
def Signal.listing (s : Signal) : String :=
  s!"Signal \x7b node: {nodeRefText s.node}, complemented: {s.complemented} \x7d"

/-- A node's kind as it appears in listings. -/
def NodeKind.listing : NodeKind → String
  | .constant => "Constant"
  | .input index => s!"Input \x7b index: {index} \x7d"
  | .gate a b => s!"And \x7b a: {a.listing}, b: {b.listing} \x7d"

/-- The line of a gate. -/
def Network.gateLine? (n : Network) (node : Nat) : Option String :=
  (n.fanIns? node).map fun (a, b) => s!"  {nodeText node} = and({a.text}, {b.text})\n"

/-- The inputs, the live gates, fan-ins first, and the outputs. -/
def Network.text (n : Network) : Except Fault String := do
  let order ← n.order
  let inputs := ", ".intercalate (n.inputs.toList.map nodeText)
  let gates := order.toList.filterMap n.gateLine?
  let outputs := n.outputs.toList.zipIdx.map fun (s, index) => s!"  o{index} = {s.text}\n"
  return s!"aig({inputs}) \x7b\n" ++ String.join gates ++ String.join outputs ++ "\x7d"

end AndInverter
