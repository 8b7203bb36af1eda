import AndInverter.Network.Construct
import AndInverter.Restructure.Workspace

/-!
The distributive laws, which take a common operand out of two gates that have no other use:

* `(s ∧ a) ∧ (s ∧ b) = s ∧ (a ∧ b)`;
* `¬(s ∧ a) ∧ ¬(s ∧ b) = ¬(s ∧ (a ∨ b))`.
-/

namespace AndInverter.Distributivity

/-- Two gates with the operand `shared` in common and the operands `a` and `b` besides, both
complemented or both not, and the level of their conjunction. -/
structure Opportunity where
  shared : Signal
  a : Signal
  b : Signal
  complemented : Bool
  level : Nat
deriving DecidableEq

/-- The signal that two pairs have in common, and the other two. -/
def common : Signal × Signal → Signal × Signal → Option (Signal × Signal × Signal)
  | (x₀, x₁), (y₀, y₁) =>
    if x₀ = y₀ then some (x₀, x₁, y₁)
    else if x₀ = y₁ then some (x₀, x₁, y₀)
    else if x₁ = y₀ then some (x₁, x₀, y₁)
    else if x₁ = y₁ then some (x₁, x₀, y₀)
    else none

/-- Looks for an opportunity at a gate. -/
def search (gate : Nat) (n : Network) (v : DepthView) : Except Fault (Search Opportunity) := do
  let some (x, y) ← n.liveFanIns? gate | return .absent none
  if n.fanout x.node ≠ 1 ∨ n.fanout y.node ≠ 1 then
    return .absent none
  let some xs ← n.liveFanIns? x.node | return .absent none
  let some ys ← n.liveFanIns? y.node | return .absent none
  if x.complemented ≠ y.complemented then
    return .absent (some (.mixedPolarity gate))
  let some (shared, a, b) := common xs ys | return .absent (some (.nothingShared gate))
  let level ← v.levelOf n gate
  return .present ⟨shared, a, b, x.complemented, level⟩

/-- Builds `s ∧ (a ∧ b)`, or `¬(s ∧ (a ∨ b))`. -/
def build (o : Opportunity) : Edit Signal := do
  if o.complemented then
    let either ← Edit.addNand (~~~o.a) (~~~o.b)
    return ~~~(← Edit.addAnd o.shared either)
  else
    let both ← Edit.addAnd o.a o.b
    Edit.addAnd o.shared both

/-- What is noted when the law was applied. -/
def entry (gate : Nat) (o : Opportunity) (replacement : Signal) : LogEntry :=
  .factored gate replacement o.shared o.level

end AndInverter.Distributivity
