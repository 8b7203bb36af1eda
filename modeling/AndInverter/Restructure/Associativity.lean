import AndInverter.Network.Construct
import AndInverter.Restructure.Workspace

/-!
The associative law, `p ∧ (a ∧ b) = (p ∧ b) ∧ a`, applied where `a` is late and `p` is early:
`a` then has one gate less on its way to the outputs.
-/

namespace AndInverter.Associativity

/-- A gate `p ∧ (a ∧ b)` where `a` alone is critical, its level and the level it would get. -/
structure Opportunity where
  p : Signal
  a : Signal
  b : Signal
  level : Nat
  predicted : Nat
deriving DecidableEq

/-- Tells the operands of a gate apart into a shallow one and one that is more than a level
deeper and not complemented, so that it can be opened. -/
def skewed (f₀ f₁ : Signal) (level₀ level₁ : Nat) : Option (Signal × Signal) :=
  if level₁ + 1 < level₀ ∧ f₀.complemented = false then some (f₁, f₀)
  else if level₀ + 1 < level₁ ∧ f₁.complemented = false then some (f₀, f₁)
  else none

/-- Tells two signals apart if exactly one of them is critical, which comes first. -/
def singleCritical (g₀ g₁ : Signal) : (critical₀ critical₁ : Bool) → Option (Signal × Signal)
  | true, false => some (g₀, g₁)
  | false, true => some (g₁, g₀)
  | _, _ => none

/-- Looks for an opportunity at a gate. -/
def search (gate : Nat) (n : Network) (v : DepthView) : Except Fault (Search Opportunity) := do
  let some (f₀, f₁) ← n.liveFanIns? gate | return .absent none
  if !(← v.criticalAt n gate) then
    return .absent none
  if n.isInput f₀.node && n.isInput f₁.node then
    return .absent none
  let level₀ ← v.levelOf n f₀.node
  let level₁ ← v.levelOf n f₁.node
  let some (p, q) := skewed f₀ f₁ level₀ level₁
    | return .absent (some (.notSkewed gate level₀ level₁))
  let some (g₀, g₁) ← n.liveFanIns? q.node | return .absent none
  let critical₀ ← v.criticalAt n g₀.node
  let critical₁ ← v.criticalAt n g₁.node
  let some (a, b) := singleCritical g₀ g₁ critical₀ critical₁
    | return .absent (some (.noSingleCritical gate q))
  let level ← v.levelOf n gate
  let predicted :=
    1 + max (1 + max (← v.levelOf n p.node) (← v.levelOf n b.node)) (← v.levelOf n a.node)
  if level ≤ predicted then
    return .absent (some (.notShallower gate level predicted))
  return .present ⟨p, a, b, level, predicted⟩

/-- Builds `(p ∧ b) ∧ a`. -/
def build (o : Opportunity) : Edit Signal := do
  let pb ← Edit.addAnd o.p o.b
  Edit.addAnd pb o.a

/-- What is noted when the law was applied. -/
def entry (gate : Nat) (o : Opportunity) (replacement : Signal) : LogEntry :=
  .reassociated gate replacement o.level o.predicted

end AndInverter.Associativity
