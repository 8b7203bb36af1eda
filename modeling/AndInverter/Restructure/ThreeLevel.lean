import AndInverter.Network.Construct
import AndInverter.Restructure.Workspace

/-!
The three-level law for strongly skewed gates,
`¬(¬(b ∧ a) ∧ c) ∧ d = (a ∧ d ∧ b) ∨ (¬c ∧ d)`, applied where `b` is late and `d` is early by
more than three levels.  On the right `b` has two gates less the one for `d` above it.
-/

namespace AndInverter.ThreeLevel

/-- A gate `¬(¬(b ∧ a) ∧ c) ∧ d` and its level. -/
structure Opportunity where
  a : Signal
  b : Signal
  c : Signal
  d : Signal
  level : Nat
deriving DecidableEq

/-- A pair of fan-ins with the deeper one first, and their levels in this order.  Of two
equally deep ones the second counts as deeper. -/
def deeperFirst (n : Network) (v : DepthView) (f₀ f₁ : Signal) :
    Except Fault ((Signal × Nat) × (Signal × Nat)) := do
  let level₀ ← v.levelOf n f₀.node
  let level₁ ← v.levelOf n f₁.node
  return if level₁ < level₀ then ((f₀, level₀), (f₁, level₁)) else ((f₁, level₁), (f₀, level₀))

/-- Looks for an opportunity at a gate. -/
def search (gate : Nat) (n : Network) (v : DepthView) : Except Fault (Search Opportunity) := do
  let some (f₀, f₁) ← n.liveFanIns? gate | return .absent none
  let ((z, levelZ), (d, levelD)) ← deeperFirst n v f₀ f₁
  if z.complemented = false ∨ levelZ ≤ levelD + 3 then
    return .absent none
  let some (z₀, z₁) ← n.liveFanIns? z.node | return .absent none
  let ((w, levelW), (c, levelC)) ← deeperFirst n v z₀ z₁
  if w.complemented = false ∨ levelW ≤ levelC then
    return .absent (some (.secondLevelDiffers gate))
  let some (w₀, w₁) ← n.liveFanIns? w.node | return .absent none
  let ((b, levelB), (a, levelA)) ← deeperFirst n v w₀ w₁
  if levelB ≤ levelA then
    return .absent (some (.thirdLevelDiffers gate))
  let level ← v.levelOf n gate
  return .present ⟨a, b, c, d, level⟩

/-- Builds `(a ∧ d ∧ b) ∨ (¬c ∧ d)`. -/
def build (o : Opportunity) : Edit Signal := do
  let ad ← Edit.addAnd o.a o.d
  let adb ← Edit.addAnd ad o.b
  let notCD ← Edit.addAnd (~~~o.c) o.d
  Edit.addNand (~~~adb) (~~~notCD)

/-- What is noted when the law was applied. -/
def entry (gate : Nat) (o : Opportunity) (replacement : Signal) : LogEntry :=
  .redistributed gate replacement o.level

end AndInverter.ThreeLevel
