import AndInverter.Network.Construct

/-!
Small networks: a plain one, and one for each law that the law applies to.
-/

namespace AndInverter.Sample

/-- Adds some inputs. -/
def inputs : (count : Nat) → Edit (List Signal)
  | 0 => return []
  | count + 1 => return (← Edit.addInput) :: (← inputs count)

/-- Three neighbouring conjunctions of four inputs, the first two of them joined. -/
def simple : Edit Unit := do
  let i₀ ← Edit.addInput
  let i₁ ← Edit.addInput
  let i₂ ← Edit.addInput
  let i₃ ← Edit.addInput
  let a ← Edit.addAnd i₀ i₁
  let b ← Edit.addAnd i₁ i₂
  let c ← Edit.addAnd i₂ i₃
  let o ← Edit.addAnd a b
  let _ ← Edit.addOutput o
  let _ ← Edit.addOutput c

/-- A late operand below an early one. -/
def associativity : Edit Unit := do
  let i₀ ← Edit.addInput
  let i₁ ← Edit.addInput
  let p ← Edit.addInput
  let b ← Edit.addInput
  let a ← Edit.addAnd i₀ i₁
  let q ← Edit.addAnd a b
  let n ← Edit.addAnd p q
  let _ ← Edit.addOutput n

/-- Two conjunctions with a common operand. -/
def distributivity : Edit Unit := do
  let a ← Edit.addInput
  let b ← Edit.addInput
  let c ← Edit.addInput
  let x ← Edit.addAnd a c
  let y ← Edit.addAnd b c
  let n ← Edit.addAnd x y
  let _ ← Edit.addOutput n

/-- An early operand above two alternations with a late one. -/
def threeLevel : Edit Unit := do
  let chain ← inputs 4
  let b ← Edit.addChain chain
  let a ← Edit.addInput
  let c ← Edit.addInput
  let d ← Edit.addInput
  let w ← Edit.addAnd b a
  let z ← Edit.addAnd (~~~w) c
  let n ← Edit.addAnd (~~~z) d
  let _ ← Edit.addOutput n

end AndInverter.Sample
