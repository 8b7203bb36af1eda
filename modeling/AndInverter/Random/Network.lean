import AndInverter.Network.Construct
import AndInverter.Random.Generator

/-!
Random networks.  Each gate reads from two signals built before it, one of them among the
latest, so that networks get some depth.
-/

namespace AndInverter

/-- The size of a random network and the chance that a signal is complemented. -/
structure RandomOptions where
  inputs : Nat := 8
  /-- Attempts to make a gate; those that fold or repeat a gate make none. -/
  gates : Nat := 64
  outputs : Nat := 4
  complement : Chance := .even
deriving DecidableEq, Inhabited

/-- The number of latest signals from which one operand is drawn. -/
def recentWindow : Nat := 8

/-- The signals built so far and the generator. -/
structure RandomState where
  pool : Array Signal
  generator : Generator

/-- Building a random network. -/
abbrev RandomBuild := StateT RandomState Edit

namespace RandomBuild

/-- A random number below `range`. -/
def below (range : Nat) : RandomBuild Nat := fun s =>
  let (k, generator) := s.generator.below range
  return (k, { s with generator })

/-- A random truth value. -/
def chance (c : Chance) : RandomBuild Bool := fun s =>
  let (b, generator) := s.generator.chance c
  return (b, { s with generator })

/-- The signal at a position of the pool. -/
def pooled (index : Nat) : RandomBuild Signal := return (← get).pool.getD index .zero

/-- Adds an input to the pool. -/
def addInput : RandomBuild Unit := do
  let s ← (Edit.addInput : Edit Signal)
  modify fun st => { st with pool := st.pool.push s }

/-- Attempts to make a gate; a new one joins the pool. -/
def addGate (o : RandomOptions) : RandomBuild Unit := do
  let size := (← get).pool.size
  let recentStart := size - recentWindow
  let f ← pooled (recentStart + (← below (size - recentStart)))
  let g ← pooled (← below size)
  let f := f.complementIf (← chance o.complement)
  let g := g.complementIf (← chance o.complement)
  let gate ← (Edit.addAnd f g : Edit Signal)
  if ← (Edit.view (·.isGate gate.node) : Edit Bool) then
    modify fun st =>
      if st.pool.any (·.node == gate.node) then st
      else { st with pool := st.pool.push (.ofNode gate.node) }

/-- Adds an output driven by the signal at a position of the pool, complemented or not. -/
def addOutputFrom (o : RandomOptions) (index : Nat) : RandomBuild Unit := do
  let s ← pooled index
  let flip ← chance o.complement
  let _ ← (Edit.addOutput (s.complementIf flip) : Edit Nat)

/-- Adds the outputs; the first one is driven by the signal built last. -/
def addOutputs (o : RandomOptions) : (count : Nat) → RandomBuild Unit
  | 0 => return ()
  | count + 1 => do
    addOutputFrom o ((← get).pool.size - 1)
    (List.range count).forM fun _ => do
      addOutputFrom o (← below (← get).pool.size)

/-- Builds the whole network. -/
def build (o : RandomOptions) : RandomBuild Unit := do
  (List.range o.inputs).forM fun _ => addInput
  if o.inputs = 0 then
    modify fun st => { st with pool := #[.zero] }
  (List.range o.gates).forM fun _ => addGate o
  addOutputs o o.outputs

end RandomBuild

/-- The random network that belongs to a seed. -/
def Network.random (seed : UInt64) (o : RandomOptions) : Except Fault Network :=
  match (RandomBuild.build o).run ⟨#[], .ofSeed seed⟩ ∅ with
  | .ok _ n => .ok n
  | .error fault _ => .error fault

end AndInverter
