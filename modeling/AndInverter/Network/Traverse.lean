import AndInverter.Network.Basic

/-!
Walks over a network that may stop early.  A walk visits elements in their order and stops
after the first one that its visitor declines to go past.
-/

namespace AndInverter

/-- What a visitor says after an element. -/
inductive Flow where
  | proceed
  | stop
deriving DecidableEq

/-- Visits elements in order with a state; the result tells whether the visitor stopped. -/
def walk {α σ : Type} (visit : σ → α → σ × Flow) : σ → List α → σ × Bool
  | state, [] => (state, false)
  | state, a :: rest =>
    match visit state a with
    | (state, .proceed) => walk visit state rest
    | (state, .stop) => (state, true)

/-- A visitor that collects elements, last first, and stops when it has `limit` of them. -/
def collectUpTo {α : Type} (limit : Option Nat) (seen : List α) (a : α) : List α × Flow :=
  (a :: seen, if limit = some (seen.length + 1) then .stop else .proceed)

/-- The elements that a visitor sees which stops at the `limit`-th one, and whether it got
there. -/
def visited {α : Type} (limit : Option Nat) (elements : List α) : List α × Bool :=
  let (seen, stopped) := walk (collectUpTo limit) [] elements
  (seen.reverse, stopped)

namespace Network

/-- The fan-ins of a node, which has to exist. -/
def fanInList (n : Network) (node : Nat) : Except Fault (List Signal) := do
  let s ← n.read node
  return match s.fanIns? with
    | some (a, b) => [a, b]
    | none => []

end Network

end AndInverter
