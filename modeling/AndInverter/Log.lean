import AndInverter.Law
import AndInverter.Network.Text

/-!
The log.  Every noteworthy step has a constructor of `LogEntry`, which holds the facts; its
level and its wording are functions of it.
-/

namespace AndInverter

/-- How urgent an entry is. -/
inductive LogLevel where
  | error
  | warn
  | info
  | debug
  | trace
deriving DecidableEq

def LogLevel.text : LogLevel → String
  | .error => "ERROR"
  | .warn => "WARN"
  | .info => "INFO"
  | .debug => "DEBUG"
  | .trace => "TRACE"

/-- What is noted. -/
inductive LogEntry where
  /-- A circuit file was read. -/
  | loaded (inputs outputs definitions gates : Nat)
  /-- Some live nodes have no place in an order. -/
  | cycleFound (context : String) (unvisited : List Nat)
  /-- One of these nodes. -/
  | cycleNode (context : String) (node : Nat) (kind : NodeKind)
  /-- A substitution ended. -/
  | substituted (node : Nat) (target : Signal) (requests : Nat)
  /-- Levels were computed. -/
  | levelsUpdated (nodes depth critical : Nat)
  /-- Restructuring begins. -/
  | started (depth gates : Nat) (laws : List Law)
  /-- The limit of passes was reached. -/
  | passLimitReached (passes : Nat)
  /-- A pass ended. -/
  | passEnded (pass count depth gates : Nat)
  /-- Restructuring ended. -/
  | finished (passes depthBefore depthAfter gatesBefore gatesAfter count : Nat)
  /-- No operand is much deeper than the other. -/
  | notSkewed (node level₀ level₁ : Nat)
  /-- The deeper operand has no critical operand, or two. -/
  | noSingleCritical (node : Nat) (operand : Signal)
  /-- The gate would not become shallower. -/
  | notShallower (node level predicted : Nat)
  /-- Associativity was applied. -/
  | reassociated (node : Nat) (replacement : Signal) (level predicted : Nat)
  /-- One operand is complemented and the other is not. -/
  | mixedPolarity (node : Nat)
  /-- The operands have no operand in common. -/
  | nothingShared (node : Nat)
  /-- Distributivity was applied. -/
  | factored (node : Nat) (replacement shared : Signal) (level : Nat)
  /-- The second level is not an alternation with one deeper operand. -/
  | secondLevelDiffers (node : Nat)
  /-- The third level has no deeper operand. -/
  | thirdLevelDiffers (node : Nat)
  /-- The three-level law was applied. -/
  | redistributed (node : Nat) (replacement : Signal) (level : Nat)
deriving DecidableEq

namespace LogEntry

def level : LogEntry → LogLevel
  | loaded .. | reassociated .. | factored .. | redistributed .. => .debug
  | cycleFound .. | cycleNode .. => .error
  | started .. | passEnded .. | finished .. => .info
  | passLimitReached .. => .warn
  | substituted .. | levelsUpdated .. | notSkewed .. | noSingleCritical .. | notShallower ..
  | mixedPolarity .. | nothingShared .. | secondLevelDiffers .. | thirdLevelDiffers .. => .trace

/-- The wording of an entry. -/
def message : LogEntry → String
  | loaded inputs outputs definitions gates =>
    s!"load_aiger: {inputs} inputs, {outputs} outputs, {definitions} AND lines -> {gates} gates"
  | cycleFound context unvisited =>
    s!"[{context}] Cycle detected! Not visited: {nodeListText unvisited}"
  | cycleNode context node kind => s!"[{context}] Node {nodeText node}: {kind.listing}"
  | substituted node target requests =>
    s!"substitute_node: {nodeText node} -> {target.text} took {requests} step(s)"
  | levelsUpdated nodes depth critical =>
    s!"update_levels: {nodes} live nodes, depth {depth}, {critical} critical"
  | started depth gates laws =>
    s!"aig_algebraic_rewriting: start depth {depth} gates {gates} rules [" ++
      ", ".intercalate (laws.map Law.name) ++ "]"
  | passLimitReached passes =>
    s!"aig_algebraic_rewriting: stopping after {passes} passes without reaching a fixpoint"
  | passEnded pass count depth gates =>
    s!"aig_algebraic_rewriting: pass {pass} applied {count} rewrites; depth {depth} " ++
      s!"gates {gates}"
  | finished passes depthBefore depthAfter gatesBefore gatesAfter count =>
    s!"aig_algebraic_rewriting: done after {passes} passes; depth {depthBefore} -> " ++
      s!"{depthAfter}, gates {gatesBefore} -> {gatesAfter}, rewrites {count}"
  | notSkewed node level₀ level₁ =>
    s!"assoc: {nodeText node} operands not skewed enough ({level₀}, {level₁})"
  | noSingleCritical node operand =>
    s!"assoc: {nodeText node} needs exactly one critical operand under {operand.text}"
  | notShallower node level predicted =>
    s!"assoc: {nodeText node} would not get shallower ({level} -> {predicted})"
  | reassociated node replacement level predicted =>
    s!"assoc: {nodeText node} -> {replacement.text} (level {level} -> {predicted})"
  | mixedPolarity node => s!"distr: {nodeText node} has mixed operand polarity"
  | nothingShared node => s!"distr: {nodeText node} operands share no term"
  | factored node replacement shared level =>
    s!"distr: {nodeText node} -> {replacement.text} (shared {shared.text}, level was {level})"
  | secondLevelDiffers node => s!"distr3: {nodeText node} second level does not match"
  | thirdLevelDiffers node => s!"distr3: {nodeText node} third level does not match"
  | redistributed node replacement level =>
    s!"distr3: {nodeText node} -> {replacement.text} (level was {level})"

/-- The line of an entry: level and wording. -/
def text (e : LogEntry) : String := e.level.text ++ " " ++ e.message

end LogEntry

/-- What the check against cycles notes: nothing when there is an order. -/
def Network.cycleLog (n : Network) (context : String) : List LogEntry :=
  match n.topology.unvisited with
  | [] => []
  | unvisited =>
    .cycleFound context unvisited ::
      unvisited.filterMap fun node =>
        (n.slot? node).map fun s => .cycleNode context node s.kind

end AndInverter
