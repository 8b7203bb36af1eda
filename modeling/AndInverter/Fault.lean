import AndInverter.Signal

/-!
What can go wrong inside a network: a broken promise of a caller, or a network that is not
what it should be.  Each cause is a constructor; `Fault.message` gives its wording.
-/

namespace AndInverter

/-- A node as it appears in listings. -/
def nodeRefText (node : Nat) : String := s!"NodeRef \x7b id: {node} \x7d"

/-- A list of nodes as it appears in listings. -/
def nodeListText (nodes : List Nat) : String :=
  "[" ++ ", ".intercalate (nodes.map nodeRefText) ++ "]"

/-- The operations that insist on live operands. -/
inductive Operation where
  | addOutput
  | addAnd
  | substitute
deriving DecidableEq

/-- The name under which an operation complains. -/
def Operation.name : Operation → String
  | .addOutput => "create_po"
  | .addAnd => "create_and"
  | .substitute => "substitute_node"

/-- The questions that a depth view answers only while it is fresh. -/
inductive DepthQuestion where
  | level
  | critical
  | depth
deriving DecidableEq

/-- The name under which a question complains. -/
def DepthQuestion.name : DepthQuestion → String
  | .level => "level"
  | .critical => "is_on_critical_path"
  | .depth => "depth"

/-- **A fault**: the cause for which an operation gave up. -/
inductive Fault where
  /-- A position outside of the network. -/
  | indexOutOfBounds
  /-- A counter would exceed its 32 bits. -/
  | counterOverflow
  /-- An operand outside of the network. -/
  | operandOutOfBounds (operation : Operation) (node size : Nat)
  /-- An operand that was retired. -/
  | deadOperand (operation : Operation) (node : Nat)
  /-- A use was taken away from a node without uses. -/
  | fanoutUnderflow (node : Nat)
  /-- A pending replacement was retired before it was wired in. -/
  | deadReplacement (replacement : Signal) (node : Nat)
  /-- The live nodes cannot be ordered fan-ins first. -/
  | noOrder (visited : Nat) (unvisited : List Nat)
  /-- The check against cycles failed. -/
  | cycle (context : String) (visited unvisited : Nat)
  /-- A live gate reads from outside of the network. -/
  | fanInOutOfBounds (gate : Nat) (fanIn : Signal) (size : Nat)
  /-- A live gate reads from a dead node. -/
  | deadFanIn (gate : Nat) (fanIn : Signal)
  /-- The fan-ins of a live gate are not in canonical order. -/
  | fanInsUnordered (gate : Nat)
  /-- The structural hash does not map the key of a live gate to it. -/
  | notHashed (gate : Nat)
  /-- The counter of live gates is wrong. -/
  | gateCount
  /-- The structural hash has entries besides those of the live gates. -/
  | foreignHashEntry
  /-- An output is driven by no live node. -/
  | invalidOutput (index : Nat) (output : Signal)
  /-- A depth view was read after the network changed. -/
  | staleView (question : DepthQuestion) (snapshot current : Nat)
  /-- A simulation got too few or too many input words. -/
  | inputWords
  /-- Too many inputs for a full truth table. -/
  | tableTooLarge (inputs limit : Nat)
  /-- A run did not end within its bound. -/
  | unfinished
deriving DecidableEq

/-- The wording of a fault; positions and counters have none. -/
def Fault.message : Fault → Option String
  | .indexOutOfBounds => none
  | .counterOverflow => none
  | .operandOutOfBounds op node size =>
    some s!"{op.name}: {nodeText node} out of bounds (size = {size})"
  | .deadOperand op node => some s!"{op.name}: {nodeText node} refers to a dead node"
  | .fanoutUnderflow node => some s!"decr_fanout_size: fanout underflow on {nodeText node}"
  | .deadReplacement s node =>
    some s!"substitute_node: replacement {s.text} for {nodeText node} is dead"
  | .noOrder visited unvisited =>
    some <| s!"Cycle detected in AIG: topological sort visited {visited} nodes; " ++
      s!"not visited: {nodeListText unvisited}"
  | .cycle context visited unvisited =>
    some <| s!"Cycle detected in graph (context: {context}): topological sort visited " ++
      s!"{visited} nodes, {unvisited} left. See logs for details."
  | .fanInOutOfBounds gate s size =>
    some s!"gate {nodeText gate}: fan-in {s.text} out of bounds (size = {size})"
  | .deadFanIn gate s => some s!"gate {nodeText gate}: fan-in {s.text} is dead"
  | .fanInsUnordered gate => some s!"gate {nodeText gate}: fan-ins not in canonical order"
  | .notHashed gate => some s!"gate {nodeText gate} missing from structural hash"
  | .gateCount => some "live gate counter out of sync"
  | .foreignHashEntry => some "structural hash holds entries for dead gates"
  | .invalidOutput index s => some s!"output {index} refers to invalid node {s.text}"
  | .staleView question snapshot current =>
    some <| s!"DepthView::{question.name} read after the network was mutated (snapshot " ++
      s!"generation {snapshot}, network generation {current}); call update_levels() first"
  | .inputWords => some "simulate_words: expected one word per primary input"
  | .tableTooLarge inputs limit =>
    some s!"exhaustive_truth_tables: {inputs} inputs exceeds limit of {limit}"
  | .unfinished => some "no end within the bound"

end AndInverter
