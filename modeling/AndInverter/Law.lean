/-!
The laws by which a network is restructured, in the order in which they are tried.
-/

namespace AndInverter

/-- An algebraic law of conjunction that can make a network shallower. -/
inductive Law where
  /-- Moving a late operand of a chain towards its end. -/
  | associativity
  /-- Taking a common operand out of two conjunctions. -/
  | distributivity
  /-- Moving an early operand down past two alternations. -/
  | threeLevel
deriving DecidableEq, Inhabited

/-- The short name of a law. -/
def Law.name : Law → String
  | .associativity => "assoc"
  | .distributivity => "distr"
  | .threeLevel => "distr3"

end AndInverter
