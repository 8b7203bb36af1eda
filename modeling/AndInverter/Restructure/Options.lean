import AndInverter.Law

/-!
What restructuring is asked to do and what it reports.
-/

namespace AndInverter

/-- **Options of restructuring**: the laws it may use and a limit to the number of passes. -/
structure RestructureOptions where
  associativity : Bool := true
  distributivity : Bool := true
  threeLevel : Bool := true
  maxPasses : Option Nat := none
deriving DecidableEq, Inhabited

namespace RestructureOptions

/-- No law at all. -/
def none : RestructureOptions := ⟨false, false, false, Option.none⟩

/-- One law alone. -/
def only : Law → RestructureOptions
  | .associativity => { none with associativity := true }
  | .distributivity => { none with distributivity := true }
  | .threeLevel => { none with threeLevel := true }

/-- May this law be used? -/
def enables (o : RestructureOptions) : Law → Bool
  | .associativity => o.associativity
  | .distributivity => o.distributivity
  | .threeLevel => o.threeLevel

/-- The laws that may be used, in the order in which they are tried. -/
def laws (o : RestructureOptions) : List Law :=
  [.associativity, .distributivity, .threeLevel].filter o.enables

end RestructureOptions

/-- How often each law was applied. -/
structure Tally where
  associativity : Nat := 0
  distributivity : Nat := 0
  threeLevel : Nat := 0
deriving DecidableEq, Inhabited

namespace Tally

/-- Counts one more application of a law. -/
def record (t : Tally) : Law → Tally
  | .associativity => { t with associativity := t.associativity + 1 }
  | .distributivity => { t with distributivity := t.distributivity + 1 }
  | .threeLevel => { t with threeLevel := t.threeLevel + 1 }

/-- The number of applications of a law. -/
def count (t : Tally) : Law → Nat
  | .associativity => t.associativity
  | .distributivity => t.distributivity
  | .threeLevel => t.threeLevel

/-- The number of applications of all laws. -/
def total (t : Tally) : Nat := t.associativity + t.distributivity + t.threeLevel

instance : Add Tally :=
  ⟨fun s t => ⟨s.associativity + t.associativity, s.distributivity + t.distributivity,
    s.threeLevel + t.threeLevel⟩⟩

@[simp] theorem total_record (t : Tally) (law : Law) : (t.record law).total = t.total + 1 := by
  cases law <;> simp [record, total] <;> omega

theorem count_add (s t : Tally) (law : Law) : (s + t).count law = s.count law + t.count law := by
  cases law <;> rfl

@[simp] theorem total_add (s t : Tally) : (s + t).total = s.total + t.total := by
  simp only [total, HAdd.hAdd, Add.add]
  simp only [Nat.add_eq]
  omega

end Tally

/-- **The report of restructuring.** -/
structure RestructureReport where
  passes : Nat
  tally : Tally
  depthBefore : Nat
  depthAfter : Nat
  gatesBefore : Nat
  gatesAfter : Nat
  /-- Did the last pass find nothing to do? -/
  reachedFixpoint : Bool
deriving DecidableEq, Inhabited

end AndInverter
