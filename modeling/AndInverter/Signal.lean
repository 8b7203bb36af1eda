/-!
Edges of an and-inverter network.  A node is named by its position, node `0` being the
constant false; a `Signal` is a node together with a polarity.

* `Signal.code` numbers the signals, node first and polarity second, and orders them;
* `Signal.literal` is that number as a 64-bit word, the form used by circuit files;
* `Signal.code_inj`: distinct signals have distinct numbers.
-/

namespace AndInverter

/-- The written form of a node. -/
def nodeText (node : Nat) : String := "%" ++ toString node

/-- **A signal**: the value of a node, complemented or not. -/
structure Signal where
  node : Nat
  complemented : Bool
deriving DecidableEq, Inhabited

namespace Signal

/-- The signal that carries the value of a node as it is. -/
def ofNode (node : Nat) : Signal := ⟨node, false⟩

/-- The constant false. -/
def zero : Signal := ⟨0, false⟩

/-- The constant true. -/
def one : Signal := ⟨0, true⟩

/-- The constant with the given value. -/
def constant (value : Bool) : Signal := ⟨0, value⟩

/-- The complement of a signal. -/
def negate (s : Signal) : Signal := ⟨s.node, !s.complemented⟩

instance : Complement Signal := ⟨negate⟩

/-- Complements a signal when `flip` is set. -/
def complementIf (s : Signal) (flip : Bool) : Signal := ⟨s.node, s.complemented ^^ flip⟩

/-- The node of a signal that is not complemented. -/
def plainNode? (s : Signal) : Option Nat := if s.complemented then none else some s.node

/-- The written form of a signal. -/
def text (s : Signal) : String :=
  if s.complemented then "not(" ++ nodeText s.node ++ ")" else nodeText s.node

instance : ToString Signal := ⟨text⟩

/-! ### Negation -/

@[simp] theorem node_not (s : Signal) : (~~~s).node = s.node := rfl

@[simp] theorem complemented_not (s : Signal) : (~~~s).complemented = !s.complemented := rfl

@[simp] theorem not_not (s : Signal) : ~~~(~~~s) = s := by
  cases s; simp [Complement.complement, negate]

@[simp] theorem node_complementIf (s : Signal) (flip : Bool) :
    (s.complementIf flip).node = s.node := rfl

@[simp] theorem complemented_complementIf (s : Signal) (flip : Bool) :
    (s.complementIf flip).complemented = (s.complemented ^^ flip) := rfl

@[simp] theorem complementIf_false (s : Signal) : s.complementIf false = s := by
  cases s; simp [complementIf]

@[simp] theorem complementIf_true (s : Signal) : s.complementIf true = ~~~s := by
  cases s; simp [complementIf, Complement.complement, negate]

@[simp] theorem complementIf_complementIf (s : Signal) (p q : Bool) :
    (s.complementIf p).complementIf q = s.complementIf (p ^^ q) := by
  cases s; simp [complementIf]

/-! ### Numbering and order -/

/-- Signals numbered by node first and polarity second. -/
def code (s : Signal) : Nat := 2 * s.node + s.complemented.toNat

/-- The number of literals, which are words of 64 bits. -/
def literalCount : Nat := 0x10000000000000000

/-- The literal of a signal: its number as a 64-bit word. -/
def literal (s : Signal) : Nat := s.code % literalCount

/-- The signal with the given number. -/
def ofLiteral (literal : Nat) : Signal := ⟨literal / 2, literal % 2 == 1⟩

instance : LT Signal := ⟨fun s t => s.code < t.code⟩

instance : LE Signal := ⟨fun s t => s.code ≤ t.code⟩

instance (s t : Signal) : Decidable (s < t) := inferInstanceAs (Decidable (s.code < t.code))

instance (s t : Signal) : Decidable (s ≤ t) := inferInstanceAs (Decidable (s.code ≤ t.code))

theorem lt_iff_code_lt (s t : Signal) : s < t ↔ s.code < t.code := Iff.rfl

theorem le_iff_code_le (s t : Signal) : s ≤ t ↔ s.code ≤ t.code := Iff.rfl

@[simp] theorem code_div_two (s : Signal) : s.code / 2 = s.node := by
  rcases s with ⟨n, c⟩
  cases c
  · simp [code]
  · simp only [code, Bool.toNat_true]
    omega

@[simp] theorem ofLiteral_code (s : Signal) : ofLiteral s.code = s := by
  rcases s with ⟨n, c⟩
  cases c
  · simp [code, ofLiteral]
  · have h : (2 * n + 1) / 2 = n := by omega
    simp [code, ofLiteral, h]

/-- Distinct signals have distinct numbers. -/
theorem code_inj {s t : Signal} (h : s.code = t.code) : s = t := by
  rw [← ofLiteral_code s, h, ofLiteral_code]

end Signal

end AndInverter
