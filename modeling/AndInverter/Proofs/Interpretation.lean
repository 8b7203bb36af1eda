import AndInverter.Proofs.Network.Consistent

/-!
Interpretations of a network.  Given connectives on some type of values, the value of a gate
is the meet of its fan-ins, and the values of the inputs are free.

* `Connectives.Lawful`: the laws under which a conjunction may be folded and its operands
  may be swapped, and `Connectives.ofForm_conjunction`: under them it means the same;
* `Connectives.Models`: an assignment of values to the nodes that obeys the connectives;
* `Network.interpret` computes one, and `Network.eq_interpret_of_models`: there is no other.
-/

namespace AndInverter

variable {M : Type} {n m : Network} {g u v : Nat} {a b s t : Signal} {pins : Multiset Nat}

/-- **Connectives** on the values that nodes may have. -/
structure Connectives (M : Type) where
  bottom : M
  negate : M → M
  meet : M → M → M

namespace Connectives

variable (A : Connectives M) (α φ : Nat → M)

/-- The value of a signal, given the values of the nodes. -/
def read (s : Signal) : M := if s.complemented then A.negate (φ s.node) else φ s.node

/-- The value of a canonical form, given the values of the nodes. -/
def ofForm : AndForm → M
  | .folded s => A.read φ s
  | .gate key => A.meet (A.read φ key.lhs) (A.read φ key.rhs)

/-- **The laws** that folding and ordering a conjunction rely on. -/
structure Lawful : Prop where
  negate_negate : ∀ x, A.negate (A.negate x) = x
  meet_comm : ∀ x y, A.meet x y = A.meet y x
  bottom_meet : ∀ x, A.meet A.bottom x = A.bottom
  top_meet : ∀ x, A.meet (A.negate A.bottom) x = x
  meet_self : ∀ x, A.meet x x = x
  meet_negate : ∀ x, A.meet x (A.negate x) = A.bottom

/-- The connectives of the two truth values. -/
def bool : Connectives Bool := ⟨false, not, and⟩

lemma bool_lawful : bool.Lawful where
  negate_negate := Bool.not_not
  meet_comm := Bool.and_comm
  bottom_meet := Bool.false_and
  top_meet := Bool.true_and
  meet_self := Bool.and_self
  meet_negate := Bool.and_not_self

variable {A α φ}

@[simp] lemma read_not (hA : A.Lawful) (s : Signal) : A.read φ (~~~s) = A.negate (A.read φ s) := by
  cases h : s.complemented
  · simp [read, h]
  · simp [read, h, hA.negate_negate]

lemma read_complementIf (hA : A.Lawful) (s : Signal) (flip : Bool) :
    A.read φ (s.complementIf flip) = if flip then A.negate (A.read φ s) else A.read φ s := by
  cases flip
  · simp
  · simp [read_not hA]

/-- Values that agree on the node of a signal agree on the signal. -/
lemma read_congr {ψ : Nat → M} (h : φ s.node = ψ s.node) : A.read φ s = A.read ψ s := by
  rw [read, read, h]

/-- To follow a signal to a node of the same value is to read that value. -/
lemma read_of_eq (hA : A.Lawful) (h : φ s.node = A.read φ t) :
    A.read φ s = A.read φ (t.complementIf s.complemented) := by
  rw [read_complementIf hA, read, h]

/-- The conjunction of two signals in order means what the form says. -/
lemma ofForm_ofOrdered (hA : A.Lawful) (h0 : φ 0 = A.bottom) (l r : Signal) :
    A.ofForm φ (.ofOrdered l r) = A.meet (A.read φ l) (A.read φ r) := by
  simp only [AndForm.ofOrdered]
  by_cases hl : l.node = 0
  · cases hc : l.complemented with
    | true => simp [hl, hc, ofForm, read, h0, hA.top_meet]
    | false => simp [hl, hc, ofForm, read, h0, hA.bottom_meet, Signal.zero]
  · by_cases hlr : l.node = r.node
    · by_cases hcc : l.complemented = r.complemented
      · have heq : r = l := by
          cases l
          cases r
          simp_all
        rw [heq, hA.meet_self]
        simp [hl, ofForm]
      · have heq : r = ~~~l := by
          rcases l with ⟨x, c⟩
          rcases r with ⟨y, d⟩
          simp only at hlr hcc
          subst hlr
          cases c <;> cases d <;> simp_all [Complement.complement, Signal.negate]
        rw [heq, read_not hA, hA.meet_negate]
        simp [hl, ofForm, Signal.zero, read, h0]
    · simp [hl, hlr, ofForm]

/-- **A conjunction means what its canonical form says.** -/
theorem ofForm_conjunction (hA : A.Lawful) (h0 : φ 0 = A.bottom) (f g : Signal) :
    A.ofForm φ (conjunction f g) = A.meet (A.read φ f) (A.read φ g) := by
  rw [conjunction]
  split
  · exact ofForm_ofOrdered hA h0 f g
  · rw [ofForm_ofOrdered hA h0, hA.meet_comm]

variable (A α φ)

/-- **A model**: values of the nodes that obey the connectives, given values of the inputs. -/
structure Models (n : Network) : Prop where
  zero : φ 0 = A.bottom
  input : ∀ i v, n.inputs[i]? = some v → φ v = α i
  gate : ∀ g a b, n.Gate g a b → φ g = A.meet (A.read φ a) (A.read φ b)

variable {A α φ}

/-- A network whose gates are among those of another has the same models, and more. -/
lemma Models.mono (h : A.Models α φ n) (hinputs : m.inputs = n.inputs)
    (hgates : ∀ g a b, m.Gate g a b → n.Gate g a b) : A.Models α φ m where
  zero := h.zero
  input i v hv := h.input i v (hinputs ▸ hv)
  gate g a b hg := h.gate g a b (hgates g a b hg)

end Connectives

namespace Network

/-- The truth value of a signal. -/
lemma read_bool (φ : Nat → Bool) (s : Signal) :
    Connectives.bool.read φ s = (φ s.node ^^ s.complemented) := by
  cases hs : s.complemented <;> simp [Connectives.read, Connectives.bool, hs]

variable (A : Connectives M) (α : Nat → M)

/-! ### Computing the values -/

/-- The value of a node whose cone is not deeper than the bound. -/
def interpretWithin (n : Network) : (bound : Nat) → Nat → M
  | 0, _ => A.bottom
  | bound + 1, v =>
    match n.shape v with
    | some (.input i, _) => α i
    | some (.gate a b, false) =>
      A.meet (A.read (n.interpretWithin bound) a) (A.read (n.interpretWithin bound) b)
    | _ => A.bottom

/-- **The value of a node**, given the values of the inputs. -/
def interpret (n : Network) (v : Nat) : M := n.interpretWithin A α (n.size + 1) v

/-- The values of the outputs. -/
def outputValues (n : Network) : List M := n.outputs.toList.map (A.read (n.interpret A α))

variable {A α}

lemma length_outputValues (n : Network) (α : Nat → M) :
    (n.outputValues A α).length = n.outputs.size := by
  rw [outputValues, List.length_map, Array.length_toList]

/-- Bounds beyond the depth of the cone do not matter. -/
lemma interpretWithin_of_shallow {bound more : Nat} (h : n.Shallow bound v)
    (hle : bound ≤ more) : n.interpretWithin A α more v = n.interpretWithin A α bound v := by
  induction bound generalizing v more with
  | zero => exact h.elim
  | succ bound ih =>
      obtain ⟨more, rfl⟩ := Nat.exists_eq_add_of_le' (Nat.lt_of_lt_of_le bound.succ_pos hle)
      rw [interpretWithin, interpretWithin]
      split
      · rfl
      · next a b hs =>
          have hg : n.Gate v a b := gate_iff.mpr hs
          have ha := ih (h a.node hg.reads_left) (by omega : bound ≤ more)
          have hb := ih (h b.node hg.reads_right) (by omega : bound ≤ more)
          rw [Connectives.read_congr ha, Connectives.read_congr hb]
      · rfl

/-- Values depend on the gates only. -/
lemma SameGates.interpret (h : SameGates n m) : m.interpret A α = n.interpret A α := by
  have key : ∀ bound, m.interpretWithin A α bound = n.interpretWithin A α bound := by
    intro bound
    induction bound with
    | zero => rfl
    | succ bound ih =>
        funext v
        rw [interpretWithin, interpretWithin, ih, h.shape]
  funext v
  rw [Network.interpret, Network.interpret, key, h.size]

/-- A gate of an acyclic network has the value of the meet of its fan-ins. -/
lemma interpret_gate (h : n.Acyclic) (hg : n.Gate g a b) :
    n.interpret A α g = A.meet (A.read (n.interpret A α) a) (A.read (n.interpret A α) b) := by
  have hlong : n.interpret A α g = n.interpretWithin A α (n.size + 1 + 1) g :=
    (interpretWithin_of_shallow (h.shallow g) (Nat.le_succ _)).symm
  rw [hlong, interpretWithin, gate_iff.mp hg]
  rfl

/-- **The computed values are a model.** -/
theorem models_interpret (hn : n.Consistent pins) (h : n.Acyclic) :
    A.Models α (n.interpret A α) n where
  zero := by
    obtain ⟨⟨k, dead⟩, hs, hk⟩ := Option.map_eq_some_iff.mp ((hn.constant_iff 0).mpr rfl)
    simp only at hk
    rw [interpret, interpretWithin, hs, hk]
  input i v hv := by
    obtain ⟨⟨k, dead⟩, hs, hk⟩ := Option.map_eq_some_iff.mp ((hn.input_iff i v).mp hv)
    simp only at hk
    rw [interpret, interpretWithin, hs, hk]
  gate g a b hg := interpret_gate h hg

/-- **There is one model only**, as far as live nodes are concerned. -/
theorem eq_interpret_of_models {φ : Nat → M} (hφ : A.Models α φ n)
    (hn : n.Consistent pins) (h : n.Acyclic) (hv : n.isLive v = true) :
    φ v = n.interpret A α v := by
  have hψ := models_interpret (A := A) (α := α) hn h
  revert hv
  refine h.induction (P := fun v => n.isLive v = true → φ v = n.interpret A α v) ?_ v
  intro v ih hv
  obtain ⟨k, hk⟩ := isLive_iff.mp hv
  have hkind : n.kind? v = some k := by rw [kind?, hk, Option.map_some]
  cases k with
  | constant =>
      rw [(hn.constant_iff v).mp hkind, hφ.zero, hψ.zero]
  | input i =>
      have hi := (hn.input_iff i v).mpr hkind
      rw [hφ.input i v hi, hψ.input i v hi]
  | gate a b =>
      have hg : n.Gate v a b := gate_iff.mpr hk
      obtain ⟨hla, hlb⟩ := hn.fanIns_live v a b hg
      rw [hφ.gate v a b hg, hψ.gate v a b hg,
        Connectives.read_congr (ih a.node hg.reads_left hla),
        Connectives.read_congr (ih b.node hg.reads_right hlb)]

end Network

end AndInverter
