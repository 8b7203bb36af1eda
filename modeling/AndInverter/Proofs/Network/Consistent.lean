import Mathlib.Algebra.BigOperators.Group.Finset.Basic
import Mathlib.Data.Multiset.Count
import AndInverter.Network.Fanout
import AndInverter.Proofs.Network.Graph

/-!
Consistent networks.  While a replacement is under way, some nodes are kept alive by a use
that is no fan-in and no output: a **pin**.  A network is consistent up to pins when its use
counters, its structural hash and its gate counter say what its live graph is.

* `Network.uses` counts the fan-ins of live gates and the outputs that refer to a node, and
  `Network.count_references` finds the same number in the list of all references;
* `Network.Consistent`: consistent up to pins; `Network.WellFormed`: without any pin;
* `Network.Consistent.congr`: what leaves the gates alone only has to keep the counters;
* `Network.Consistent.hash_iff_of_off`: what changes one gate has to adapt two keys.
-/

namespace AndInverter.Network

variable {n m l : Network} {g v : Nat} {a b s : Signal} {pins pins' : Multiset Nat}

/-! ### Sums over the live gates -/

/-- A number for the fan-ins of each live gate, summed up. -/
def gateSum (n : Network) (f : Signal × Signal → Nat) : Nat :=
  ∑ i ∈ Finset.range n.size, ((n.operands? i).map f).getD 0

/-- A sum over the live gates when one position changes. -/
lemma gateSum_of_eq_off (f : Signal × Signal → Nat) (hg : g < n.size) (hsize : m.size = n.size)
    (hoff : ∀ i, i ≠ g → m.operands? i = n.operands? i) :
    m.gateSum f + ((n.operands? g).map f).getD 0
      = n.gateSum f + ((m.operands? g).map f).getD 0 := by
  have hmem : g ∈ Finset.range n.size := Finset.mem_range.mpr hg
  have hrest : ∑ i ∈ (Finset.range n.size).erase g, ((m.operands? i).map f).getD 0
      = ∑ i ∈ (Finset.range n.size).erase g, ((n.operands? i).map f).getD 0 :=
    Finset.sum_congr rfl fun i hi => by rw [hoff i (Finset.ne_of_mem_erase hi)]
  rw [gateSum, gateSum, hsize, ← Finset.add_sum_erase _ _ hmem, ← Finset.add_sum_erase _ _ hmem,
    hrest]
  omega

/-- A sum over the live gates when a node is appended. -/
lemma gateSum_of_size_succ (f : Signal × Signal → Nat) (hsize : m.size = n.size + 1)
    (hoff : ∀ i, i ≠ n.size → m.operands? i = n.operands? i) :
    m.gateSum f = n.gateSum f + ((m.operands? n.size).map f).getD 0 := by
  rw [gateSum, gateSum, hsize, Finset.sum_range_succ]
  congr 1
  refine Finset.sum_congr rfl ?_
  intro i hi
  rw [hoff i (Nat.ne_of_lt (Finset.mem_range.mp hi))]

/-- A sum over the live gates, taken along their list. -/
lemma gateSum_eq_sum_gates (n : Network) (f : Signal × Signal → Nat) :
    n.gateSum f = (n.gates.map fun g => ((n.operands? g).map f).getD 0).sum := by
  have key : ∀ l : List Nat, ((l.filter n.isLiveGate).map
      fun g => ((n.operands? g).map f).getD 0).sum
        = (l.map fun g => ((n.operands? g).map f).getD 0).sum := by
    intro l
    induction l with
    | nil => rfl
    | cons x l ih =>
        by_cases hx : n.isLiveGate x = true
        · rw [List.filter_cons_of_pos hx, List.map_cons, List.sum_cons, ih, List.map_cons,
            List.sum_cons]
        · have hnone : n.operands? x = none := by
            rw [← Option.not_isSome_iff_eq_none, Option.isSome_iff_exists]
            rintro ⟨⟨a, b⟩, hab⟩
            exact hx (isLiveGate_iff.mpr ⟨a, b, hab⟩)
          rw [List.filter_cons_of_neg hx, ih, List.map_cons, List.sum_cons, hnone]
          simp
  rw [gates, key]
  rfl

/-- Each live gate counted once. -/
lemma length_gates (n : Network) : n.gates.length = n.gateSum fun _ => 1 := by
  have hone : n.gates.map (fun g => ((n.operands? g).map fun _ => 1).getD 0)
      = n.gates.map fun _ => 1 := by
    refine List.map_congr_left ?_
    intro g hg
    obtain ⟨a, b, hab⟩ := mem_gates.mp hg
    rw [show n.operands? g = some (a, b) from hab]
    rfl
  rw [gateSum_eq_sum_gates, hone]
  simp

/-! ### Uses -/

/-- How often a pair of fan-ins refers to a node. -/
def pairUses (v : Nat) (p : Signal × Signal) : Nat :=
  (if p.1.node = v then 1 else 0) + if p.2.node = v then 1 else 0

/-- How many outputs a node drives. -/
def outputUses (n : Network) (v : Nat) : Nat := n.outputs.toList.countP (·.node = v)

/-- **The uses of a node**: fan-ins of live gates and outputs that refer to it. -/
def uses (n : Network) (v : Nat) : Nat := n.gateSum (pairUses v) + n.outputUses v

/-- The uses are the references, counted. -/
lemma count_references (n : Network) (v : Nat) : n.references.count v = n.uses v := by
  rw [references, List.count_append, List.count_flatMap, uses, gateSum_eq_sum_gates]
  congr 1
  · refine congrArg List.sum (List.map_congr_left ?_)
    intro g hg
    obtain ⟨a, b, hab⟩ := mem_gates.mp hg
    rw [show n.operands? g = some (a, b) from hab, Function.comp_apply, hab.fanIns?]
    simp only [Option.map_some, Option.getD_some, pairUses, List.count_cons, List.count_nil,
      beq_iff_eq]
    omega
  · rw [outputUses, List.count, List.countP_map]
    exact List.countP_congr fun s _ => by simp

/-- A gate's use of its fan-ins is among the uses of these. -/
lemma pairUses_le_uses (h : n.Gate g a b) (v : Nat) : pairUses v (a, b) ≤ n.uses v := by
  have hle : ((n.operands? g).map (pairUses v)).getD 0 ≤ n.gateSum (pairUses v) :=
    Finset.single_le_sum (f := fun i => ((n.operands? i).map (pairUses v)).getD 0)
      (fun _ _ => Nat.zero_le _) (Finset.mem_range.mpr h.lt_size)
  rw [show n.operands? g = some (a, b) from h] at hle
  exact hle.trans (Nat.le_add_right _ _)

/-- What is read is in use. -/
lemma uses_pos_of_reads (h : n.Reads g v) : 0 < n.uses v := by
  obtain ⟨a, b, hg, hv⟩ := h
  refine lt_of_lt_of_le ?_ (pairUses_le_uses hg v)
  rcases hv with rfl | rfl <;> simp [pairUses]

/-- What drives an output is in use. -/
lemma uses_pos_of_output (h : s ∈ n.outputs) : 0 < n.uses s.node := by
  have hpos : 0 < n.outputUses s.node :=
    List.countP_pos_iff.mpr ⟨s, by simpa using h, by simp⟩
  exact lt_of_lt_of_le hpos (Nat.le_add_left _ _)

/-- What is in use is read or drives an output. -/
lemma exists_use (h : 0 < n.uses v) : (∃ g, n.Reads g v) ∨ ∃ s ∈ n.outputs, s.node = v := by
  rcases Nat.eq_zero_or_pos (n.outputUses v) with h0 | hpos
  · have hsum : n.gateSum (pairUses v) ≠ 0 := by
      rw [uses] at h
      omega
    obtain ⟨g, -, hg⟩ := Finset.exists_ne_zero_of_sum_ne_zero hsum
    left
    cases hop : n.operands? g with
    | none => simp [hop] at hg
    | some p =>
        refine ⟨g, p.1, p.2, hop, ?_⟩
        rw [hop, Option.map_some, Option.getD_some, pairUses] at hg
        by_contra hne
        rw [not_or] at hne
        simp [hne.1, hne.2] at hg
  · obtain ⟨s, hs, hv⟩ := List.countP_pos_iff.mp hpos
    exact .inr ⟨s, by simpa using hs, by simpa using hv⟩

/-! ### Consistency -/

/-- **A network that is consistent up to pins.** -/
structure Consistent (n : Network) (pins : Multiset Nat) : Prop where
  /-- Node `0` is the constant, and no other node is. -/
  constant_iff : ∀ v, n.kind? v = some .constant ↔ v = 0
  /-- The list of inputs says where the inputs are. -/
  input_iff : ∀ i v, n.inputs[i]? = some v ↔ n.kind? v = some (.input i)
  /-- Only gates are ever retired. -/
  permanent : ∀ v k, n.shape v = some (k, true) → k.fanIns? ≠ none
  /-- Fan-ins are in canonical order, on distinct nodes, none of them the constant. -/
  ordered : ∀ g a b, n.Gate g a b → 0 < a.node ∧ a.node < b.node
  fanIns_live : ∀ g a b, n.Gate g a b → n.isLive a.node = true ∧ n.isLive b.node = true
  outputs_live : ∀ s ∈ n.outputs, n.isLive s.node = true
  pins_live : ∀ v ∈ pins, n.isLive v = true
  /-- The structural hash holds the live gates and nothing else. -/
  hash_iff : ∀ (k : AndKey) (g : Nat), n.hash[k]? = some g ↔ n.Gate g k.lhs k.rhs
  liveGates_eq : n.liveGates = n.gates.length
  fanout_eq : ∀ v, n.isLive v = true → n.fanout v = n.uses v + pins.count v

/-- **A well-formed network** is consistent without any pin. -/
def WellFormed (n : Network) : Prop := n.Consistent 0

/-- Two networks with the same nodes, which may differ in their counters and outputs. -/
structure SameGates (n m : Network) : Prop where
  size : m.size = n.size
  shape : m.shape = n.shape
  inputs : m.inputs = n.inputs
  hash : m.hash = n.hash
  liveGates : m.liveGates = n.liveGates

/-- Two networks with the same graph, which may differ in their counters and marks. -/
structure SameGraph (n m : Network) : Prop extends SameGates n m where
  outputs : m.outputs = n.outputs

lemma SameGates.refl (n : Network) : SameGates n n := ⟨rfl, rfl, rfl, rfl, rfl⟩

lemma SameGates.trans (h : SameGates n m) (h' : SameGates m l) : SameGates n l :=
  ⟨h'.size.trans h.size, h'.shape.trans h.shape, h'.inputs.trans h.inputs,
    h'.hash.trans h.hash, h'.liveGates.trans h.liveGates⟩

lemma SameGraph.refl (n : Network) : SameGraph n n := ⟨.refl n, rfl⟩

lemma SameGraph.trans (h : SameGraph n m) (h' : SameGraph m l) : SameGraph n l :=
  ⟨h.toSameGates.trans h'.toSameGates, h'.outputs.trans h.outputs⟩

lemma SameGates.gateSum (h : SameGates n m) (f : Signal × Signal → Nat) :
    m.gateSum f = n.gateSum f := by
  rw [Network.gateSum, Network.gateSum, h.size, operands?_congr h.shape]

lemma SameGates.isLive (h : SameGates n m) (v : Nat) : m.isLive v = n.isLive v :=
  isLive_congr h.shape

lemma SameGates.isDead (h : SameGates n m) (v : Nat) : m.isDead v = n.isDead v := by
  rw [Bool.eq_iff_iff, isDead_iff, isDead_iff, h.shape]

lemma SameGates.gate (h : SameGates n m) : m.Gate g a b ↔ n.Gate g a b := gate_congr h.shape

lemma SameGates.reads (h : SameGates n m) : m.Reads g v ↔ n.Reads g v := by
  simp only [Reads, h.gate]

/-- A gate has one key. -/
lemma Gate.key_iff (h : n.Gate g a b) {k : AndKey} : n.Gate g k.lhs k.rhs ↔ k = ⟨a, b⟩ := by
  constructor
  · intro hk
    obtain ⟨hl, hr⟩ := hk.unique h
    exact congr (congrArg AndKey.mk hl) hr
  · rintro rfl
    exact h

/-- What leaves the gates alone only has to keep the counters. -/
lemma Consistent.congr (h : n.Consistent pins) (hsame : SameGates n m)
    (houtputs : ∀ s ∈ m.outputs, n.isLive s.node = true)
    (hpins : ∀ v ∈ pins', n.isLive v = true)
    (hfanout : ∀ v, m.fanout v + n.outputUses v + pins.count v
      = n.fanout v + m.outputUses v + pins'.count v) :
    m.Consistent pins' where
  constant_iff v := by rw [kind?, hsame.shape]; exact h.constant_iff v
  input_iff i v := by rw [hsame.inputs, kind?, hsame.shape]; exact h.input_iff i v
  permanent v k := by rw [hsame.shape]; exact h.permanent v k
  ordered g a b hg := h.ordered g a b (hsame.gate.mp hg)
  fanIns_live g a b hg := by
    rw [hsame.isLive, hsame.isLive]
    exact h.fanIns_live g a b (hsame.gate.mp hg)
  outputs_live s hs := (hsame.isLive s.node).trans (houtputs s hs)
  pins_live v hv := (hsame.isLive v).trans (hpins v hv)
  hash_iff k g := by rw [hsame.hash, hsame.gate]; exact h.hash_iff k g
  liveGates_eq := by
    rw [hsame.liveGates, h.liveGates_eq, length_gates, length_gates, hsame.gateSum]
  fanout_eq v hv := by
    have hf := h.fanout_eq v ((hsame.isLive v).symm.trans hv)
    have hv' := hfanout v
    rw [uses] at hf ⊢
    rw [hsame.gateSum]
    omega

section Consequences

variable (h : n.Consistent pins)

include h

lemma Consistent.isLive_zero : n.isLive 0 = true := by
  have h0 := (h.constant_iff 0).mpr rfl
  rw [kind?, Option.map_eq_some_iff] at h0
  obtain ⟨⟨k, dead⟩, hs, rfl⟩ := h0
  cases dead with
  | false => exact isLive_iff.mpr ⟨_, hs⟩
  | true => exact absurd rfl (h.permanent 0 _ hs)

lemma Consistent.ne_zero_of_gate (hg : n.Gate g a b) : g ≠ 0 := by
  rintro rfl
  have hkind := (h.constant_iff 0).mpr rfl
  rw [kind?, gate_iff.mp hg] at hkind
  cases hkind

/-- An unpinned node without uses is read by no gate and drives no output. -/
lemma Consistent.unused (hl : n.isLive v = true) (h0 : n.fanout v = 0) :
    (∀ g, ¬ n.Reads g v) ∧ (∀ s ∈ n.outputs, s.node ≠ v) ∧ v ∉ pins := by
  have hf := h.fanout_eq v hl
  refine ⟨?_, ?_, ?_⟩
  · intro g hg
    have := uses_pos_of_reads hg
    omega
  · intro s hs hsv
    have := uses_pos_of_output hs
    rw [hsv] at this
    omega
  · intro hv
    have := Multiset.count_pos.mpr hv
    omega

/-- What is read is live. -/
lemma Consistent.isLive_of_reads (hread : n.Reads g v) : n.isLive v = true := by
  obtain ⟨a, b, hg, hv⟩ := hread
  obtain ⟨hla, hlb⟩ := h.fanIns_live g a b hg
  rcases hv with rfl | rfl <;> assumption

/-- What is referred to is live. -/
lemma Consistent.isLive_of_mem_references (hv : v ∈ n.references) : n.isLive v = true := by
  have hpos := List.count_pos_iff.mpr hv
  rw [count_references] at hpos
  rcases exists_use hpos with ⟨g, hread⟩ | ⟨s, hs, rfl⟩
  · exact h.isLive_of_reads hread
  · exact h.outputs_live s hs

/-- The cone of a live node is live. -/
lemma Consistent.isLive_of_dependsOn {u : Nat} (hl : n.isLive u = true)
    (hdep : n.DependsOn u v) : n.isLive v = true := by
  rcases hdep.cases_tail with heq | ⟨i, -, hread⟩
  · exact heq ▸ hl
  · exact h.isLive_of_reads hread

/-- The fan-ins of a gate are distinct nodes. -/
lemma Consistent.fanIns_ne (hg : n.Gate g a b) : a.node ≠ b.node :=
  Nat.ne_of_lt (h.ordered g a b hg).2

/-- A node is used by every gate once at most, and by every output. -/
lemma Consistent.uses_le_gates (v : Nat) : n.uses v ≤ n.gates.length + n.outputs.size := by
  have hgates : n.gateSum (pairUses v) ≤ n.gates.length := by
    rw [length_gates]
    refine Finset.sum_le_sum fun i _ => ?_
    cases hop : n.operands? i with
    | none => exact le_rfl
    | some p =>
        have hne := h.fanIns_ne (show n.Gate i p.1 p.2 from hop)
        simp only [Option.map_some, Option.getD_some, pairUses]
        split_ifs with h₁ h₂
        · exact absurd (h₁.trans h₂.symm) hne
        · exact le_rfl
        · exact le_rfl
        · exact Nat.zero_le _
  have houtputs : n.outputUses v ≤ n.outputs.size := by
    rw [← Array.length_toList]
    exact List.countP_le_length
  exact Nat.add_le_add hgates houtputs

/-- The inputs are different nodes. -/
lemma Consistent.inputs_nodup : n.inputs.toList.Nodup := by
  rw [List.nodup_iff_injective_get]
  intro i k heq
  have hinput : ∀ i : Fin n.inputs.toList.length,
      n.kind? (n.inputs.toList.get i) = some (.input i) := by
    intro i
    refine (h.input_iff i _).mp ?_
    rw [← Array.getElem?_toList, List.get_eq_getElem, List.getElem?_eq_getElem i.isLt]
  have hkind := (hinput i).symm.trans (heq ▸ hinput k)
  simpa [Fin.ext_iff] using hkind

/-- Two live gates with the same fan-ins are the same. -/
lemma Consistent.gate_injective {g' : Nat} (hg : n.Gate g a b) (hg' : n.Gate g' a b) :
    g = g' := by
  have h1 := (h.hash_iff ⟨a, b⟩ g).mpr hg
  have h2 := (h.hash_iff ⟨a, b⟩ g').mpr hg'
  rw [h1] at h2
  exact Option.some.inj h2

/-- **The structural hash stays exact** when one position changes: the key of the gate that is
there is entered, the key of the one that was there is erased, and the others stay. -/
lemma Consistent.hash_iff_of_off (hoff : ∀ i, i ≠ g → m.operands? i = n.operands? i)
    (hnew : ∀ k : AndKey, m.Gate g k.lhs k.rhs →
      m.hash[k]? = some g ∧ ∀ other, n.hash[k]? = some other → other = g)
    (hold : ∀ k : AndKey, n.Gate g k.lhs k.rhs → ¬ m.Gate g k.lhs k.rhs → m.hash[k]? = none)
    (hrest : ∀ k : AndKey, ¬ n.Gate g k.lhs k.rhs → ¬ m.Gate g k.lhs k.rhs →
      m.hash[k]? = n.hash[k]?) (k : AndKey) (i : Nat) :
    m.hash[k]? = some i ↔ m.Gate i k.lhs k.rhs := by
  have hgate : ∀ {c d}, i ≠ g → (m.Gate i c d ↔ n.Gate i c d) := fun hi => by
    rw [Gate, Gate, hoff i hi]
  by_cases hm : m.Gate g k.lhs k.rhs
  · obtain ⟨hkey, hfree⟩ := hnew k hm
    rw [hkey, Option.some.injEq]
    refine ⟨fun hi => hi ▸ hm, ?_⟩
    intro hk
    by_contra hi
    exact hi (hfree i ((h.hash_iff k i).mpr ((hgate (Ne.symm hi)).mp hk))).symm
  by_cases hn : n.Gate g k.lhs k.rhs
  · rw [hold k hn hm]
    refine ⟨fun hk => absurd hk (by simp), ?_⟩
    intro hk
    by_cases hi : i = g
    · exact absurd (hi ▸ hk) hm
    · exact absurd (h.gate_injective ((hgate hi).mp hk) hn) hi
  · rw [hrest k hn hm, h.hash_iff]
    by_cases hi : i = g
    · subst hi
      exact ⟨fun hk => absurd hk hn, fun hk => absurd hk hm⟩
    · exact (hgate hi).symm

end Consequences

end AndInverter.Network
