import Mathlib.Logic.Relation
import Mathlib.Tactic
import AndInverter.Network.Basic

/-!
The live graph of a network: which live gate reads from which node.

* `Network.shape` is what the graph is made of, and every view of the graph is read off it;
* `Network.Gate`: a live gate with its fan-ins; `Network.Reads` and `Network.DependsOn`: one
  fan-in, and the whole cone below a node;
* `Network.Acyclic`: no node depends on itself by a way that leaves it, and
  `Network.ReachesCycle`: a node that depends on one that does;
* `Network.Acyclic.induction`: induction over the cone of a node, fan-ins first.
-/

namespace AndInverter.Network

open Relation

variable {n m : Network} {g v : Nat} {a b c d s : Signal} {k : NodeKind}

/-! ### What a node is -/

/-- What a node computes, and whether it was retired. -/
def shape (n : Network) (v : Nat) : Option (NodeKind × Bool) :=
  (n.slot? v).map fun s => (s.kind, s.dead)

/-- What a node computes, dead or alive. -/
def kind? (n : Network) (v : Nat) : Option NodeKind := (n.shape v).map (·.1)

/-- The fan-ins of a live gate. -/
def operands? (n : Network) (v : Nat) : Option (Signal × Signal) :=
  (n.shape v).bind fun (kind, dead) => if dead then none else kind.fanIns?

/-- **A live gate** with its fan-ins. -/
def Gate (n : Network) (g : Nat) (a b : Signal) : Prop := n.operands? g = some (a, b)

lemma isLive_iff : n.isLive v = true ↔ ∃ k, n.shape v = some (k, false) := by
  simp only [isLive, shape]
  cases h : n.slot? v with
  | none => simp
  | some s => simp

lemma isDead_iff : n.isDead v = true ↔ ∃ k, n.shape v = some (k, true) := by
  simp only [isDead, shape]
  cases h : n.slot? v with
  | none => simp
  | some s => simp

lemma not_isLive_of_isDead (h : n.isDead v = true) : ¬ n.isLive v = true := by
  obtain ⟨k, hk⟩ := isDead_iff.mp h
  rw [isLive_iff, hk]
  simp

lemma gate_iff : n.Gate g a b ↔ n.shape g = some (.gate a b, false) := by
  simp only [Gate, operands?, Option.bind_eq_some_iff]
  constructor
  · rintro ⟨⟨kind, dead⟩, hs, h⟩
    cases dead <;> cases kind <;> simp_all [NodeKind.fanIns?]
  · intro h
    exact ⟨_, h, by simp [NodeKind.fanIns?]⟩

lemma isLiveGate_iff : n.isLiveGate g = true ↔ ∃ a b, n.Gate g a b := by
  simp only [gate_iff, isLiveGate, shape, Slot.isLiveGate, Slot.isGate, Slot.fanIns?]
  cases h : n.slot? g with
  | none => simp
  | some s => cases hk : s.kind <;> cases hd : s.dead <;> simp [NodeKind.fanIns?, hk, hd]

lemma Gate.isLive (h : n.Gate g a b) : n.isLive g = true :=
  isLive_iff.mpr ⟨_, gate_iff.mp h⟩

lemma Gate.unique (h : n.Gate g a b) (h' : n.Gate g c d) : a = c ∧ b = d := by
  rw [Gate] at h h'
  rw [h] at h'
  simpa using h'

lemma Gate.fanIns? (h : n.Gate g a b) : n.fanIns? g = some (a, b) := by
  rw [gate_iff, shape, Option.map_eq_some_iff] at h
  obtain ⟨s, hs, hk⟩ := h
  simp only [Prod.mk.injEq] at hk
  simp [Network.fanIns?, hs, Slot.fanIns?, hk.1, NodeKind.fanIns?]

/-- A live node with fan-ins is a live gate. -/
lemma gate_of_fanIns? (h : n.fanIns? g = some (a, b)) (hl : n.isLive g = true) :
    n.Gate g a b := by
  obtain ⟨k, hk⟩ := isLive_iff.mp hl
  rw [shape, Option.map_eq_some_iff] at hk
  obtain ⟨s, hs, hk⟩ := hk
  simp only [Prod.mk.injEq] at hk
  rw [Network.fanIns?, hs, Option.bind_some, Slot.fanIns?, hk.1] at h
  rw [gate_iff, shape, hs, Option.map_some, hk.1, hk.2]
  cases k <;> simp_all [NodeKind.fanIns?]

lemma lt_size_of_slot? {s : Slot} (h : n.slot? v = some s) : v < n.size := by
  by_contra hv
  rw [(n.slot?_eq_none_iff v).mpr (by omega)] at h
  cases h

lemma lt_size_of_shape {p : NodeKind × Bool} (h : n.shape v = some p) : v < n.size := by
  obtain ⟨s, hs, -⟩ := Option.map_eq_some_iff.mp h
  exact lt_size_of_slot? hs

lemma lt_size_of_isLive (h : n.isLive v = true) : v < n.size := by
  obtain ⟨k, hk⟩ := isLive_iff.mp h
  exact lt_size_of_shape hk

lemma Gate.lt_size (h : n.Gate g a b) : g < n.size := lt_size_of_isLive h.isLive

lemma mem_gates : g ∈ n.gates ↔ ∃ a b, n.Gate g a b := by
  rw [gates, List.mem_filter, isLiveGate_iff, List.mem_range]
  exact ⟨fun h => h.2, fun h => ⟨h.elim fun _ h => h.elim fun _ h => h.lt_size, h⟩⟩

lemma nodup_gates (n : Network) : n.gates.Nodup := List.nodup_range.filter _

lemma isLive_congr (h : n.shape = m.shape) : n.isLive v = m.isLive v := by
  rw [Bool.eq_iff_iff, isLive_iff, isLive_iff, h]

lemma operands?_congr (h : n.shape = m.shape) : n.operands? = m.operands? := by
  funext v
  rw [operands?, operands?, h]

lemma gate_congr (h : n.shape = m.shape) : n.Gate g a b ↔ m.Gate g a b := by
  rw [gate_iff, gate_iff, h]

/-! ### Reading and depending -/

/-- A live gate reads from a node. -/
def Reads (n : Network) (g v : Nat) : Prop := ∃ a b, n.Gate g a b ∧ (a.node = v ∨ b.node = v)

/-- **The cone**: a node depends on itself and on all that its fan-ins depend on. -/
def DependsOn (n : Network) : Nat → Nat → Prop := ReflTransGen n.Reads

/-- No way along fan-ins leads from a node back to it. -/
def Acyclic (n : Network) : Prop := ∀ v, ¬ TransGen n.Reads v v

lemma Gate.reads_left (h : n.Gate g a b) : n.Reads g a.node := ⟨a, b, h, .inl rfl⟩

lemma Gate.reads_right (h : n.Gate g a b) : n.Reads g b.node := ⟨a, b, h, .inr rfl⟩

lemma Reads.isLive (h : n.Reads g v) : n.isLive g = true := by
  obtain ⟨a, b, hg, -⟩ := h
  exact hg.isLive

lemma Reads.isLiveGate (h : n.Reads g v) : n.isLiveGate g = true := by
  obtain ⟨a, b, hg, -⟩ := h
  exact isLiveGate_iff.mpr ⟨a, b, hg⟩

lemma Reads.lt_size (h : n.Reads g v) : g < n.size := by
  obtain ⟨a, b, hg, -⟩ := h
  exact hg.lt_size

/-- Fewer reads make no new cycle. -/
lemma Acyclic.mono (h : n.Acyclic) (hsub : ∀ g v, m.Reads g v → n.Reads g v) : m.Acyclic :=
  fun v hv => h v (TransGen.mono hsub v v hv)

/-- What is no live gate depends on nothing else. -/
lemma DependsOn.eq_of_not_gate (h : n.DependsOn g v) (hg : ¬ n.isLiveGate g = true) : g = v := by
  rcases h.cases_head with heq | ⟨u, ⟨a, b, hgate, -⟩, -⟩
  · exact heq
  · exact absurd (isLiveGate_iff.mpr ⟨a, b, hgate⟩) hg

/-- A network is acyclic if on every cycle the fan-ins are of smaller rank than their gate. -/
lemma acyclic_of_rank (r : Nat → Nat) (h : ∀ g v, n.Reads g v → n.DependsOn v g → r v < r g) :
    n.Acyclic := by
  have hlt : ∀ {u w : Nat}, TransGen n.Reads u w → n.DependsOn w u → r w < r u := by
    intro u w huw
    induction huw using TransGen.head_induction_on with
    | single huw => exact fun hback => h _ _ huw hback
    | head hux hxw ih =>
        intro hback
        exact (ih (hback.tail hux)).trans (h _ _ hux (hxw.to_reflTransGen.trans hback))
  exact fun v hv => absurd (hlt hv .refl) (lt_irrefl _)

/-- One more fan-in makes no cycle if the node does not depend on the gate. -/
lemma Acyclic.of_fanIn {u : Nat} (h : n.Acyclic)
    (hreads : ∀ i v, m.Reads i v → n.Reads i v ∨ (i = g ∧ v = u)) (hu : ¬ n.DependsOn u g) :
    m.Acyclic := by
  have hway : ∀ {x y : Nat}, TransGen m.Reads x y →
      TransGen n.Reads x y ∨ (n.DependsOn x g ∧ n.DependsOn u y) := by
    intro x y hxy
    induction hxy with
    | single hxy =>
        rcases hreads _ _ hxy with hxy | ⟨rfl, rfl⟩
        · exact .inl (.single hxy)
        · exact .inr ⟨.refl, .refl⟩
    | tail _ hlast ih =>
        rcases hreads _ _ hlast with hlast | ⟨rfl, rfl⟩
        · exact ih.imp (·.tail hlast) fun ⟨hx, hy⟩ => ⟨hx, hy.tail hlast⟩
        · rcases ih with hx | ⟨-, hug⟩
          · exact .inr ⟨hx.to_reflTransGen, .refl⟩
          · exact absurd hug hu
  intro v hv
  rcases hway hv with hv | ⟨hvg, huv⟩
  · exact h v hv
  · exact hu (huv.trans hvg)

/-! ### Finite cones -/

/-- No way along fan-ins that starts at the node is as long as the bound. -/
def Shallow (n : Network) : (bound : Nat) → Nat → Prop
  | 0, _ => False
  | bound + 1, v => ∀ u, n.Reads v u → n.Shallow bound u

/-- From a node that is not shallow starts a way as long as the bound. -/
lemma exists_chain_of_not_shallow {bound : Nat} (h : ¬ n.Shallow bound v) :
    ∃ way : List Nat, way.length = bound ∧ (v :: way).IsChain n.Reads := by
  induction bound generalizing v with
  | zero => exact ⟨[], rfl, List.isChain_singleton v⟩
  | succ bound ih =>
      simp only [Shallow, not_forall] at h
      obtain ⟨u, hvu, hu⟩ := h
      obtain ⟨way, hlen, hway⟩ := ih hu
      exact ⟨u :: way, by simp [hlen], List.isChain_cons_cons.mpr ⟨hvu, hway⟩⟩

/-- All nodes of a way but its last are positions of the network. -/
lemma lt_size_of_chain {way : List Nat} (h : way.IsChain n.Reads) :
    ∀ u ∈ way.dropLast, u < n.size := by
  induction way with
  | nil => simp
  | cons x way ih =>
      cases way with
      | nil => simp
      | cons y way =>
          obtain ⟨hxy, hrest⟩ := List.isChain_cons_cons.mp h
          intro u hu
          rw [List.dropLast_cons_cons, List.mem_cons] at hu
          rcases hu with rfl | hu
          · exact hxy.lt_size
          · exact ih hrest u hu

/-- A way with more steps than there are nodes meets some node twice. -/
lemma exists_cycle_of_chain {way : List Nat} (h : way.IsChain n.Reads)
    (hlong : n.size + 1 < way.length) : ∃ u ∈ way, TransGen n.Reads u u := by
  by_contra hno
  simp only [not_exists, not_and] at hno
  have hpair : way.Pairwise (TransGen n.Reads) := (h.imp fun _ _ => TransGen.single).pairwise
  have hne : way.Pairwise (· ≠ ·) := by
    refine hpair.imp_of_mem ?_
    rintro x _ hx - hxy rfl
    exact hno x hx hxy
  have hnodup : way.dropLast.Nodup := hne.sublist (List.dropLast_sublist _)
  have hsub : way.dropLast ⊆ List.range n.size :=
    fun u hu => List.mem_range.mpr (lt_size_of_chain h u hu)
  have hle := (hnodup.subperm hsub).length_le
  rw [List.length_dropLast, List.length_range] at hle
  omega

/-- A node depends on all that a way from it meets. -/
lemma dependsOn_of_chain {u : Nat} {way : List Nat} (h : (v :: way).IsChain n.Reads)
    (hu : u ∈ v :: way) : n.DependsOn v u := by
  induction way generalizing v with
  | nil => exact List.mem_singleton.mp hu ▸ .refl
  | cons w way ih =>
      obtain ⟨hvw, hrest⟩ := List.isChain_cons_cons.mp h
      rcases List.mem_cons.mp hu with rfl | hu
      · exact .refl
      · exact (ih hrest hu).head hvw

/-- **A cycle in the cone**: by following fan-ins, one gets from a node to one that depends on
itself. -/
def ReachesCycle (n : Network) (v : Nat) : Prop :=
  ∃ u, n.DependsOn v u ∧ TransGen n.Reads u u

/-- A network is acyclic if no live node reaches a cycle. -/
lemma acyclic_iff : n.Acyclic ↔ ∀ v, n.isLive v = true → ¬ n.ReachesCycle v := by
  constructor
  · rintro h v - ⟨u, -, hcycle⟩
    exact h u hcycle
  · intro h u hcycle
    obtain ⟨v, hread, -⟩ := TransGen.head'_iff.mp hcycle
    exact h u hread.isLive ⟨u, .refl, hcycle⟩

/-- Below a node that is not shallow there is a cycle. -/
lemma reachesCycle_of_not_shallow (h : ¬ n.Shallow (n.size + 1) v) : n.ReachesCycle v := by
  obtain ⟨way, hlen, hway⟩ := exists_chain_of_not_shallow h
  obtain ⟨u, hu, hcycle⟩ := exists_cycle_of_chain hway (by rw [List.length_cons, hlen]; omega)
  exact ⟨u, dependsOn_of_chain hway hu, hcycle⟩

/-- In an acyclic network no way is longer than there are nodes. -/
lemma Acyclic.shallow (h : n.Acyclic) (v : Nat) : n.Shallow (n.size + 1) v := by
  by_contra hv
  obtain ⟨u, -, hu⟩ := reachesCycle_of_not_shallow hv
  exact h u hu

/-- **Induction over the cone of a node**, fan-ins first. -/
theorem Acyclic.induction (h : n.Acyclic) {P : Nat → Prop}
    (hstep : ∀ v, (∀ u, n.Reads v u → P u) → P v) (v : Nat) : P v := by
  have key : ∀ bound v, n.Shallow bound v → P v := by
    intro bound
    induction bound with
    | zero => exact fun _ hv => hv.elim
    | succ bound ih => exact fun v hv => hstep v fun u hu => ih u (hv u hu)
  exact key _ v (h.shallow v)

end AndInverter.Network
