import AndInverter.Proofs.Conjunction
import AndInverter.Proofs.Interpretation
import AndInverter.Proofs.Network.Retirement

/-!
Moving the uses of a node to a signal.  A consumer either gets new fan-ins, or it is left as
it is and is to be replaced in turn.

* `Network.Swap` is a consumer with its fan-ins before and after, `Network.Moves` is what
  moving uses does to the graph, and what it means;
* `replaceInGate_cases`: what can happen to one consumer;
* `replaceInGates_spec`, `replaceInOutputs_spec`: what happens to all of them.
-/

namespace AndInverter

namespace Network

variable {n m l : Network} {g u v old : Nat} {a b s new kept moved : Signal} {key : AndKey}
  {pins : Multiset Nat}

/-- A consumer of a node: its fan-ins, the one it keeps, and what the other one becomes. -/
structure Swap (n : Network) (g old : Nat) (new a b kept moved : Signal) : Prop where
  gate : n.Gate g a b
  ends : (a.node = old ∧ kept = b ∧ moved = new.complementIf a.complemented) ∨
    (b.node = old ∧ kept = a ∧ moved = new.complementIf b.complemented)

/-- **Moving uses** of a node to a signal: gates and outputs that refer to the node refer to
the signal instead, and nothing else happens to the graph. -/
structure Moves (n m : Network) (old : Nat) (new : Signal) : Prop where
  size : m.size = n.size
  inputs : m.inputs = n.inputs
  isLive : ∀ v, m.isLive v = n.isLive v
  isLiveGate : ∀ v, m.isLiveGate v = n.isLiveGate v
  decays : n.Decays m
  /-- Only the node itself loses uses. -/
  fanout_le : ∀ v, v ≠ old → n.fanout v ≤ m.fanout v
  reads : ∀ g v, m.Reads g v → n.Reads g v ∨ n.Reads g old ∧ v = new.node
  outputs : ∀ s ∈ m.outputs, s ∈ n.outputs ∨ s.node = new.node
  /-- Values under which the node and the signal agree stay as they are. -/
  models : ∀ {M : Type} {A : Connectives M} {α φ : Nat → M}, A.Lawful → A.Models α φ n →
    φ old = A.read φ new → A.Models α φ m ∧
      m.outputs.toList.map (A.read φ) = n.outputs.toList.map (A.read φ)

lemma Moves.refl (n : Network) (old : Nat) (new : Signal) : n.Moves n old new :=
  ⟨rfl, rfl, fun _ => rfl, fun _ => rfl, .refl n, fun _ _ => le_rfl, fun _ _ h => .inl h,
    fun _ h => .inl h, fun _ hφ _ => ⟨hφ, rfl⟩⟩

/-- No new gate reads from the node. -/
lemma Moves.reads_old (h : n.Moves m old new) (hg : m.Reads g old) : n.Reads g old :=
  (h.reads g old hg).elim id And.left

lemma Moves.trans (h : n.Moves m old new) (h' : m.Moves l old new) : n.Moves l old new where
  size := h'.size.trans h.size
  inputs := h'.inputs.trans h.inputs
  isLive v := (h'.isLive v).trans (h.isLive v)
  isLiveGate v := (h'.isLiveGate v).trans (h.isLiveGate v)
  decays := h.decays.trans h'.decays
  fanout_le v hv := (h.fanout_le v hv).trans (h'.fanout_le v hv)
  reads g v hg := by
    rcases h'.reads g v hg with hg | ⟨hold, hv⟩
    · exact h.reads g v hg
    · exact .inr ⟨h.reads_old hold, hv⟩
  outputs s hs := (h'.outputs s hs).elim (h.outputs s) .inr
  models hA hφ heq := by
    obtain ⟨hm, hout⟩ := h.models hA hφ heq
    obtain ⟨hl, hout'⟩ := h'.models hA hm heq
    exact ⟨hl, hout'.trans hout⟩

/-- Moving uses leaves no gate dangling but the node itself. -/
lemma Moves.dangling (h : n.Moves m old new) (hv : m.Dangling v) (hne : v ≠ old) :
    n.Dangling v :=
  ⟨(h.isLiveGate v).symm.trans hv.1, Nat.eq_zero_of_le_zero (hv.2 ▸ h.fanout_le v hne)⟩

section Swap

variable (h : n.Swap g old new a b kept moved)

include h

lemma Swap.reads : n.Reads g old := by
  refine ⟨a, b, h.gate, ?_⟩
  rcases h.ends with ⟨ha, -⟩ | ⟨hb, -⟩
  · exact .inl ha
  · exact .inr hb

lemma Swap.node_moved : moved.node = new.node := by
  rcases h.ends with ⟨-, -, rfl⟩ | ⟨-, -, rfl⟩ <;> rfl

lemma Swap.node_kept : kept.node = a.node ∨ kept.node = b.node := by
  rcases h.ends with ⟨-, rfl, -⟩ | ⟨-, rfl, -⟩
  · exact .inr rfl
  · exact .inl rfl

lemma Swap.reads_kept : n.Reads g kept.node := by
  rcases h.node_kept with hk | hk
  · exact hk ▸ h.gate.reads_left
  · exact hk ▸ h.gate.reads_right

lemma Swap.kept_ne (hn : n.Consistent pins) : kept.node ≠ old := by
  have hne := hn.fanIns_ne h.gate
  rcases h.ends with ⟨rfl, rfl, -⟩ | ⟨rfl, rfl, -⟩
  · exact hne.symm
  · exact hne

/-- The uses of the fan-ins before. -/
lemma Swap.pairUses (v : Nat) : Network.pairUses v (a, b)
    = (if v = kept.node then 1 else 0) + if v = old then 1 else 0 := by
  simp only [Network.pairUses, eq_comm (a := v)]
  rcases h.ends with ⟨ha, hk, -⟩ | ⟨hb, hk, -⟩
  · rw [ha, hk, Nat.add_comm]
  · rw [hb, hk]

/-- Where the node has the value of the signal, the consumer keeps its value. -/
lemma Swap.meet {M : Type} {A : Connectives M} {φ : Nat → M} (hA : A.Lawful)
    (heq : φ old = A.read φ new) :
    A.meet (A.read φ a) (A.read φ b) = A.meet (A.read φ kept) (A.read φ moved) := by
  rcases h.ends with ⟨rfl, rfl, rfl⟩ | ⟨rfl, rfl, rfl⟩
  · rw [← Connectives.read_of_eq hA heq, hA.meet_comm]
  · rw [← Connectives.read_of_eq hA heq]

/-- Then the consumer has the value of its new conjunction. -/
lemma Swap.value {M : Type} {A : Connectives M} {α φ : Nat → M} (hA : A.Lawful)
    (hφ : A.Models α φ n) (heq : φ old = A.read φ new) :
    φ g = A.ofForm φ (conjunction kept moved) :=
  calc φ g = A.meet (A.read φ a) (A.read φ b) := hφ.gate g a b h.gate
    _ = A.meet (A.read φ kept) (A.read φ moved) := h.meet hA heq
    _ = A.ofForm φ (conjunction kept moved) :=
        (Connectives.ofForm_conjunction hA hφ.zero kept moved).symm

end Swap

/-- A consumer that took the new conjunction reads the signal, and no other gate changed. -/
lemma Swap.reads_after {i v : Nat} (h : n.Swap g old new a b kept moved) (hd : DiffersAt n m g)
    (hform : conjunction kept moved = .gate key) (hg : m.Gate g key.lhs key.rhs)
    (hread : m.Reads i v) : n.Reads i v ∨ i = g ∧ v = new.node := by
  obtain ⟨c, d, hi, hv⟩ := hread
  by_cases hig : i = g
  · subst hig
    obtain ⟨rfl, rfl⟩ := hi.unique hg
    rcases node_of_conjunction_gate hform (hv.imp Eq.symm Eq.symm) with rfl | rfl
    · exact .inl h.reads_kept
    · exact .inr ⟨rfl, h.node_moved⟩
  · exact .inl ⟨c, d, (hd.gate hig).mp hi, hv⟩

/-- The operands of a gate that a conjunction takes are its own. -/
lemma nodes_of_conjunction_gate {f g : Signal} (h : conjunction f g = .gate key) (v : Nat) :
    pairUses v (key.lhs, key.rhs)
      = (if v = f.node then 1 else 0) + if v = g.node then 1 else 0 := by
  simp only [pairUses, eq_comm (a := v)]
  rcases key_of_conjunction h with rfl | rfl
  · rfl
  · exact Nat.add_comm _ _

/-- **A gate gets other fan-ins**, with a key that no other gate has. -/
lemma Consistent.rewired (h : n.Consistent pins) (hg : n.Gate g a b) (hd : DiffersAt n m g)
    (hg' : m.Gate g key.lhs key.rhs)
    (hhash : ∀ k : AndKey, m.hash[k]?
      = if k = key then some g else if k = ⟨a, b⟩ then none else n.hash[k]?)
    (hfree : ∀ other, n.hash[key]? = some other → other = g)
    (hord : 0 < key.lhs.node ∧ key.lhs.node < key.rhs.node)
    (hlive : n.isLive key.lhs.node = true ∧ n.isLive key.rhs.node = true)
    (hgates : m.liveGates = n.liveGates)
    (hfanout : ∀ v, m.fanout v + pairUses v (a, b)
      = n.fanout v + pairUses v (key.lhs, key.rhs)) : m.Consistent pins := by
  have hisLive := hd.isLive_of_gate hg hg'
  have hkind : n.kind? g = some (.gate a b) := by rw [kind?, gate_iff.mp hg, Option.map_some]
  have hkind' : m.kind? g = some (.gate key.lhs key.rhs) := by
    rw [kind?, gate_iff.mp hg', Option.map_some]
  constructor
  case constant_iff =>
    intro v
    rw [← h.constant_iff v]
    by_cases hv : v = g
    · simp [hv, hkind, hkind']
    · rw [hd.kind? hv]
  case input_iff =>
    intro i v
    rw [hd.inputs, h.input_iff i v]
    by_cases hv : v = g
    · simp [hv, hkind, hkind']
    · rw [hd.kind? hv]
  case permanent =>
    intro v k hv
    by_cases hvg : v = g
    · rw [hvg, gate_iff.mp hg'] at hv
      cases hv
    · exact h.permanent v k (hd.shape v hvg ▸ hv)
  case ordered =>
    intro i c d hi
    by_cases hig : i = g
    · subst hig
      obtain ⟨rfl, rfl⟩ := hi.unique hg'
      exact hord
    · exact h.ordered i c d ((hd.gate hig).mp hi)
  case fanIns_live =>
    intro i c d hi
    rw [hisLive, hisLive]
    by_cases hig : i = g
    · subst hig
      obtain ⟨rfl, rfl⟩ := hi.unique hg'
      exact hlive
    · exact h.fanIns_live i c d ((hd.gate hig).mp hi)
  case outputs_live =>
    intro s hs
    rw [hisLive]
    exact h.outputs_live s (hd.outputs ▸ hs)
  case pins_live =>
    intro v hv
    rw [hisLive]
    exact h.pins_live v hv
  case hash_iff =>
    intro k i
    refine h.hash_iff_of_off (fun _ => hd.operands?) ?_ ?_ ?_ k i
    · intro k hk
      obtain rfl := hg'.key_iff.mp hk
      rw [hhash, if_pos rfl]
      exact ⟨rfl, hfree⟩
    · intro k hk hk'
      rw [hhash, if_neg (hg'.key_iff.not.mp hk'), if_pos (hg.key_iff.mp hk)]
    · intro k hk hk'
      rw [hhash, if_neg (hg'.key_iff.not.mp hk'), if_neg (hg.key_iff.not.mp hk)]
  case liveGates_eq =>
    have hlen := hd.length_gates hg.lt_size
    rw [show n.operands? g = some (a, b) from hg,
      show m.operands? g = some (key.lhs, key.rhs) from hg'] at hlen
    rw [hgates, h.liveGates_eq]
    simp only [Option.map_some, Option.getD_some] at hlen
    omega
  case fanout_eq =>
    intro v hv
    have huses := hd.uses hg.lt_size v
    rw [show n.operands? g = some (a, b) from hg,
      show m.operands? g = some (key.lhs, key.rhs) from hg'] at huses
    simp only [Option.map_some, Option.getD_some] at huses
    have hf := h.fanout_eq v ((hisLive v).symm.trans hv)
    have := hfanout v
    omega

end Network

open Network

variable {n m : Network} {g old : Nat} {a b s new : Signal} {key : AndKey} {pins : Multiset Nat}

/-! ### One consumer -/

/-- A gate is taken out of the structural hash and entered again with other fan-ins. -/
lemma rewire_effect {node : Nat} (hg : n.Gate g a b)
    (hrun : Edit.rewire g a b key old node n = .ok () m) :
    DiffersAt n m g ∧ m.Gate g key.lhs key.rhs ∧
      (∀ k : AndKey, m.hash[k]? = if k = key then some g
        else if k = ⟨a, b⟩ ∧ n.hash[(⟨a, b⟩ : AndKey)]? = some g then none else n.hash[k]?) ∧
      m.liveGates = n.liveGates ∧
      ∀ u, m.fanout u + (if u = old then 1 else 0) = n.fanout u + if u = node then 1 else 0 := by
  simp only [Edit.rewire, bind_eq_ok, Edit.modifySlot_eq_ok, Edit.update_eq_ok] at hrun
  obtain ⟨_, n₁, hunhash, _, _, ⟨-, rfl⟩, _, n₃, hn₃, _, n₄, hlow, _, n₅, hraise, hm⟩ := hrun
  obtain ⟨hash, rfl, hhash⟩ := unhash_spec hunhash
  obtain ⟨hsame₄, -, hf₄⟩ := lowerFanout_spec hlow
  obtain ⟨hsame₅, -, hf₅⟩ := raiseFanout_spec hraise
  have hsame : SameGraph n₃ m := (hsame₄.trans hsame₅).trans (hm ▸ ⟨⟨rfl, rfl, rfl, rfl, rfl⟩, rfl⟩)
  obtain ⟨slot, hslot, hkind⟩ := Option.map_eq_some_iff.mp (gate_iff.mp hg)
  rw [Prod.mk.injEq] at hkind
  have hdiffers : DiffersAt n n₃ g := by
    subst hn₃
    exact ⟨size_modifySlot n _ _, fun i hi => (shape_modifySlot n g _ i).trans
      (if_neg (Ne.symm hi)), rfl, rfl⟩
  have hshape : n₃.shape g = some (.gate key.lhs key.rhs, false) := by
    subst hn₃
    refine (shape_modifySlot n g _ g).trans ?_
    rw [if_pos rfl, hslot, Option.map_some, hkind.2]
  have hfanout : ∀ u, n₃.fanout u = n.fanout u := by
    intro u
    subst hn₃
    refine (fanout_modifySlot n g _ u).trans ?_
    by_cases hu : g = u
    · subst hu
      rw [if_pos rfl, hslot, Option.map_some, Option.getD_some, fanout_of_slot? hslot]
    · rw [if_neg hu]
  refine ⟨hdiffers.trans_sameGraph hsame, ?_, ?_, ?_, ?_⟩
  · rw [gate_iff, hsame.shape]
    exact hshape
  · intro k
    rw [hsame.hash]
    subst hn₃
    refine Std.ExtTreeMap.getElem?_insert.trans ?_
    change (if compare key k = .eq then some g else hash[k]?) = _
    rw [hhash k]
    simp only [Std.LawfulEqCmp.compare_eq_iff_eq, eq_comm (a := key)]
  · rw [hsame.liveGates]
    subst hn₃
    rfl
  · intro u
    have h₄ := hf₄ u
    have h₅ := hf₅ u
    rw [hfanout u] at h₄
    have hmu : m.fanout u = n₅.fanout u := by
      subst hm
      rfl
    omega

variable {kept moved : Signal}

/-- To give a consumer its new fan-ins moves a use. -/
lemma Network.Swap.moves (hswap : n.Swap g old new a b kept moved) (h : n.Consistent pins)
    (hform : conjunction kept moved = .gate key) (hnew : n.isLive new.node = true)
    (hd : DiffersAt n m g) (hg' : m.Gate g key.lhs key.rhs)
    (hfanout : ∀ u, m.fanout u + (if u = old then 1 else 0)
      = n.fanout u + if u = new.node then 1 else 0) : n.Moves m old new := by
  have hg := hswap.gate
  have hisLive := hd.isLive_of_gate hg hg'
  refine ⟨hd.size, hd.inputs, hisLive, ?_, ⟨?_, ?_⟩, ?_, ?_, fun s hs => .inl (hd.outputs ▸ hs), ?_⟩
  · intro v
    rw [Bool.eq_iff_iff, isLiveGate_iff, isLiveGate_iff]
    by_cases hv : v = g
    · rw [hv]
      exact ⟨fun _ => ⟨_, _, hg⟩, fun _ => ⟨_, _, hg'⟩⟩
    · simp only [hd.gate hv]
  · intro v hv
    have hne : ∀ w, n.isLive w = true → v ≠ w := by
      rintro w hw rfl
      exact not_isLive_of_isDead hv hw
    have := hfanout v
    rw [if_neg (hne _ (h.isLive_of_reads hswap.reads)), if_neg (hne _ hnew)] at this
    exact ⟨(hd.isDead (hne g hg.isLive)).trans hv, this⟩
  · intro v hv
    exact .inl ((hisLive v).trans hv)
  · intro v hv
    have := hfanout v
    rw [if_neg hv] at this
    omega
  · intro i v hread
    rcases hswap.reads_after hd hform hg' hread with hread | ⟨rfl, rfl⟩
    · exact .inl hread
    · exact .inr ⟨hswap.reads, rfl⟩
  · intro M A α φ hA hφ heq
    refine ⟨⟨hφ.zero, fun i v hv => hφ.input i v (hd.inputs ▸ hv), ?_⟩, by rw [hd.outputs]⟩
    intro i c d hi
    by_cases hig : i = g
    · subst hig
      obtain ⟨rfl, rfl⟩ := hi.unique hg'
      calc φ i = A.ofForm φ (conjunction kept moved) := hswap.value hA hφ heq
        _ = A.meet (A.read φ key.lhs) (A.read φ key.rhs) := by rw [hform]; rfl
    · exact hφ.gate i c d ((hd.gate hig).mp hi)

/-- **A consumer is rewired**: the network stays consistent, and a use moved. -/
lemma rewire_spec (h : n.Consistent pins) (hswap : n.Swap g old new a b kept moved)
    (hform : conjunction kept moved = .gate key)
    (hfree : ∀ other, n.hash[key]? = some other → other = g)
    (hnew : n.isLive new.node = true)
    (hrun : Edit.rewire g a b key old new.node n = .ok () m) :
    m.Consistent pins ∧ n.Moves m old new ∧ m.Gate g key.lhs key.rhs := by
  have hg := hswap.gate
  obtain ⟨hd, hg', hhash, hgates, hfanout⟩ := rewire_effect hg hrun
  simp only [(h.hash_iff ⟨a, b⟩ g).mpr hg, and_true] at hhash
  have huses : ∀ v, m.fanout v + pairUses v (a, b)
      = n.fanout v + pairUses v (key.lhs, key.rhs) := by
    intro v
    have := hfanout v
    rw [hswap.pairUses, nodes_of_conjunction_gate hform, hswap.node_moved]
    omega
  have hlive : ∀ v, v = key.lhs.node ∨ v = key.rhs.node → n.isLive v = true := by
    intro v hv
    rcases node_of_conjunction_gate hform hv with rfl | rfl
    · exact h.isLive_of_reads hswap.reads_kept
    · exact hswap.node_moved ▸ hnew
  refine ⟨?_, hswap.moves h hform hnew hd hg' hfanout, hg'⟩
  exact h.rewired hg hd hg' hhash hfree (lhs_lt_rhs_of_gate hform)
    ⟨hlive _ (.inl rfl), hlive _ (.inr rfl)⟩ hgates huses

lemma replaceFanIn_cases {result : Option Signal}
    (hrun : Edit.replaceFanIn g a b kept old moved n = .ok result m) :
    (∃ s, conjunction kept moved = .folded s ∧ result = some s ∧ m = n) ∨
    (∃ key other, conjunction kept moved = .gate key ∧ n.hash[key]? = some other ∧
      other ≠ g ∧ result = some (.ofNode other) ∧ m = n) ∨
    ∃ key, conjunction kept moved = .gate key ∧
      (∀ other, n.hash[key]? = some other → other = g) ∧ result = none ∧
        Edit.rewire g a b key old moved.node n = .ok () m := by
  have hrewire : ∀ key, (do Edit.rewire g a b key old moved.node; return none : Edit _) n
      = .ok result m → result = none ∧ Edit.rewire g a b key old moved.node n = .ok () m := by
    intro key hdo
    simp only [bind_eq_ok, pure_eq_ok] at hdo
    obtain ⟨_, _, hre, rfl, rfl⟩ := hdo
    exact ⟨rfl, hre⟩
  cases hform : conjunction kept moved with
  | folded s =>
      simp only [Edit.replaceFanIn, hform, pure_eq_ok] at hrun
      obtain ⟨rfl, rfl⟩ := hrun
      exact .inl ⟨s, rfl, rfl, rfl⟩
  | gate key =>
      simp only [Edit.replaceFanIn, hform, bind_eq_ok, Edit.view_eq_ok] at hrun
      obtain ⟨_, _, ⟨rfl, rfl⟩, hrun⟩ := hrun
      cases hkey : n.hash[key]? with
      | none =>
          rw [hkey] at hrun
          exact .inr (.inr ⟨key, rfl, by simp [hkey], hrewire key hrun⟩)
      | some other =>
          simp only [hkey] at hrun
          split_ifs at hrun with hog
          · refine .inr (.inr ⟨key, rfl, ?_, hrewire key hrun⟩)
            intro other' h'
            rw [hkey] at h'
            exact (Option.some.inj h').symm.trans hog
          · obtain ⟨rfl, rfl⟩ := pure_eq_ok.mp hrun
            exact .inr (.inl ⟨key, other, rfl, hkey, hog, rfl, rfl⟩)

/-- **What can happen to a consumer**: it has nothing to replace, or its new conjunction folds
or is taken, or it is rewired. -/
lemma replaceInGate_cases {result : Option Signal} (hl : n.isLive g = true)
    (hrun : Edit.replaceInGate g old new n = .ok result m) :
    (¬ n.Reads g old ∧ result = none ∧ m = n) ∨
    ∃ a b kept moved, n.Swap g old new a b kept moved ∧
      ((∃ s, conjunction kept moved = .folded s ∧ result = some s ∧ m = n) ∨
        (∃ key other, conjunction kept moved = .gate key ∧ n.hash[key]? = some other ∧
          other ≠ g ∧ result = some (.ofNode other) ∧ m = n) ∨
        ∃ key, conjunction kept moved = .gate key ∧
          (∀ other, n.hash[key]? = some other → other = g) ∧ result = none ∧
            Edit.rewire g a b key old new.node n = .ok () m) := by
  simp only [Edit.replaceInGate, bind_eq_ok, Edit.slot_eq_ok] at hrun
  obtain ⟨s, _, ⟨hs, rfl⟩, hrun⟩ := hrun
  have hfanIns : n.fanIns? g = s.fanIns? := by rw [Network.fanIns?, hs, Option.bind_some]
  cases hfan : s.fanIns? with
  | none =>
      simp only [hfan, pure_eq_ok] at hrun
      obtain ⟨rfl, rfl⟩ := hrun
      refine .inl ⟨?_, rfl, rfl⟩
      rintro ⟨a, b, hg, -⟩
      rw [hg.fanIns?, hfan] at hfanIns
      cases hfanIns
  | some p =>
      obtain ⟨a, b⟩ := p
      have hg : n.Gate g a b := gate_of_fanIns? (hfanIns.trans hfan) hl
      simp only [hfan] at hrun
      split_ifs at hrun with ha hb
      · exact .inr ⟨a, b, _, _, ⟨hg, .inl ⟨ha, rfl, rfl⟩⟩, replaceFanIn_cases hrun⟩
      · exact .inr ⟨a, b, _, _, ⟨hg, .inr ⟨hb, rfl, rfl⟩⟩, replaceFanIn_cases hrun⟩
      · obtain ⟨rfl, rfl⟩ := pure_eq_ok.mp hrun
        refine .inl ⟨?_, rfl, rfl⟩
        rintro ⟨c, d, hg', hv⟩
        obtain ⟨rfl, rfl⟩ := hg'.unique hg
        rcases hv with hv | hv
        · exact ha hv
        · exact hb hv

/-- **A request that follows from a replacement**: it is for a consumer of the replaced node,
and it says no more than what the replacement says. -/
structure Request.FollowsFrom (r : Request) (n : Network) (old : Nat) (new : Signal) : Prop where
  reads : n.Reads r.node old
  agrees : ∀ {M : Type} {A : Connectives M} {α φ : Nat → M}, A.Lawful → A.Models α φ n →
    φ old = A.read φ new → φ r.node = A.read φ r.target

lemma Request.FollowsFrom.of_moves {r : Request} (hmoves : n.Moves m old new)
    (h : r.FollowsFrom m old new) : r.FollowsFrom n old new where
  reads := hmoves.reads_old h.reads
  agrees hA hφ heq := h.agrees hA (hmoves.models hA hφ heq).1 heq

/-- **One consumer**: it is rewired, or the signal that is to replace it is live and follows. -/
lemma replaceInGate_spec {result : Option Signal} (h : n.Consistent pins)
    (hl : n.isLive g = true) (hnew : n.isLive new.node = true)
    (hrun : Edit.replaceInGate g old new n = .ok result m) :
    (result = none ∧ m.Consistent pins ∧ n.Moves m old new ∧
      (new.node ≠ old → ¬ m.Reads g old)) ∨
    ∃ target, result = some target ∧ m = n ∧ n.isLive target.node = true ∧
      (⟨g, target⟩ : Request).FollowsFrom n old new := by
  obtain ⟨hno, rfl, rfl⟩ | ⟨a, b, kept, moved, hswap, hcases⟩ := replaceInGate_cases hl hrun
  · exact .inl ⟨rfl, h, .refl m old new, fun _ => hno⟩
  have hg := hswap.gate
  have hkept := h.isLive_of_reads hswap.reads_kept
  obtain ⟨s, hform, rfl, rfl⟩ | ⟨key, other, hform, hother, -, rfl, rfl⟩ |
    ⟨key, hform, hfree, rfl, hrewire⟩ := hcases
  · refine .inr ⟨s, rfl, rfl, ?_, hswap.reads, ?_⟩
    · rcases node_of_conjunction_folded hform with h0 | rfl | rfl
      · exact h0 ▸ h.isLive_zero
      · exact hkept
      · exact hswap.node_moved ▸ hnew
    · intro M A α φ hA hφ heq
      calc φ g = A.ofForm φ (conjunction kept moved) := hswap.value hA hφ heq
        _ = A.read φ s := by rw [hform]; rfl
  · have hog := (h.hash_iff key other).mp hother
    refine .inr ⟨.ofNode other, rfl, rfl, hog.isLive, hswap.reads, ?_⟩
    intro M A α φ hA hφ heq
    calc φ g = A.ofForm φ (conjunction kept moved) := hswap.value hA hφ heq
      _ = A.meet (A.read φ key.lhs) (A.read φ key.rhs) := by rw [hform]; rfl
      _ = φ other := (hφ.gate other key.lhs key.rhs hog).symm
  · obtain ⟨hm, hmoves, hg'⟩ := rewire_spec h hswap hform hfree hnew hrewire
    refine .inl ⟨rfl, hm, hmoves, ?_⟩
    intro hne
    rintro ⟨c, d, hi, hv⟩
    obtain ⟨rfl, rfl⟩ := hi.unique hg'
    rcases node_of_conjunction_gate hform (hv.imp Eq.symm Eq.symm) with hold | hold
    · exact hswap.kept_ne h hold.symm
    · exact hne (hold.trans hswap.node_moved).symm

/-- One consumer gets the signal as a fan-in, and no other gate changes. -/
lemma replaceInGate_reads {result : Option Signal} (h : n.Consistent pins)
    (hl : n.isLive g = true) (hrun : Edit.replaceInGate g old new n = .ok result m) (i v : Nat)
    (hread : m.Reads i v) : n.Reads i v ∨ i = g ∧ v = new.node := by
  obtain ⟨-, -, rfl⟩ | ⟨a, b, kept, moved, hswap, hcases⟩ := replaceInGate_cases hl hrun
  · exact .inl hread
  obtain ⟨_, -, -, rfl⟩ | ⟨_, _, -, -, -, -, rfl⟩ | ⟨key, hform, -, -, hrewire⟩ := hcases
  · exact .inl hread
  · exact .inl hread
  · obtain ⟨hd, hg', -⟩ := rewire_effect hswap.gate hrewire
    exact hswap.reads_after hd hform hg' hread

/-! ### All consumers -/

lemma Network.SameGraph.moves (hsame : SameGraph n m) (hle : ∀ v, n.fanout v ≤ m.fanout v)
    (hdecays : n.Decays m) : n.Moves m old new where
  size := hsame.size
  inputs := hsame.inputs
  isLive := hsame.isLive
  isLiveGate v := by
    rw [Bool.eq_iff_iff, isLiveGate_iff, isLiveGate_iff]
    simp only [hsame.gate]
  decays := hdecays
  fanout_le v _ := hle v
  reads g v hg := .inl (hsame.reads.mp hg)
  outputs s hs := .inl (hsame.outputs ▸ hs)
  models _ hφ _ := ⟨hφ.mono hsame.inputs fun _ _ _ => hsame.gate.mp, by rw [hsame.outputs]⟩

/-- To pin a live node moves nothing. -/
lemma moves_of_raise {k v : Nat} (hv : n.isLive v = true)
    (hrun : Edit.raiseFanout v n = .ok k m) : n.Moves m old new := by
  obtain ⟨hsame, -, hf⟩ := raiseFanout_spec hrun
  exact hsame.moves (fun u => (hf u).ge.trans' (Nat.le_add_right _ _)) (decays_of_raise hv hrun)

/-- The nodes that a list of requests pins. -/
def Request.targets (requests : List Request) : Multiset Nat := requests.map (·.target.node)

lemma Request.targets_cons (r : Request) (requests : List Request) :
    Request.targets (r :: requests) = r.target.node ::ₘ Request.targets requests := rfl

lemma Request.targets_append (requests requests' : List Request) :
    Request.targets (requests ++ requests')
      = Request.targets requests + Request.targets requests' := by
  rw [targets, List.map_append, ← Multiset.coe_add]
  rfl

/-- **All consumers**: those that still read from the node are requested to be replaced. -/
lemma replaceInGates_spec {gates : List Nat} {requests : List Request} (h : n.Consistent pins)
    (hl : ∀ g ∈ gates, n.isLive g = true) (hnew : n.isLive new.node = true)
    (hne : new.node ≠ old) (hrun : Edit.replaceInGates old new gates n = .ok requests m) :
    m.Consistent (Request.targets requests + pins) ∧ n.Moves m old new ∧
      (∀ g ∈ gates, m.Reads g old → g ∈ requests.map (·.node)) ∧
        ∀ r ∈ requests, r.FollowsFrom n old new := by
  induction gates generalizing n pins requests with
  | nil =>
      obtain ⟨rfl, rfl⟩ := pure_eq_ok.mp hrun
      refine ⟨?_, .refl n old new, fun g hg => absurd hg List.not_mem_nil,
        fun r hr => absurd hr List.not_mem_nil⟩
      rwa [show Request.targets [] = 0 from rfl, zero_add]
  | cons g rest ih =>
      simp only [Edit.replaceInGates, bind_eq_ok] at hrun
      obtain ⟨result, n₁, hgate, hrun⟩ := hrun
      have hlrest : ∀ i ∈ rest, n.isLive i = true := fun i hi => hl i (List.mem_cons_of_mem g hi)
      obtain ⟨rfl, h₁, hmoves, hdone⟩ | ⟨target, rfl, rfl, htarget, hfollows⟩ :=
        replaceInGate_spec h (hl g List.mem_cons_self) hnew hgate
      · obtain ⟨hm, hmoves', hreads, hrequests⟩ := ih h₁
          (fun i hi => (hmoves.isLive i).trans (hlrest i hi))
          ((hmoves.isLive new.node).trans hnew) hrun
        refine ⟨hm, hmoves.trans hmoves', ?_, fun r hr => (hrequests r hr).of_moves hmoves⟩
        intro i hi hread
        rcases List.mem_cons.mp hi with rfl | hi
        · exact absurd (hmoves'.reads_old hread) (hdone hne)
        · exact hreads i hi hread
      · simp only [bind_eq_ok, pure_eq_ok] at hrun
        obtain ⟨_, n₂, hraise, requests', _, hrest, rfl, rfl⟩ := hrun
        have hmoves : n₁.Moves n₂ old new := moves_of_raise htarget hraise
        obtain ⟨hm, hmoves', hreads, hrequests⟩ := ih (h.raise htarget hraise)
          (fun i hi => (hmoves.isLive i).trans (hlrest i hi))
          ((hmoves.isLive new.node).trans hnew) hrest
        refine ⟨?_, hmoves.trans hmoves', ?_, ?_⟩
        · rwa [Request.targets_cons, Multiset.cons_add, ← Multiset.add_cons]
        · intro i hi hread
          rcases List.mem_cons.mp hi with rfl | hi
          · exact List.mem_cons_self
          · exact List.mem_cons_of_mem g (hreads i hi hread)
        · intro r hr
          rcases List.mem_cons.mp hr with rfl | hr
          · exact hfollows
          · exact (hrequests r hr).of_moves hmoves

/-! ### Outputs -/

/-- The uses by outputs when one output changes. -/
lemma outputUses_set {index : Nat} {t : Signal} (hs : n.outputs[index]? = some s)
    (hm : m.outputs = n.outputs.setIfInBounds index t) (u : Nat) :
    m.outputUses u + (if u = s.node then 1 else 0)
      = n.outputUses u + if u = t.node then 1 else 0 := by
  obtain ⟨hindex, hget⟩ := Array.getElem?_eq_some_iff.mp hs
  have hlt : index < n.outputs.toList.length := by simpa using hindex
  have hget' : n.outputs.toList[index] = s := by simpa using hget
  have hpos : s.node = u → 0 < n.outputs.toList.countP (·.node = u) := fun hu =>
    List.countP_pos_iff.mpr ⟨s, hget' ▸ List.getElem_mem hlt, by simpa using hu⟩
  rw [outputUses, outputUses, hm, Array.toList_setIfInBounds, List.countP_set hlt, hget']
  simp only [decide_eq_true_eq, eq_comm (a := u)]
  by_cases hsu : s.node = u
  · have := hpos hsu
    rw [if_pos hsu]
    omega
  · rw [if_neg hsu]
    omega

/-- To exchange an element for one of the same value changes no value. -/
lemma map_set_of_eq {α β : Type} {f : α → β} {xs : Array α} {i : Nat} {x y : α}
    (hx : xs[i]? = some x) (hxy : f y = f x) :
    (xs.setIfInBounds i y).toList.map f = xs.toList.map f := by
  obtain ⟨hi, hget⟩ := Array.getElem?_eq_some_iff.mp hx
  refine List.ext_getElem? ?_
  intro j
  rw [Array.toList_setIfInBounds, List.getElem?_map, List.getElem?_map, List.getElem?_set]
  by_cases hij : i = j
  · subst hij
    simp [hi, hget, hxy]
  · rw [if_neg hij]

/-- The driver of one output is exchanged, and a use moves. -/
lemma redirectOutput_effect {index : Nat}
    (hrun : Edit.redirectOutput old new index s n = .ok () m) : SameGates n m ∧
      m.outputs = n.outputs.setIfInBounds index (new.complementIf s.complemented) ∧
        ∀ u, m.fanout u + (if u = old then 1 else 0)
          = n.fanout u + if u = new.node then 1 else 0 := by
  simp only [Edit.redirectOutput, bind_eq_ok, Edit.update_eq_ok] at hrun
  obtain ⟨_, n₁, hn₁, _, n₂, hlow, _, n₃, hraise, hm⟩ := hrun
  obtain ⟨hsame₂, -, hf₂⟩ := lowerFanout_spec hlow
  obtain ⟨hsame₃, -, hf₃⟩ := raiseFanout_spec hraise
  have hsame : SameGraph n₁ m :=
    (hsame₂.trans hsame₃).trans (hm ▸ ⟨⟨rfl, rfl, rfl, rfl, rfl⟩, rfl⟩)
  have hgates : SameGates n n₁ := hn₁ ▸ ⟨rfl, rfl, rfl, rfl, rfl⟩
  refine ⟨hgates.trans hsame.toSameGates, by rw [hsame.outputs, ← hn₁], ?_⟩
  intro u
  have h₂ := hf₂ u
  have h₃ := hf₃ u
  have h₁ : n₁.fanout u = n.fanout u := by rw [← hn₁]; rfl
  have h₄ : m.fanout u = n₃.fanout u := by rw [← hm]; rfl
  omega

/-- The driver of one output is replaced. -/
lemma redirectOutput_spec {index : Nat} (h : n.Consistent pins)
    (hs : n.outputs[index]? = some s) (hold : s.node = old) (hnew : n.isLive new.node = true)
    (hrun : Edit.redirectOutput old new index s n = .ok () m) :
    m.Consistent pins ∧ n.Moves m old new ∧ SameGates n m ∧
      m.outputs = n.outputs.setIfInBounds index (new.complementIf s.complemented) := by
  obtain ⟨hall, houtputs, hfanout⟩ := redirectOutput_effect hrun
  obtain ⟨hindex, hget⟩ := Array.getElem?_eq_some_iff.mp hs
  have holdLive : n.isLive old = true := by
    rw [← hold, ← hget]
    exact h.outputs_live _ (Array.getElem_mem hindex)
  have hmem : ∀ t ∈ m.outputs, t ∈ n.outputs ∨ t.node = new.node := by
    intro t ht
    rw [houtputs] at ht
    rcases Array.mem_or_eq_of_mem_setIfInBounds ht with ht | rfl
    · exact .inl ht
    · exact .inr rfl
  refine ⟨h.congr hall ?_ h.pins_live ?_, ⟨hall.size, hall.inputs, hall.isLive, ?_,
    hall.decays ?_, ?_, fun g v hg => .inl (hall.reads.mp hg), hmem,
    fun hA hφ heq => ⟨?_, ?_⟩⟩, hall, houtputs⟩
  · intro t ht
    rcases hmem t ht with ht | ht
    · exact h.outputs_live t ht
    · rwa [ht]
  · intro u
    have h₁ := hfanout u
    have h₂ := outputUses_set hs houtputs u
    rw [hold, Signal.node_complementIf] at h₂
    omega
  · intro v
    rw [Bool.eq_iff_iff, isLiveGate_iff, isLiveGate_iff]
    simp only [hall.gate]
  · intro v hv
    have hne : ∀ w, n.isLive w = true → v ≠ w := by
      rintro w hw rfl
      exact not_isLive_of_isDead hv hw
    have := hfanout v
    rwa [if_neg (hne _ holdLive), if_neg (hne _ hnew)] at this
  · intro v hv
    have := hfanout v
    rw [if_neg hv] at this
    omega
  · exact hφ.mono hall.inputs fun _ _ _ => hall.gate.mp
  · rw [houtputs]
    exact map_set_of_eq hs (Connectives.read_of_eq hA (hold ▸ heq)).symm

/-- The drivers of some outputs are replaced, one after the other. -/
lemma redirectOutputs_spec {driven : List (Signal × Nat)} (h : n.Consistent pins)
    (hnew : n.isLive new.node = true) (hdistinct : (driven.map (·.2)).Nodup)
    (hdriven : ∀ p ∈ driven, n.outputs[p.2]? = some p.1 ∧ p.1.node = old)
    (hrun : (driven.forM fun (s, index) => Edit.redirectOutput old new index s) n = .ok ⟨⟩ m) :
    m.Consistent pins ∧ n.Moves m old new ∧ SameGates n m ∧ (new.node ≠ old →
      ∀ (index : Nat) (s : Signal), m.outputs[index]? = some s → s.node = old →
        n.outputs[index]? = some s ∧ index ∉ driven.map (·.2)) := by
  induction driven generalizing n with
  | nil =>
      obtain ⟨-, rfl⟩ := pure_eq_ok.mp hrun
      exact ⟨h, .refl n old new, .refl n, fun _ index s hs _ => ⟨hs, List.not_mem_nil⟩⟩
  | cons p rest ih =>
      obtain ⟨n₁, hone, hrest⟩ := forM_cons_eq_ok.mp hrun
      obtain ⟨hs, hold⟩ := hdriven p List.mem_cons_self
      obtain ⟨hfresh, hdistinct⟩ := List.nodup_cons.mp hdistinct
      obtain ⟨h₁, hmoves, hgates, houtputs⟩ := redirectOutput_spec h hs hold hnew hone
      have hdriven₁ : ∀ q ∈ rest, n₁.outputs[q.2]? = some q.1 ∧ q.1.node = old := by
        intro q hq
        have hne : p.2 ≠ q.2 := fun heq => hfresh (List.mem_map.mpr ⟨q, hq, heq.symm⟩)
        rw [houtputs, Array.getElem?_setIfInBounds_ne hne]
        exact hdriven q (List.mem_cons_of_mem p hq)
      obtain ⟨h₂, hmoves', hgates', hleft⟩ :=
        ih h₁ ((hmoves.isLive new.node).trans hnew) hdistinct hdriven₁ hrest
      refine ⟨h₂, hmoves.trans hmoves', hgates.trans hgates', ?_⟩
      intro hne index s hs' hs'old
      obtain ⟨hs₁, hnot⟩ := hleft hne index s hs' hs'old
      have hindex : index ≠ p.2 := by
        rintro rfl
        obtain ⟨hbound, -⟩ := Array.getElem?_eq_some_iff.mp hs
        rw [houtputs, Array.getElem?_setIfInBounds_self_of_lt hbound] at hs₁
        cases hs₁
        exact hne hs'old
      rw [houtputs, Array.getElem?_setIfInBounds_ne hindex.symm] at hs₁
      exact ⟨hs₁, List.not_mem_cons_of_ne_of_not_mem hindex hnot⟩

lemma mem_outputsOf {index : Nat} : (s, index) ∈ Edit.outputsOf old n ↔
    n.outputs[index]? = some s ∧ s.node = old := by
  rw [Edit.outputsOf, List.mem_filter, List.mk_mem_zipIdx_iff_getElem?]
  simp

/-- Each output is listed once. -/
lemma nodup_outputsOf (n : Network) (v : Nat) : ((Edit.outputsOf v n).map (·.2)).Nodup := by
  refine List.Nodup.sublist (List.Sublist.map _ List.filter_sublist) ?_
  rw [List.zipIdx_map_snd]
  exact List.nodup_range' ..

/-- **All outputs**: none is driven by the node any more. -/
lemma replaceInOutputs_spec {count : Nat} (h : n.Consistent pins)
    (hnew : n.isLive new.node = true) (hrun : Edit.replaceInOutputs old new n = .ok count m) :
    m.Consistent pins ∧ n.Moves m old new ∧ SameGates n m ∧
      (new.node ≠ old → ∀ s ∈ m.outputs, s.node ≠ old) := by
  simp only [Edit.replaceInOutputs, bind_eq_ok, Edit.view_eq_ok] at hrun
  obtain ⟨_, _, ⟨rfl, rfl⟩, _, n₁, hloop, hrun⟩ := hrun
  obtain ⟨h₁, hmoves, hgates, hleft⟩ := redirectOutputs_spec h hnew (nodup_outputsOf n old)
    (fun p hp => mem_outputsOf.mp hp) hloop
  have hlast : m = n₁ ∨ m = n₁.advance := by
    split_ifs at hrun
    · exact .inr (pure_eq_ok.mp hrun).2.symm
    · exact .inl (pure_eq_ok.mp hrun).2.symm
  have hsame : SameGraph n₁ m ∧ n₁.fanout = m.fanout := by
    rcases hlast with rfl | rfl
    · exact ⟨.refl m, rfl⟩
    · exact ⟨sameGraph_advance n₁, rfl⟩
  obtain ⟨hsame, hfanout⟩ := hsame
  refine ⟨h₁.congr hsame.toSameGates (hsame.outputs ▸ h₁.outputs_live) h₁.pins_live fun v => ?_,
    hmoves.trans (hsame.moves (fun v => (congrFun hfanout v).le)
      (hsame.decays fun v _ => (congrFun hfanout v).symm)),
    hgates.trans hsame.toSameGates, fun hne s hs hold => ?_⟩
  · rw [hfanout, outputUses, outputUses, hsame.outputs]
  rw [hsame.outputs] at hs
  obtain ⟨index, hindex⟩ := Array.mem_iff_getElem?.mp hs
  obtain ⟨hs', hnot⟩ := hleft hne index s hindex hold
  exact hnot (List.mem_map.mpr ⟨(s, index), mem_outputsOf.mpr ⟨hs', hold⟩, rfl⟩)

end AndInverter
