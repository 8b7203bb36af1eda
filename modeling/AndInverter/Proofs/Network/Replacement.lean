import AndInverter.Proofs.Network.Assembly
import AndInverter.Proofs.Network.Chronicle
import AndInverter.Proofs.Network.Generation
import AndInverter.Proofs.Network.Progress

/-!
One consumer of a node, and all that happens when its use moves to a signal.

* `Network.Rewired` lists what a gate that gets other fan-ins changes, field by field, and
  `Network.Rewired.unique`: there is no other network that fits the list;
* `Network.Stands` is a signal that has the value of the new conjunction already;
* `replaceInGate_exact`: the gate is left alone exactly when there is such a signal, and is
  rewired otherwise, where the counter of its new fan-in has room;
* `replaceInGate_may_overflow`: that counter may be full.
-/

namespace AndInverter

/-- The marks that walks over the network left on a node. -/
def Slot.marks (s : Slot) : Nat × Nat × Nat := (s.value, s.visited, s.color)

namespace Network

variable {n m l : Network} {g old node v : Nat} {a b s new kept moved : Signal} {key : AndKey}

/-! ### Marks -/

/-- The marks on the node at a position, if there is one. -/
def marks? (n : Network) (v : Nat) : Option (Nat × Nat × Nat) := (n.slot? v).map Slot.marks

/-- **The marks stay** on all nodes, and the colours that were handed out. -/
structure KeepsMarks (n m : Network) : Prop where
  marks : m.marks? = n.marks?
  lastColor : m.lastColor = n.lastColor

lemma keepsMarks_modifySlot (n : Network) (v : Nat) {f : Slot → Slot}
    (hf : ∀ s, (f s).marks = s.marks) : n.KeepsMarks (n.modifySlot v f) where
  marks := by
    funext u
    rw [marks?, marks?, slot?_modifySlot]
    split_ifs
    · rw [Option.map_map, show Slot.marks ∘ f = Slot.marks from funext hf]
    · rfl
  lastColor := rfl

/-- What the graph shows of a node, its counter and its marks are all there is. -/
lemma slot?_ext (hshape : m.shape v = n.shape v) (hfanout : m.fanout v = n.fanout v)
    (hmarks : m.marks? v = n.marks? v) : m.slot? v = n.slot? v := by
  rw [shape, shape] at hshape
  rw [fanout, fanout] at hfanout
  rw [marks?, marks?] at hmarks
  cases hm : m.slot? v with
  | none =>
      rw [hm] at hshape
      exact (Option.map_eq_none_iff.mp hshape.symm).symm
  | some s =>
      cases hn : n.slot? v with
      | none => simp [hm, hn] at hshape
      | some t =>
          simp only [hm, hn, Option.map_some, Option.getD_some, Option.some.injEq, Slot.marks,
            Prod.mk.injEq] at hshape hfanout hmarks
          cases s
          cases t
          simp_all

/-! ### A gate with other fan-ins -/

/-- **All that changes when a gate gets other fan-ins**: it has the operands of the key then, the
structural hash leads from the key to it and no longer from the operands it had, a use moves
from one node to another, and the listeners are told. -/
structure Rewired (n : Network) (g : Nat) (a b : Signal) (key : AndKey) (old node : Nat)
    (m : Network) : Prop extends DiffersAt n m g, KeepsMarks n m,
      Event.Told (.modified g (a, b)) n m where
  gate : m.Gate g key.lhs key.rhs
  hash : ∀ k : AndKey, m.hash[k]?
    = if k = key then some g else if k = ⟨a, b⟩ then none else n.hash[k]?
  fanout : ∀ v, m.fanout v + (if v = old then 1 else 0)
    = n.fanout v + if v = node then 1 else 0
  liveGates : m.liveGates = n.liveGates
  generation : m.generation = n.generation + 1

/-- **Nothing else changes**: the list leaves no choice. -/
lemma Rewired.unique (h : n.Rewired g a b key old node m) (h' : n.Rewired g a b key old node l) :
    l = m := by
  have hslot : ∀ v, l.slot? v = m.slot? v := by
    intro v
    refine slot?_ext ?_ ?_ ?_
    · by_cases hv : v = g
      · rw [hv, gate_iff.mp h.gate, gate_iff.mp h'.gate]
      · rw [h.shape v hv, h'.shape v hv]
    · have := h.fanout v
      have := h'.fanout v
      omega
    · rw [h.marks, h'.marks]
  have hnodes : l.nodes = m.nodes := Array.ext_getElem? hslot
  have hhash : l.hash = m.hash := Std.ExtTreeMap.ext_getElem? fun k => by rw [h.hash, h'.hash]
  have hinputs := h'.inputs.trans h.inputs.symm
  have houtputs := h'.outputs.trans h.outputs.symm
  have hgates := h'.liveGates.trans h.liveGates.symm
  have hgeneration := h'.generation.trans h.generation.symm
  have hcolor := h'.lastColor.trans h.lastColor.symm
  have hlisteners := h'.listeners.trans h.listeners.symm
  have hdeliveries := h'.deliveries.trans h.deliveries.symm
  cases l
  cases m
  simp_all

/-- A signal has the value of a conjunction already: the conjunction folds to it, or it is
another gate with the same operands. -/
def Stands (n : Network) (g : Nat) (kept moved s : Signal) : Prop :=
  conjunction kept moved = .folded s ∨
    ∃ key other, conjunction kept moved = .gate key ∧ n.Gate other key.lhs key.rhs ∧
      other ≠ g ∧ s = .ofNode other

/-- The counter of a node has room for a use that another node loses. -/
def HasRoom (n : Network) (old node : Nat) : Prop :=
  n.fanout node < counterLimit + if node = old then 1 else 0

end Network

open Network

variable {n m l : Network} {g old node v : Nat} {a b s new kept moved : Signal} {key : AndKey}

namespace Edit

lemma gradual_keepsMarks : Gradual KeepsMarks where
  refl _ := ⟨rfl, rfl⟩
  trans h h' := ⟨h'.marks.trans h.marks, h'.lastColor.trans h.lastColor⟩
  raise v n _ m hrun := by
    obtain ⟨_, _, _, _, rfl⟩ := raiseFanout_eq_ok.mp hrun
    exact keepsMarks_modifySlot n v fun _ => rfl
  lower v n _ m hrun := by
    obtain ⟨_, _, _, rfl⟩ := lowerFanout_eq_ok.mp hrun
    exact keepsMarks_modifySlot n v fun _ => rfl

lemma keepsMarks_rewire (g : Nat) (a b : Signal) (key : AndKey) (old new : Nat) :
    Ensures KeepsMarks (rewire g a b key old new) := by
  have h := gradual_keepsMarks
  exact h.bind (.unhash fun _ _ => ⟨rfl, rfl⟩) fun _ =>
    h.bind (.modifySlot fun n => keepsMarks_modifySlot n g fun _ => rfl) fun _ =>
      h.bind (.update fun _ => ⟨rfl, rfl⟩) fun _ => h.bind (h.lower old) fun _ =>
        h.bind (h.raise new) fun _ => .update fun _ => ⟨rfl, rfl⟩

end Edit

/-- **A gate gets other fan-ins**: what is on the list happens. -/
lemma rewired_of_rewire (hn : n.WellFormed) (hg : n.Gate g a b)
    (hrun : Edit.rewire g a b key old node n = .ok () m) : n.Rewired g a b key old node m := by
  obtain ⟨hd, hg', hhash, hgates, hfanout⟩ := rewire_effect hg hrun
  simp only [(hn.hash_iff ⟨a, b⟩ g).mpr hg, and_true] at hhash
  exact ⟨hd, Edit.keepsMarks_rewire _ _ _ _ _ _ n () m hrun,
    Edit.told_rewire _ _ _ _ _ _ n () m hrun, hg', hhash, hfanout, hgates,
    Edit.generation_of_rewire hrun⟩

/-- Who got one more use has a counter that holds it. -/
lemma fanout_le_of_rewire (hrun : Edit.rewire g a b key old node n = .ok () m) :
    m.fanout node ≤ counterLimit := by
  simp only [Edit.rewire, bind_eq_ok, Edit.update_eq_ok] at hrun
  obtain ⟨_, _, -, _, _, -, _, _, -, _, n₄, -, _, n₅, hraise, rfl⟩ := hrun
  obtain ⟨s, hs, hlt, -, rfl⟩ := Edit.raiseFanout_eq_ok.mp hraise
  change (n₄.modifySlot node _).fanout node ≤ counterLimit
  rw [fanout_modifySlot, if_pos rfl, hs]
  exact hlt

/-- It gets them exactly when the counter of the new one has room. -/
lemma rewire_cases (hn : n.WellFormed) (hg : n.Gate g a b) (hread : n.Reads g old)
    (hnode : node < n.size) (key : AndKey) :
    (n.HasRoom old node ∧ ∃ m, Edit.rewire g a b key old node n = .ok () m) ∨
      (¬ n.HasRoom old node ∧
        ∃ m, Edit.rewire g a b key old node n = .error .counterOverflow m) := by
  cases hrun : Edit.rewire g a b key old node n with
  | ok u m =>
      have hle := fanout_le_of_rewire hrun
      have hfanout := (rewired_of_rewire hn hg hrun).fanout node
      rw [if_pos rfl] at hfanout
      exact .inl ⟨by rw [HasRoom]; omega, m, rfl⟩
  | error f m =>
      obtain ⟨rfl, hfull⟩ := rewire_eq_error hg.lt_size
        (Consistent.fanout_ne_zero_of_reads hn hread) hnode hrun
      exact .inr ⟨Nat.not_lt.mpr hfull, m, rfl⟩

/-! ### One consumer -/

/-- What a consumer does depends on its new conjunction alone. -/
lemma replaceInGate_of_swap (hn : n.WellFormed) (h : n.Swap g old new a b kept moved) :
    Edit.replaceInGate g old new n = Edit.replaceFanIn g a b kept old moved n := by
  obtain ⟨s, hs, hfan⟩ := Option.bind_eq_some_iff.mp h.gate.fanIns?
  have hne := hn.fanIns_ne h.gate
  have hslot : Edit.slot g n = .ok s n := Edit.slot_eq_ok.mpr ⟨hs, rfl⟩
  simp only [Edit.replaceInGate, bind, EStateM.bind, hslot, hfan]
  rcases h.ends with ⟨ha, rfl, rfl⟩ | ⟨hb, rfl, rfl⟩
  · rw [if_pos ha]
  · rw [if_neg fun ha => hne (ha.trans hb.symm), if_pos hb]

/-- Who does not read from the node is no concern. -/
lemma replaceInGate_of_not_reads (hg : n.Gate g a b) (hread : ¬ n.Reads g old) :
    Edit.replaceInGate g old new n = .ok none n := by
  obtain ⟨s, hs, hfan⟩ := Option.bind_eq_some_iff.mp hg.fanIns?
  have hslot : Edit.slot g n = .ok s n := Edit.slot_eq_ok.mpr ⟨hs, rfl⟩
  have ha : a.node ≠ old := fun ha => hread (ha ▸ hg.reads_left)
  have hb : b.node ≠ old := fun hb => hread (hb ▸ hg.reads_right)
  simp only [Edit.replaceInGate, bind, EStateM.bind, hslot, hfan, if_neg ha, if_neg hb]
  rfl

lemma Network.Reads.exists_swap (hread : n.Reads g old) (hg : n.Gate g a b) (new : Signal) :
    ∃ kept moved, n.Swap g old new a b kept moved := by
  obtain ⟨c, d, hg', hends⟩ := hread
  obtain ⟨rfl, rfl⟩ := hg'.unique hg
  rcases hends with ha | hb
  · exact ⟨_, _, hg, .inl ⟨ha, rfl, rfl⟩⟩
  · exact ⟨_, _, hg, .inr ⟨hb, rfl, rfl⟩⟩

/-- A signal that has the value of the new conjunction is the result, and nothing changes. -/
lemma replaceFanIn_of_stands (hn : n.WellFormed) (h : n.Stands g kept moved s) :
    Edit.replaceFanIn g a b kept old moved n = .ok (some s) n := by
  rcases h with hform | ⟨key, other, hform, hother, hne, rfl⟩
  · simp only [Edit.replaceFanIn, hform]
    rfl
  · have hkey := (hn.hash_iff key other).mpr hother
    simp only [Edit.replaceFanIn, hform, bind, EStateM.bind, Edit.view, hkey, if_neg hne]
    rfl

lemma replaceFanIn_eq_some (hn : n.WellFormed) :
    Edit.replaceFanIn g a b kept old moved n = .ok (some s) m ↔
      m = n ∧ n.Stands g kept moved s := by
  constructor
  · intro hrun
    obtain ⟨t, hform, ht, hm⟩ | ⟨key, other, hform, hother, hne, ht, hm⟩ | ⟨_, -, -, hnone, -⟩ :=
      replaceFanIn_cases hrun
    · rw [Option.some.inj ht]
      exact ⟨hm, .inl hform⟩
    · exact ⟨hm, .inr ⟨key, other, hform, (hn.hash_iff key other).mp hother, hne,
        Option.some.inj ht⟩⟩
    · cases hnone
  · rintro ⟨rfl, h⟩
    exact replaceFanIn_of_stands hn h

/-- Without such a signal the gate is rewired. -/
lemma replaceFanIn_of_not_stands (hn : n.WellFormed) (h : ∀ s, ¬ n.Stands g kept moved s)
    (a b : Signal) (old : Nat) :
    ∃ key, conjunction kept moved = .gate key ∧
      Edit.replaceFanIn g a b kept old moved n
        = (do Edit.rewire g a b key old moved.node; return none : Edit (Option Signal)) n := by
  cases hform : conjunction kept moved with
  | folded s => exact absurd (.inl hform) (h s)
  | gate key =>
      refine ⟨key, rfl, ?_⟩
      cases hkey : n.hash[key]? with
      | none => simp only [Edit.replaceFanIn, hform, bind, EStateM.bind, Edit.view, hkey]
      | some other =>
          have hother : other = g := by
            by_contra hne
            exact h _ (.inr ⟨key, other, hform, (hn.hash_iff key other).mp hkey, hne, rfl⟩)
          simp only [Edit.replaceFanIn, hform, bind, EStateM.bind, Edit.view, hkey, if_pos hother]

/-- **Without such a signal the gate is rewired**, and nothing else happens; but the counter of
its new fan-in may be full. -/
lemma replaceInGate_of_not_stands (hn : n.WellFormed) (hnew : n.isLive new.node = true)
    (h : n.Swap g old new a b kept moved) (hnone : ∀ s, ¬ n.Stands g kept moved s) :
    ∃ key, conjunction kept moved = .gate key ∧
      ((n.HasRoom old new.node ∧ ∃ m, Edit.replaceInGate g old new n = .ok none m ∧
          ∀ l, n.Rewired g a b key old new.node l ↔ l = m) ∨
        (¬ n.HasRoom old new.node ∧
          ∃ m, Edit.replaceInGate g old new n = .error .counterOverflow m)) := by
  obtain ⟨key, hform, hrun⟩ := replaceFanIn_of_not_stands hn hnone a b old
  refine ⟨key, hform, ?_⟩
  rw [replaceInGate_of_swap hn h, hrun, ← h.node_moved]
  have hnode : moved.node < n.size := h.node_moved ▸ lt_size_of_isLive hnew
  obtain ⟨hroom, m, hm⟩ | ⟨hfull, m, hm⟩ := rewire_cases hn h.gate h.reads hnode key
  · have hlist := rewired_of_rewire hn h.gate hm
    refine .inl ⟨hroom, m, bind_eq_ok.mpr ⟨(), m, hm, rfl⟩, fun l => ⟨hlist.unique, ?_⟩⟩
    rintro rfl
    exact hlist
  · exact .inr ⟨hfull, m, bind_eq_error.mpr (.inl hm)⟩

/-- **One consumer of a node**.  A gate that does not read from the node is left alone.  If it
does, then it is left alone and a signal is the result exactly when that signal has the value of
the new conjunction already.  When no signal has, and the counter of the new fan-in has room,
the gate is rewired, and nothing else happens. -/
theorem replaceInGate_exact (hn : n.WellFormed) (hg : n.Gate g a b)
    (hnew : n.isLive new.node = true) :
    (¬ n.Reads g old → Edit.replaceInGate g old new n = .ok none n) ∧
      (n.Reads g old → ∃ kept moved, n.Swap g old new a b kept moved ∧
        (∀ s m, Edit.replaceInGate g old new n = .ok (some s) m ↔
          m = n ∧ n.Stands g kept moved s) ∧
        ((∀ s, ¬ n.Stands g kept moved s) → n.HasRoom old new.node →
          ∃ key m, conjunction kept moved = .gate key ∧
            Edit.replaceInGate g old new n = .ok none m ∧
              ∀ l, n.Rewired g a b key old new.node l ↔ l = m)) := by
  refine ⟨replaceInGate_of_not_reads hg, fun hread => ?_⟩
  obtain ⟨kept, moved, hswap⟩ := hread.exists_swap hg new
  refine ⟨kept, moved, hswap, fun s m => ?_, fun hnone hroom => ?_⟩
  · rw [replaceInGate_of_swap hn hswap]
    exact replaceFanIn_eq_some hn
  · obtain ⟨key, hform, ⟨-, m, hrun, hlist⟩ | ⟨hfull, -⟩⟩ :=
      replaceInGate_of_not_stands hn hnew hswap hnone
    · exact ⟨key, m, hform, hrun, hlist⟩
    · exact absurd hroom hfull

/-- A gate reads from another one, and then from the complement of one of its fan-ins. -/
theorem replaceInGate_exact_of_inverted : ∃ (n m : Network) (a b : Signal) (key : AndKey),
    n.WellFormed ∧ n.Gate 5 a b ∧ n.HasRoom 4 1 ∧
      Edit.replaceInGate 5 4 ⟨1, true⟩ n = .ok none m ∧ n.Rewired 5 a b key 4 1 m := by
  let n := Network.empty.assemble [.input, .input, .input, .gate 2 4, .gate 8 6, .output 10]
  have hends : (match Edit.replaceInGate 5 4 ⟨1, true⟩ n with
    | .ok none _ => true | _ => false) = true := by decide +kernel
  have hg : n.operands? 5 = some (⟨3, false⟩, ⟨4, false⟩) := by decide +kernel
  have hnew : n.isLive (⟨1, true⟩ : Signal).node = true := by decide +kernel
  have hroom : n.HasRoom 4 1 := show n.fanout 1 < counterLimit by decide +kernel
  have hn : n.Sound := Network.Sound.assemble wellFormed_empty _
  clear_value n
  have hread : n.Reads 5 4 := ⟨_, _, hg, .inr rfl⟩
  obtain ⟨kept, moved, -, hsome, hnone⟩ := (replaceInGate_exact hn.1 hg hnew).2 hread
  have hfree : ∀ s, ¬ n.Stands 5 kept moved s := fun s hs => by
    simp [(hsome s n).mpr ⟨rfl, hs⟩] at hends
  obtain ⟨key, m, -, hrun, hlist⟩ := hnone hfree hroom
  exact ⟨n, m, _, _, key, hn.1, hg, hroom, hrun, (hlist m).mpr rfl⟩

/-- **The counter of the new fan-in may be full**, and then no gate can be made to read it. -/
theorem replaceInGate_may_overflow : ¬ ∀ (n : Network) (g old : Nat) (a b new kept moved : Signal),
    n.WellFormed → n.isLive new.node = true → n.Swap g old new a b kept moved →
      (∀ s, ¬ n.Stands g kept moved s) →
        ∃ key m, conjunction kept moved = .gate key ∧
          Edit.replaceInGate g old new n = .ok none m ∧
            ∀ l, n.Rewired g a b key old new.node l ↔ l = m := by
  intro h
  let n := Network.empty.assemble [.input, .input, .input, .gate 2 4]
  have hg : n.operands? 4 = some (⟨1, false⟩, ⟨2, false⟩) := by decide +kernel
  have hlive : n.isLive 3 = true := by decide +kernel
  have hlow : n.fanout 3 ≤ counterLimit := by decide +kernel
  have hkey : n.hash[(⟨⟨1, false⟩, ⟨3, false⟩⟩ : AndKey)]? = none := by decide +kernel
  have hn : n.Sound := Network.Sound.assemble wellFormed_empty _
  clear_value n
  obtain ⟨hsame, hcount⟩ := crowd_spec hlive hlow
  have hm : (n.crowd 3).WellFormed := (hn.crowd 3).1
  have hnew : (n.crowd 3).isLive (Signal.ofNode 3).node = true := (hsame.isLive 3).trans hlive
  have hswap : (n.crowd 3).Swap 4 2 (.ofNode 3) ⟨1, false⟩ ⟨2, false⟩ ⟨1, false⟩ ⟨3, false⟩ :=
    ⟨hsame.gate.mpr hg, .inr ⟨rfl, rfl, rfl⟩⟩
  have hform : conjunction ⟨1, false⟩ ⟨3, false⟩ = .gate ⟨⟨1, false⟩, ⟨3, false⟩⟩ := by decide
  have hnone : ∀ s, ¬ (n.crowd 3).Stands 4 ⟨1, false⟩ ⟨3, false⟩ s := by
    rintro s (hfolded | ⟨key, other, hgate, hother, -⟩)
    · cases hform.symm.trans hfolded
    · cases hform.symm.trans hgate
      cases hkey.symm.trans ((hn.1.hash_iff _ other).mpr (hsame.gate.mp hother))
  obtain ⟨key, m, -, hrun, -⟩ := h _ _ _ _ _ _ _ _ hm hnew hswap hnone
  obtain ⟨-, -, ⟨hroom, -⟩ | ⟨-, l, herror⟩⟩ := replaceInGate_of_not_stands hm hnew hswap hnone
  · exact absurd hroom (Nat.not_lt.mpr hcount.ge)
  · cases hrun.symm.trans herror

end AndInverter
