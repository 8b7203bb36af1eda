import Mathlib.Order.Bounds.Defs
import AndInverter.Proofs.Network.Assembly
import AndInverter.Proofs.Network.Chronicle
import AndInverter.Proofs.Network.Generation
import AndInverter.Proofs.Network.Progress

/-!
What a gate takes along when it is retired.  A gate dies when its last consumer does, so the
gates that die are those that nothing outside of them keeps alive: the fanout-free cone.

* `Network.FreeCone`: the least set that contains a node and every gate that is read from the
  set alone;
* `Network.Buries`: what the death of some gates does to the rest of a network;
* `Network.Dying`: the invariant of a retirement under way, `Dying.step`: one gate keeps it, and
  `Dying.of_retireAll`: so does the worklist;
* `retire_freeCone`: a gate without uses is retired with its fanout-free cone, and nothing else.
-/

namespace AndInverter

open Network

namespace Network

variable {n m l : Network} {root g u v : Nat} {a b : Signal} {gone gone' work rest found : List Nat}

/-! ### Cones -/

/-- **A set takes along** the gates that it alone keeps alive: those that are read from the set,
and from nowhere else, and drive no output. -/
structure TakesAlong (n : Network) (root : Nat) (D : Set Nat) : Prop where
  root : root ∈ D
  gate : ∀ g, n.isLiveGate g = true → (∃ i ∈ D, n.Reads i g) → (∀ i, n.Reads i g → i ∈ D) →
    (∀ s ∈ n.outputs, s.node ≠ g) → g ∈ D

/-- **The maximum fanout-free cone** of a node: the least set that contains the node and takes
along what it alone keeps alive. -/
def FreeCone (n : Network) (root : Nat) (D : Set Nat) : Prop :=
  IsLeast {D | n.TakesAlong root D} D

/-! ### Burials -/

/-- How often the fan-ins of some gates refer to a node. -/
def usesBy (n : Network) (gates : List Nat) (v : Nat) : Nat :=
  (gates.map fun g => ((n.operands? g).map (pairUses v)).getD 0).sum

/-- **A burial**: the listed gates die, each once, and their uses of other nodes with them.  Each
death is a step of the generation, and the listeners are told of it. -/
structure Buries (n m : Network) (gone : List Nat) : Prop where
  nodup : gone.Nodup
  isLiveGate : ∀ g ∈ gone, n.isLiveGate g = true
  isDead : ∀ g ∈ gone, m.isDead g = true
  /-- What a node computes and whether it is dead changes for the listed gates only. -/
  shape : ∀ v, v ∉ gone → m.shape v = n.shape v
  fanout : ∀ v, m.fanout v + n.usesBy gone v = n.fanout v
  inputs : m.inputs = n.inputs
  outputs : m.outputs = n.outputs
  liveGates : m.liveGates + gone.length = n.liveGates
  generation : m.generation = n.generation + gone.length
  listeners : m.listeners = n.listeners
  deliveries : m.deliveries.toList
    = n.deliveries.toList ++ gone.flatMap fun g => n.listeners.deliver (.deleted g)

lemma Buries.refl (n : Network) : n.Buries n [] where
  nodup := .nil
  isLiveGate := nofun
  isDead := nofun
  shape _ _ := rfl
  fanout _ := rfl
  inputs := rfl
  outputs := rfl
  liveGates := rfl
  generation := rfl
  listeners := rfl
  deliveries := (List.append_nil _).symm

/-- What a node is read off its shape. -/
lemma isLiveGate_congr (h : m.shape v = n.shape v) : m.isLiveGate v = n.isLiveGate v := by
  rw [Bool.eq_iff_iff, isLiveGate_iff, isLiveGate_iff]
  simp only [gate_iff, h]

/-- What is buried later was not buried before. -/
lemma Buries.notMem (h : n.Buries l gone) (hv : l.isLiveGate v = true) : v ∉ gone := by
  intro hmem
  obtain ⟨a, b, hg⟩ := isLiveGate_iff.mp hv
  exact not_isLive_of_isDead (h.isDead v hmem) hg.isLive

lemma Buries.trans (h : n.Buries l gone) (h' : l.Buries m gone') : n.Buries m (gone ++ gone') := by
  have hfresh : ∀ v ∈ gone', v ∉ gone := fun v hv => h.notMem (h'.isLiveGate v hv)
  have huses : ∀ v, l.usesBy gone' v = n.usesBy gone' v := by
    intro v
    refine congrArg List.sum (List.map_congr_left fun g hg => ?_)
    rw [operands?, operands?, h.shape g (hfresh g hg)]
  constructor
  case nodup =>
    refine List.nodup_append.mpr ⟨h.nodup, h'.nodup, fun v hv u hu => ?_⟩
    rintro rfl
    exact hfresh v hu hv
  case isLiveGate =>
    intro v hv
    rcases List.mem_append.mp hv with hv | hv
    · exact h.isLiveGate v hv
    · exact (isLiveGate_congr (h.shape v (hfresh v hv))).symm.trans (h'.isLiveGate v hv)
  case isDead =>
    intro v hv
    rcases List.mem_append.mp hv with hv | hv
    · have hdead := h.isDead v hv
      rw [isDead_iff] at hdead ⊢
      rwa [h'.shape v fun hv' => hfresh v hv' hv]
    · exact h'.isDead v hv
  case shape =>
    intro v hv
    rw [List.mem_append, not_or] at hv
    rw [h'.shape v hv.2, h.shape v hv.1]
  case fanout =>
    intro v
    have hfirst := h.fanout v
    have hsecond := h'.fanout v
    rw [huses] at hsecond
    rw [usesBy, List.map_append, List.sum_append, ← usesBy, ← usesBy]
    omega
  case inputs => exact h'.inputs.trans h.inputs
  case outputs => exact h'.outputs.trans h.outputs
  case liveGates =>
    have hfirst := h.liveGates
    have hsecond := h'.liveGates
    rw [List.length_append]
    omega
  case generation =>
    rw [h'.generation, h.generation, List.length_append]
    omega
  case listeners => exact h'.listeners.trans h.listeners
  case deliveries =>
    rw [h'.deliveries, h.deliveries, h.listeners, List.flatMap_append, List.append_assoc]

end Network

variable {n m l : Network} {bound root g v : Nat} {a b : Signal} {work rest gone found : List Nat}

namespace Network

/-- **One gate is buried.** -/
lemma Consistent.buries {pins : Multiset Nat} (h : n.Consistent pins) (hg : n.Gate g a b)
    (hrun : Edit.retireOne g a b n = .ok found m) : n.Buries m [g] := by
  obtain ⟨hd, hdead, -, hgates, hfanout⟩ := retireOne_effect hg hrun
  obtain ⟨hlisteners, hdeliveries⟩ := Edit.told_retireOne g a b n found m hrun
  have hpos : 0 < n.liveGates := by
    rw [h.liveGates_eq]
    exact List.length_pos_of_mem (mem_gates.mpr ⟨a, b, hg⟩)
  constructor
  case nodup => exact List.nodup_singleton g
  case isLiveGate => simpa using isLiveGate_iff.mpr ⟨a, b, hg⟩
  case isDead => simpa using isDead_iff.mpr ⟨_, hdead⟩
  case shape => exact fun v hv => hd.shape v (by simpa using hv)
  case fanout =>
    intro v
    rw [← hfanout v, usesBy, List.map_singleton, List.sum_singleton,
      show n.operands? g = some (a, b) from hg]
    rfl
  case inputs => exact hd.inputs
  case outputs => exact hd.outputs
  case liveGates =>
    rw [hgates, List.length_singleton]
    omega
  case generation => exact Edit.generation_of_retireOne hrun
  case listeners => exact hlisteners
  case deliveries => simp [hdeliveries]

/-! ### Retirements -/

/-- **A retirement under way**: the gates that are gone, and those that wait to be looked at,
which have no use left.  All of them belong to every set that takes along what it alone keeps
alive. -/
structure Dying (n : Network) (root : Nat) (l : Network) (work gone : List Nat) : Prop where
  wellFormed : l.WellFormed
  retires : n.Retires l
  buries : n.Buries l gone
  unused : ∀ v ∈ work, l.isLive v = true → l.fanout v = 0
  within : ∀ D, n.TakesAlong root D →
    ∀ v, v ∈ gone ∨ v ∈ work ∧ l.isLiveGate v = true → v ∈ D

lemma Dying.drop (h : n.Dying root l (g :: rest) gone) : n.Dying root l rest gone where
  wellFormed := h.wellFormed
  retires := h.retires
  buries := h.buries
  unused v hv := h.unused v (List.mem_cons_of_mem g hv)
  within D hD v hv := h.within D hD v (hv.imp_right (And.imp_left (List.mem_cons_of_mem g)))

/-- A gate that lost its last use to the buried ones was read from them alone. -/
lemma Buries.reader (h : n.Buries l gone) (hret : n.Retires l) (hl : l.WellFormed)
    (hv : l.isLive v = true) (h0 : l.fanout v = 0) (hread : n.Reads u v) : u ∈ gone := by
  by_contra hu
  refine (hl.unused hv h0).1 u (hret.reads_of_isLive hread ?_)
  obtain ⟨k, hk⟩ := isLive_iff.mp hread.isLive
  exact isLive_iff.mpr ⟨k, (h.shape u hu).trans hk⟩

/-- **The next gate dies**, and the fan-ins that lose their last use by that come to wait. -/
lemma Dying.step (h : n.Dying root l (g :: rest) gone) (hg : l.Gate g a b)
    (hrun : Edit.retireOne g a b l = .ok found m) :
    n.Dying root m (found ++ rest) (gone ++ [g]) := by
  have h0 := h.unused g List.mem_cons_self hg.isLive
  obtain ⟨hm, hret, hfound, -⟩ := retireOne_spec h.wellFormed hg h0 hrun
  have hretires := h.retires.trans hret
  have hburies := h.buries.trans (Consistent.buries h.wellFormed hg hrun)
  refine ⟨hm, hretires, hburies, ?_, ?_⟩
  · intro v hv hl
    rcases List.mem_append.mp hv with hv | hv
    · exact (hfound v hv).1
    · have hzero := h.unused v (List.mem_cons_of_mem g hv) (hret.isLive hl)
      exact Nat.eq_zero_of_le_zero (hzero ▸ hret.fanout_le v)
  · intro D hD
    have hgone : ∀ v ∈ gone ++ [g], v ∈ D := by
      intro v hv
      rcases List.mem_append.mp hv with hv | hv
      · exact h.within D hD v (.inl hv)
      · rw [List.mem_singleton.mp hv]
        exact h.within D hD g (.inr ⟨List.mem_cons_self, isLiveGate_iff.mpr ⟨a, b, hg⟩⟩)
    rintro v (hv | ⟨hv, hl⟩)
    · exact hgone v hv
    obtain ⟨c, d, hgate⟩ := isLiveGate_iff.mp hl
    rcases List.mem_append.mp hv with hv | hv
    · -- it waits because it was read by the gate that died
      obtain ⟨hzero, hfanIn⟩ := hfound v hv
      have hread : n.Reads g v := h.retires.reads ⟨a, b, hg, hfanIn.imp Eq.symm Eq.symm⟩
      refine hD.gate v (isLiveGate_iff.mpr ⟨c, d, hretires.gate hgate⟩)
        ⟨g, hgone g (List.mem_append_right _ (List.mem_singleton_self g)), hread⟩ ?_ ?_
      · intro u hu
        exact hgone u (hburies.reader hretires hm hgate.isLive hzero hu)
      · intro s hs
        exact (hm.unused hgate.isLive hzero).2.1 s (hburies.outputs ▸ hs)
    · exact h.within D hD v (.inr ⟨List.mem_cons_of_mem g hv,
        isLiveGate_iff.mpr ⟨c, d, hret.gate hgate⟩⟩)

/-- **The worklist is worked off**: in the end nothing waits. -/
lemma Dying.of_retireAll (h : n.Dying root l work gone)
    (hrun : Edit.retireAll bound work l = .ok () m) : ∃ gone, n.Dying root m [] gone := by
  induction bound generalizing l work gone with
  | zero =>
      cases work with
      | nil =>
          obtain ⟨-, rfl⟩ := pure_eq_ok.mp hrun
          exact ⟨gone, h⟩
      | cons g rest => exact (throw_eq_ok.mp hrun).elim
  | succ bound ih =>
      cases work with
      | nil =>
          obtain ⟨-, rfl⟩ := pure_eq_ok.mp hrun
          exact ⟨gone, h⟩
      | cons g rest =>
          obtain ⟨a, b, found, l₁, hg, hone, hrest⟩ | ⟨-, hrest⟩ := retireAll_cons_eq_ok hrun
          · exact ih (h.step hg hone) hrest
          · exact ih h.drop hrest

/-- Where a retirement begins, its root waits. -/
lemma dying_start (hn : n.WellFormed) (h0 : n.fanout root = 0) : n.Dying root n [root] [] where
  wellFormed := hn
  retires := .refl n
  buries := .refl n
  unused v hv _ := by rwa [List.mem_singleton.mp hv]
  within D hD v hv := by
    obtain hv | ⟨hv, -⟩ := hv
    · cases hv
    · rw [List.mem_singleton.mp hv]
      exact hD.root

/-- **Nothing that should go is left**: what the buried gates alone kept alive is buried. -/
lemma Dying.takesAlong (h : n.Dying root m [] gone) (hn : n.WellFormed)
    (hdangling : ∀ v, m.Dangling v → n.Dangling v ∧ v ≠ root) (hroot : n.isLiveGate root = true)
    (h0 : n.fanout root = 0) : n.TakesAlong root {v | v ∈ gone} := by
  have hleft : ∀ v, n.isLiveGate v = true → v ∉ gone → m.isLiveGate v = true :=
    fun v hv hnot => (isLiveGate_congr (h.buries.shape v hnot)).trans hv
  refine ⟨?_, ?_⟩
  · by_contra hnot
    have hzero := Nat.eq_zero_of_le_zero (h0 ▸ h.retires.fanout_le root)
    exact (hdangling root ⟨hleft root hroot hnot, hzero⟩).2 rfl
  · rintro v hv ⟨i, -, hread⟩ hall hout
    by_contra hnot
    have hgate := hleft v hv hnot
    obtain ⟨a, b, hg⟩ := isLiveGate_iff.mp hgate
    -- a gate that is left has lost all its uses, but it had one before
    have hzero : m.fanout v = 0 := by
      by_contra hused
      obtain ⟨u, hu⟩ | ⟨s, hs, hsv⟩ := h.wellFormed.exists_use hg.isLive hused
      · exact not_isLive_of_isDead (h.buries.isDead u (hall u (h.retires.reads hu))) hu.isLive
      · exact hout s (h.buries.outputs ▸ hs) hsv
    exact Consistent.fanout_ne_zero_of_reads hn hread (hdangling v ⟨hgate, hzero⟩).1.2

end Network

/-- **A gate is retired with its maximum fanout-free cone**, and with nothing else.  The gates of
the cone are dead then, without uses, and have left the structural hash. -/
theorem retire_freeCone (hn : n.WellFormed) (hg : n.isLiveGate g = true) (h0 : n.fanout g = 0) :
    ∃ m gone, Edit.retire g n = .ok () m ∧ n.FreeCone g {v | v ∈ gone} ∧ n.Buries m gone ∧
      ∀ v ∈ gone, m.isDead v = true ∧ m.fanout v = 0 ∧ ∀ key : AndKey, m.hash[key]? ≠ some v := by
  obtain ⟨a, b, hgate⟩ := isLiveGate_iff.mp hg
  cases hrun : Edit.retire g n with
  | error f m => exact absurd hrun (retire_ne_error hn hgate.lt_size fun _ => h0)
  | ok u m =>
      obtain ⟨hm, hret, hdangling⟩ := retire_spec hn (fun _ => h0) hrun
      obtain ⟨gone, hdying⟩ : ∃ gone, n.Dying g m [] gone := by
        simp only [Edit.retire, bind_eq_ok, Edit.slot_eq_ok] at hrun
        obtain ⟨s, _, ⟨hs, rfl⟩, hrun⟩ := hrun
        have hlive : s.isLiveGate = true := by simpa [Network.isLiveGate, hs] using hg
        rw [if_pos hlive] at hrun
        obtain ⟨_, _, hview, hrun⟩ := bind_eq_ok.mp hrun
        obtain ⟨rfl, rfl⟩ := Edit.view_eq_ok.mp hview
        exact (dying_start hn h0).of_retireAll hrun
      refine ⟨m, gone, rfl, ⟨hdying.takesAlong hn hdangling hg h0, ?_⟩, hdying.buries, ?_⟩
      · intro D hD v hv
        exact hdying.within D hD v (.inl hv)
      · intro v hv
        have hdead := hdying.buries.isDead v hv
        have hnot := not_isLive_of_isDead hdead
        obtain ⟨c, d, hv⟩ := isLiveGate_iff.mp (hdying.buries.isLiveGate v hv)
        refine ⟨hdead, ((hret.decays.live v hv.isLive).resolve_left hnot).2, ?_⟩
        intro key hkey
        exact hnot ((hm.hash_iff key v).mp hkey).isLive

/-- A gate above two others, of which one drives an output and keeps the gate below both alive. -/
theorem retire_freeCone_of_shared : ∃ (n m : Network) (gone : List Nat),
    n.isLiveGate 7 = true ∧ n.fanout 7 = 0 ∧ Edit.retire 7 n = .ok () m ∧ m.gates = [4, 5] ∧
      n.FreeCone 7 {v | v ∈ gone} ∧ n.Buries m gone := by
  let n := Network.empty.assemble
    [.input, .input, .input, .gate 2 4, .gate 8 6, .gate 8 7, .gate 10 13, .output 10]
  have hends : (match Edit.retire 7 n with
    | .ok _ m => m.gates | .error _ _ => []) = [4, 5] := by decide +kernel
  have hg : n.isLiveGate 7 = true := by decide +kernel
  have h0 : n.fanout 7 = 0 := by decide +kernel
  have hn : n.Sound := Network.Sound.assemble wellFormed_empty _
  clear_value n
  obtain ⟨m, gone, hrun, hcone, hburies, -⟩ := retire_freeCone hn.1 hg h0
  rw [hrun] at hends
  exact ⟨n, m, gone, hg, h0, hrun, hends, hcone, hburies⟩

end AndInverter
