import AndInverter.Proofs.Network.Assembly
import AndInverter.Proofs.Network.Service

/-!
What a substitution guarantees when it ends well.

* `substitute_wellFormed`, `substitute_dangling`: the network is well-formed again, and no gate
  that was in use is left unused;
* `substitute_models`: values under which the node and its replacement agree survive;
* `substitute_discards_iff`: exactly when the replaced gate is out of use.
-/

namespace AndInverter

open Network Relation Serving

variable {n m : Network} {k old v : Nat} {new : Signal}

/-- **A substitution keeps the network well-formed**, and only retires gates. -/
theorem substitute_wellFormed (hn : n.WellFormed)
    (hrun : Edit.substitute old new n = .ok k m) : m.WellFormed ∧ n.Shrinks m := by
  obtain ⟨-, hnew, uses, n₁, hraise, hends⟩ := substitute_run hrun
  obtain ⟨moved, skipped, hsteps⟩ := hends []
  obtain ⟨hvalid, hshrinks, -⟩ := valid_of_run hsteps (valid_start hn hnew hraise)
  exact ⟨hvalid.consistent, (shrinks_of_raise hnew hraise).trans hshrinks⟩

/-- **A substitution leaves no gate unused** that was in use. -/
theorem substitute_dangling (hn : n.WellFormed) (hrun : Edit.substitute old new n = .ok k m)
    (hv : m.Dangling v) : n.Dangling v := by
  obtain ⟨-, hnew, uses, n₁, hraise, hends⟩ := substitute_run hrun
  obtain ⟨moved, skipped, hsteps⟩ := hends []
  have hstart : Valid ⟨n₁, [⟨old, new⟩], ∅, []⟩ := valid_start hn hnew hraise
  have hsteps' : ∀ {x : Serving}, ReflTransGen Step ⟨n₁, [⟨old, new⟩], ∅, []⟩ x →
      x.network.Dangling v → n₁.Dangling v := by
    intro x hx
    induction hx with
    | refl => exact id
    | tail hrun hstep ih => exact fun hv => ih (hstep.dangling (valid_of_run hrun hstart).1 hv)
  have hv₁ := hsteps' hsteps hv
  obtain ⟨hsame, -, hfanout⟩ := raiseFanout_spec hraise
  obtain ⟨a, b, hg⟩ := isLiveGate_iff.mp hv₁.1
  refine ⟨isLiveGate_iff.mpr ⟨a, b, hsame.gate.mp hg⟩, ?_⟩
  have := hfanout v
  have := hv₁.2
  omega

/-- **A substitution keeps all values** under which the node and its replacement agree. -/
theorem substitute_models {M : Type} {A : Connectives M} {α φ : Nat → M} (hn : n.WellFormed)
    (hrun : Edit.substitute old new n = .ok k m) (hA : A.Lawful) (hφ : A.Models α φ n)
    (heq : φ old = A.read φ new) :
    A.Models α φ m ∧ m.outputs.toList.map (A.read φ) = n.outputs.toList.map (A.read φ) := by
  obtain ⟨-, hnew, uses, n₁, hraise, hends⟩ := substitute_run hrun
  obtain ⟨moved, skipped, hsteps⟩ := hends []
  have hmoves : n.Moves n₁ old new := moves_of_raise hnew hraise
  obtain ⟨hφ₁, hout⟩ := hmoves.models hA hφ heq
  have hstart : Means A α φ (n.outputs.toList.map (A.read φ)) ⟨n₁, [⟨old, new⟩], ∅, []⟩ := by
    refine ⟨hφ₁, ?_, ?_, hout⟩
    · intro r hr
      rw [List.mem_singleton.mp hr]
      exact heq
    · intro v t hv
      simp at hv
  have hend := means_of_run hsteps (valid_start hn hnew hraise) hA hstart
  exact ⟨hend.models, hend.outputs⟩

/-! ### The replaced gate -/

/-- **A node that is out of use**: dead, read by no gate and behind no output. -/
structure Network.Discarded (n : Network) (v : Nat) : Prop where
  reads : ∀ g, ¬ n.Reads g v
  outputs : ∀ s ∈ n.outputs, s.node ≠ v
  isDead : n.isDead v = true
  fanout : n.fanout v = 0

/-- At the end of a run, a live gate that was replaced is read by another gate, which was
replaced or skipped. -/
lemma Serving.Valid.reader {moved : Renaming} {skipped : List Nat}
    (h : Valid ⟨m, [], moved, skipped⟩) (hmoved : v ∈ moved) (hv : m.isLiveGate v = true) :
    ∃ g, m.Reads g v ∧ (g ∈ moved ∨ g ∈ skipped) := by
  have hfanout : m.fanout v ≠ 0 := fun h0 => h.used v hmoved ⟨hv, h0⟩
  obtain ⟨a, b, hg⟩ := isLiveGate_iff.mp hv
  have huses : 0 < m.uses v := by
    have hc : m.Consistent 0 := h.consistent
    have hf := hc.fanout_eq v hg.isLive
    rw [Multiset.count_zero] at hf
    omega
  rcases exists_use huses with ⟨g, hread⟩ | ⟨s, hs, hsv⟩
  · refine ⟨g, hread, (h.readers g v hread hmoved).resolve_left List.not_mem_nil⟩
  · exact absurd (hsv ▸ hmoved) (h.outputs s hs)

/-- Where no gate above it was skipped, ways up from a live replaced gate get ever longer. -/
lemma Serving.Valid.exists_chain {moved : Renaming} {skipped : List Nat}
    (h : Valid ⟨m, [], moved, skipped⟩) (hmoved : v ∈ moved) (hv : m.isLiveGate v = true)
    (hskip : ∀ g, m.isLiveGate g = true → m.DependsOn g v → g ∉ skipped) (length : Nat) :
    ∃ g way, way.length = length ∧ (g :: way).IsChain m.Reads ∧ g ∈ moved ∧
      m.isLiveGate g = true ∧ ∀ u ∈ g :: way, m.isLiveGate u = true ∧ m.DependsOn u v := by
  induction length with
  | zero =>
      refine ⟨v, [], rfl, List.isChain_singleton v, hmoved, hv, ?_⟩
      intro u hu
      rw [List.mem_singleton.mp hu]
      exact ⟨hv, .refl⟩
  | succ length ih =>
      obtain ⟨g, way, hlen, hchain, hgmoved, hg, hall⟩ := ih
      obtain ⟨i, hread, hcase⟩ := h.reader hgmoved hg
      have hi : m.isLiveGate i = true := hread.isLiveGate
      have hdep : m.DependsOn i v := .head hread (hall g List.mem_cons_self).2
      refine ⟨i, g :: way, by rw [List.length_cons, hlen],
        List.isChain_cons_cons.mpr ⟨hread, hchain⟩, hcase.resolve_right (hskip i hi hdep), hi,
        fun u hu => ?_⟩
      rcases List.mem_cons.mp hu with rfl | hu
      · exact ⟨hi, hdep⟩
      · exact hall u hu

/-- The replaced node itself is served, by the first step. -/
lemma Serving.mem_moved_of_run {moved : Renaming} {skipped : List Nat}
    (h : ReflTransGen Step ⟨n, [⟨old, new⟩], ∅, []⟩ ⟨m, [], moved, skipped⟩)
    (hvalid : Valid ⟨n, [⟨old, new⟩], ∅, []⟩) (hold : n.isLive old = true)
    (hne : new.node ≠ old) : old ∈ moved := by
  obtain ⟨l, followUps, hy, -, -, hrest⟩ := head_of_run h hvalid hold hne
  exact (valid_of_run hrest hy).2.2 old (mem_insert_iff.mpr (.inl rfl))

/-- **Exactly when the replaced gate is out of use.**  A substitution serves requests, and it
leaves a live node as it is when the node has become its own target.  The replaced gate ends
out of use if and only if no live gate that still depends on it was left that way or lies on a
cycle. -/
theorem substitute_discards_iff (hn : n.WellFormed) (hold : n.isLiveGate old = true)
    (hne : new.node ≠ old) (hrun : Edit.substitute old new n = .ok k m) :
    ∃ uses n₁ moved skipped, Edit.raiseFanout new.node n = .ok uses n₁ ∧
      ReflTransGen Step ⟨n₁, [⟨old, new⟩], ∅, []⟩ ⟨m, [], moved, skipped⟩ ∧
      (m.Discarded old ↔ ∀ g, m.isLiveGate g = true → m.DependsOn g old →
        g ∉ skipped ∧ ¬ TransGen m.Reads g g) := by
  obtain ⟨hlive, hnew, uses, n₁, hraise, hends⟩ := substitute_run hrun
  obtain ⟨moved, skipped, hsteps⟩ := hends []
  refine ⟨uses, n₁, moved, skipped, hraise, hsteps, ?_⟩
  obtain ⟨hvalid, hshrinks, -⟩ := valid_of_run hsteps (valid_start hn hnew hraise)
  have hmoves : n.Moves n₁ old new := moves_of_raise hnew hraise
  have hold₁ : n₁.isLiveGate old = true := (hmoves.isLiveGate old).trans hold
  have hmoved : old ∈ moved := mem_moved_of_run hsteps (valid_start hn hnew hraise)
    ((hmoves.isLive old).trans hlive) hne
  constructor
  · intro hdiscarded g hg hdep
    rcases hdep.cases_tail with heq | ⟨i, -, hread⟩
    · obtain ⟨a, b, hgate⟩ := isLiveGate_iff.mp (heq ▸ hg)
      exact absurd hgate.isLive (not_isLive_of_isDead hdiscarded.isDead)
    · exact absurd hread (hdiscarded.reads i)
  · intro hclean
    have hnotlive : ¬ m.isLive old = true := by
      intro hl
      have hgate := hshrinks.gate old hold₁ hl
      obtain ⟨g, way, hlen, hchain, -, -, hall⟩ := hvalid.exists_chain hmoved hgate
        (fun g hg hdep => (hclean g hg hdep).1) (m.size + 1)
      obtain ⟨u, hu, hcycle⟩ := exists_cycle_of_chain hchain (by rw [List.length_cons]; omega)
      exact (hclean u (hall u hu).1 (hall u hu).2).2 hcycle
    have hdecays := ((shrinks_of_raise hnew hraise).trans hshrinks).decays
    obtain ⟨hdead, hfanout⟩ := (hdecays.live old hlive).resolve_left hnotlive
    refine ⟨fun g hread => hnotlive (hvalid.consistent.isLive_of_reads hread), ?_, hdead, hfanout⟩
    intro s hs hsv
    exact hvalid.outputs s hs (hsv ▸ hmoved)

/-- A gate with three consumers.  When its first fan-in takes its place, one of them becomes a
duplicate of another gate, one becomes constant, and one reads another node. -/
def ramified : List Part := [.input, .input, .input, .gate 2 4, .gate 8 6, .gate 2 6, .gate 8 3,
  .gate 8 7, .output 10, .output 15, .output 16]

/-- A replacement that asks for two more. -/
theorem substitute_discards_iff_of_ramified : ∃ n k m uses n₁ moved skipped,
    (n.WellFormed ∧ n.isLiveGate 4 = true ∧ Edit.substitute 4 (.ofNode 1) n = .ok k m) ∧
      (m.isDead 4 = true ∧ m.isDead 5 = true ∧ m.isDead 7 = true ∧ m.reads 8 1 = true) ∧
      Edit.raiseFanout 1 n = .ok uses n₁ ∧
      ReflTransGen Step ⟨n₁, [⟨4, .ofNode 1⟩], ∅, []⟩ ⟨m, [], moved, skipped⟩ ∧
      (m.Discarded 4 ↔ ∀ g, m.isLiveGate g = true → m.DependsOn g 4 →
        g ∉ skipped ∧ ¬ TransGen m.Reads g g) := by
  let n := Network.empty.assemble ramified
  have hn : n.WellFormed := (Network.Sound.assemble wellFormed_empty _).1
  have hold : n.isLiveGate 4 = true := by decide +kernel
  have hends : (match Edit.substitute 4 (.ofNode 1) n with
    | .ok _ m => m.isDead 4 && m.isDead 5 && m.isDead 7 && m.reads 8 1
    | .error _ _ => false) = true := by decide +kernel
  cases hrun : Edit.substitute 4 (.ofNode 1) n with
  | error => simp [hrun] at hends
  | ok k m =>
      simp only [hrun, Bool.and_eq_true, and_assoc] at hends
      obtain ⟨uses, n₁, moved, skipped, h⟩ := substitute_discards_iff hn hold (by decide) hrun
      exact ⟨n, k, m, uses, n₁, moved, skipped, ⟨hn, hold, hrun⟩, hends, h⟩

/-- A gate that is read by two gates which become duplicates of each other one after the other,
each of them along another way. -/
def entangled : Network := Network.empty.assemble
  [.input, .input, .input, .input, .input, .input, .gate 2 4, .gate 14 8, .gate 14 10, .gate 6 8,
    .gate 6 10, .gate 16 18, .gate 16 22, .gate 20 18, .gate 20 22, .gate 24 12, .gate 28 12,
    .output 32, .output 34, .output 26, .output 30]

/-- **A replaced gate may stay in use.**  Here the two last gates are each requested to be
replaced by the other; the second request is skipped, and what is left that way keeps the
replaced gate alive. -/
theorem substitute_may_not_discard : ¬ ∀ (n : Network) (old : Nat) (new : Signal) (k : Nat)
    (m : Network), n.WellFormed → n.Acyclic → n.isLiveGate old = true →
      n.isLive new.node = true → new.node ≠ old → ¬ n.DependsOn new.node old →
        Edit.substitute old new n = .ok k m → m.Discarded old := by
  intro h
  obtain ⟨hn, hacyclic⟩ : entangled.Sound := Network.Sound.assemble wellFormed_empty _
  have hlive : (match Edit.substitute 7 (.ofNode 3) entangled with
    | .ok _ m => m.isDead 7 | .error _ _ => true) = false := by decide +kernel
  have hcone : ¬ entangled.DependsOn 3 7 := fun hdep =>
    absurd (hdep.eq_of_not_gate (by decide +kernel)) (by decide)
  cases hrun : Edit.substitute 7 (.ofNode 3) entangled with
  | error => simp [hrun] at hlive
  | ok k m =>
      have hdiscarded := h entangled 7 (.ofNode 3) k m hn hacyclic (by decide +kernel)
        (by decide +kernel) (by decide) hcone hrun
      simp [hrun, hdiscarded.isDead] at hlive

end AndInverter
