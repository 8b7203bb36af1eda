import AndInverter.Proofs.CriticalPath
import AndInverter.Proofs.Network.Evaluation

/-!
What a substitution leaves alone: all that does not depend on the replaced node.

* `Network.Spares`: what does not depend on a node reads nothing that it did not read before;
* `Spares.way`, `Spares.evaluates`: so no way down from it is new, and values stay;
* `Network.NoDeeper`: no way down from a node is longer than a bound, nor is its level;
* `substitute_spares`: only what depends on a node is requested to be replaced, so a substitution
  spares the rest.
-/

namespace AndInverter

open Network Relation Serving

namespace Network

variable {n m l : Network} {d g k u v old : Nat} {pins : Multiset Nat}

/-! ### Bounded ways -/

/-- **No way down** from a node is longer than a bound. -/
def NoDeeper (n : Network) (v d : Nat) : Prop := ∀ k u, n.Way v k u → k ≤ d

lemma noDeeper_level (hn : n.Acyclic) : n.NoDeeper v (n.level v) :=
  fun k _ hway => (Nat.le_add_left k _).trans (hway.level_le hn)

lemma NoDeeper.mono {e : Nat} (h : n.NoDeeper v d) (hle : d ≤ e) : n.NoDeeper v e :=
  fun k u hway => (h k u hway).trans hle

/-- The fan-ins of a node have one step less to go. -/
lemma NoDeeper.of_reads (h : n.NoDeeper v (d + 1)) (hread : n.Reads v u) : n.NoDeeper u d :=
  fun k _ hway => Nat.le_of_succ_le_succ (h (k + 1) _ (.head hread hway))

/-- The level is not beyond the bound, even if there are cycles elsewhere. -/
lemma NoDeeper.level_le (h : n.NoDeeper v d) : n.level v ≤ d := by
  have key : ∀ bound v d, n.NoDeeper v d →
      n.interpretWithin .levels (fun _ => 0) bound v ≤ d := by
    intro bound
    induction bound with
    | zero => exact fun _ _ _ => Nat.zero_le _
    | succ bound ih =>
        intro v d h
        rw [interpretWithin]
        split
        · exact Nat.zero_le d
        · next a b hs =>
            have hg : n.Gate v a b := gate_iff.mpr hs
            cases d with
            | zero => exact absurd (h 1 _ (.tail .refl hg.reads_left)) (Nat.not_succ_le_zero 0)
            | succ d =>
                have ha := ih a.node d (h.of_reads hg.reads_left)
                have hb := ih b.node d (h.of_reads hg.reads_right)
                rw [read_levels, read_levels]
                change 1 + max _ _ ≤ d + 1
                omega
        · exact Nat.zero_le d
  exact key _ v d h

/-! ### Spared nodes -/

/-- **What does not depend on a node is spared**: it reads nothing that it did not read before. -/
def Spares (n m : Network) (old : Nat) : Prop :=
  ∀ g v, ¬ n.DependsOn g old → m.Reads g v → n.Reads g v

lemma Spares.retires (h : n.Spares m old) (hret : m.Retires l) : n.Spares l old :=
  fun g v hg hread => h g v hg (hret.reads hread)

/-- A node that reads from a dependent one is dependent. -/
lemma Spares.dependsOn_of_reads (h : n.Spares m old) (hu : n.DependsOn u old)
    (hread : m.Reads g u) : n.DependsOn g old := by
  by_contra hg
  exact hg (.head (h g u hg hread) hu)

/-- The ways down from a spared node were there before. -/
lemma Spares.way (h : n.Spares m old) (hv : ¬ n.DependsOn v old) (hway : m.Way v k u) :
    n.Way v k u := by
  induction hway with
  | refl => exact .refl
  | tail _ hread ih =>
      exact ih.tail (h _ _ (fun hdep => hv (ih.dependsOn.trans hdep)) hread)

lemma Spares.noDeeper (h : n.Spares m old) (hv : ¬ n.DependsOn v old) (hd : n.NoDeeper v d) :
    m.NoDeeper v d := fun k u hway => hd k u (h.way hv hway)

/-- **A spared node keeps its value**, as long as it is live. -/
lemma Spares.evaluates {α φ : Nat → Bool} (h : n.Spares m old) (hn : n.Acyclic)
    (hm : m.Consistent pins) (hφ : Connectives.bool.Models α φ m) (hv : ¬ n.DependsOn v old)
    (hlive : m.isLive v = true) : m.Evaluates α v (φ v) := by
  revert hv hlive
  refine hn.induction (P := fun v => ¬ n.DependsOn v old → m.isLive v = true →
    m.Evaluates α v (φ v)) ?_ v
  intro v ih hv hlive
  obtain ⟨kind, hk⟩ := isLive_iff.mp hlive
  have hkind : m.kind? v = some kind := by rw [kind?, hk, Option.map_some]
  cases kind with
  | constant =>
      obtain rfl := (hm.constant_iff v).mp hkind
      rw [hφ.zero]
      exact .constant
  | input i =>
      have hi := (hm.input_iff i v).mpr hkind
      rw [hφ.input i v hi]
      exact .input hi
  | gate a b =>
      have hg : m.Gate v a b := gate_iff.mpr hk
      obtain ⟨hla, hlb⟩ := hm.fanIns_live v a b hg
      have hbelow : ∀ w, m.Reads v w → m.isLive w = true → m.Evaluates α w (φ w) := by
        intro w hread
        have hread' := h v w hv hread
        exact ih w hread' fun hdep => hv (.head hread' hdep)
      rw [bool_gate hφ hg]
      exact .gate hg (hbelow _ hg.reads_left hla) (hbelow _ hg.reads_right hlb)

end Network

variable {n m : Network} {k old : Nat} {new : Signal}

/-! ### Substitutions -/

/-- **A step spares what does not depend on the replaced node**, since a request is for what reads
from a dependent node. -/
lemma Serving.Step.spares {x y : Serving} (h : Step x y) (hx : x.Valid)
    (hspares : n.Spares x.network old) (hqueue : ∀ r ∈ x.queue, n.DependsOn r.node old) :
    n.Spares y.network old ∧ ∀ r ∈ y.queue, n.DependsOn r.node old := by
  obtain @⟨l, m, r, rest, followUps, moved, moved', skipped, hserve⟩ := h
  have hr : n.DependsOn r.node old := hqueue r List.mem_cons_self
  have hrest : ∀ r' ∈ rest, n.DependsOn r'.node old :=
    fun r' hr' => hqueue r' (List.mem_cons_of_mem r hr')
  obtain ⟨hskip, rfl, rfl, hrelease⟩ | ⟨hlive, hne, rfl, l', huses, hrelease⟩ := serve_cases hserve
  · rw [List.append_nil]
    exact ⟨hspares.retires (hx.drop hskip hrelease).2, hrest⟩
  · obtain ⟨-, mid, hmoves, hret⟩ := hx.serve hlive hne huses hrelease
    obtain ⟨-, -, -, -, -, hfollows⟩ := replaceUses_spec hx.consistent hne huses
    refine ⟨Spares.retires ?_ hret, ?_⟩
    · intro g v hg hread
      rcases hmoves.reads g v hread with hread | ⟨hread, -⟩
      · exact hspares g v hg hread
      · exact absurd (hspares.dependsOn_of_reads hr hread) hg
    · intro r' hr'
      rcases List.mem_append.mp hr' with hr' | hr'
      · exact hrest r' hr'
      · exact hspares.dependsOn_of_reads hr (hfollows r' hr').reads

/-- **A substitution spares what does not depend on the replaced node.** -/
theorem substitute_spares (hn : n.WellFormed) (hrun : Edit.substitute old new n = .ok k m) :
    n.Spares m old := by
  obtain ⟨-, hnew, uses, n₁, hraise, hends⟩ := substitute_run hrun
  obtain ⟨moved, skipped, hsteps⟩ := hends []
  have hstart : Valid ⟨n₁, [⟨old, new⟩], ∅, []⟩ := valid_start hn hnew hraise
  have hspares : n.Spares n₁ old := fun g v _ hread => (raiseFanout_spec hraise).1.reads.mp hread
  have hrun : ∀ {x : Serving}, ReflTransGen Step ⟨n₁, [⟨old, new⟩], ∅, []⟩ x →
      n.Spares x.network old ∧ ∀ r ∈ x.queue, n.DependsOn r.node old := by
    intro x hx
    induction hx with
    | refl =>
        refine ⟨hspares, fun r hr => ?_⟩
        rw [List.mem_singleton.mp hr]
        exact .refl
    | tail hrun hstep ih => exact hstep.spares (valid_of_run hrun hstart).1 ih.1 ih.2
  exact (hrun hsteps).1

end AndInverter
