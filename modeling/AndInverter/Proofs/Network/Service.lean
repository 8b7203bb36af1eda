import AndInverter.Proofs.Network.Renaming
import AndInverter.Proofs.Network.Rewiring

/-!
Substitution as a system that serves one request after the other.

* `replaceUses_cases`, `replaceUses_spec`: what it takes to move all uses of a node;
* `Serving` is a state of a substitution, and `Serving.Step` serves the request at the head of the
  queue;
* `serveAll_comesTo`: serving requests is a run of steps, however it stops;
* `substitute_run`: a substitution that ends well is a run of steps that empties the queue;
* `Serving.Valid` and `Serving.Means` are what a step keeps: consistency, and values.
-/

namespace AndInverter

open Network Relation

variable {n m : Network} {g old v : Nat} {new s : Signal} {pins : Multiset Nat}

/-! ### Moving all uses of a node -/

lemma mem_consumers : g ∈ n.consumers v ↔ n.Reads g v := by
  rw [consumers, List.mem_filter, mem_gates]
  constructor
  · rintro ⟨⟨a, b, hg⟩, hr⟩
    simp only [Network.reads, hg.fanIns?, Option.any_some, Bool.or_eq_true, beq_iff_eq] at hr
    exact ⟨a, b, hg, hr⟩
  · rintro ⟨a, b, hg, hr⟩
    refine ⟨⟨a, b, hg⟩, ?_⟩
    simpa only [Network.reads, hg.fanIns?, Option.any_some, Bool.or_eq_true, beq_iff_eq] using hr

lemma isLive_of_mem_consumers (hg : g ∈ n.consumers v) : n.isLive g = true :=
  (mem_consumers.mp hg).isLive

/-- **To move all uses of a node**: the gates come first and then the outputs, and the node is
retired if nothing is left. -/
lemma replaceUses_cases {requests : List Request}
    (hrun : Edit.replaceUses old new n = .ok requests m) :
    n.isLive new.node = true ∧ ∃ n₁ count n₂,
      Edit.replaceInGates old new (n.consumers old) n = .ok requests n₁ ∧
      Edit.replaceInOutputs old new n₁ = .ok count n₂ ∧
      (n₂.fanout old = 0 ∧ Edit.retire old n₂ = .ok () m ∨ n₂.fanout old ≠ 0 ∧ m = n₂) := by
  simp only [Edit.replaceUses, bind_eq_ok, Edit.slot_eq_ok] at hrun
  obtain ⟨slot, _, ⟨hslot, rfl⟩, hrun⟩ := hrun
  split_ifs at hrun with hdead
  · exact (throw_eq_ok.mp hrun).elim
  simp only [bind_eq_ok, Edit.view_eq_ok, Edit.slot_eq_ok] at hrun
  obtain ⟨_, _, ⟨rfl, rfl⟩, requests', n₁, hgates, count, n₂, houtputs, slot₂, _, ⟨hslot₂, rfl⟩,
    hrun⟩ := hrun
  have hfanout := fanout_of_slot? hslot₂
  refine ⟨by simp [Network.isLive, hslot, hdead], n₁, count, n₂, ?_⟩
  split_ifs at hrun with hzero
  · simp only [bind_eq_ok, pure_eq_ok] at hrun
    obtain ⟨_, _, hretire, rfl, rfl⟩ := hrun
    exact ⟨hgates, houtputs, .inl ⟨hfanout.trans hzero, hretire⟩⟩
  · obtain ⟨rfl, rfl⟩ := pure_eq_ok.mp hrun
    exact ⟨hgates, houtputs, .inr ⟨fun h0 => hzero (hfanout.symm.trans h0), rfl⟩⟩

/-- **All uses of a node move.**  What still reads from it is requested to be replaced, and it
is retired if nothing is left. -/
lemma replaceUses_spec {requests : List Request} (h : n.Consistent pins)
    (hne : new.node ≠ old) (hrun : Edit.replaceUses old new n = .ok requests m) :
    m.Consistent (Request.targets requests + pins) ∧
      (∃ mid, n.Moves mid old new ∧ mid.Retires m) ∧
      (∀ v, m.Dangling v → n.Dangling v ∧ v ≠ old) ∧
      (∀ g, m.Reads g old → g ∈ requests.map (·.node)) ∧ (∀ s ∈ m.outputs, s.node ≠ old) ∧
      ∀ r ∈ requests, r.FollowsFrom n old new := by
  obtain ⟨hnew, n₁, count, n₂, hgates, houtputs, hlast⟩ := replaceUses_cases hrun
  obtain ⟨h₁, hmoves₁, hleft, hfollows⟩ :=
    replaceInGates_spec h (fun _ => isLive_of_mem_consumers) hnew hne hgates
  obtain ⟨h₂, hmoves₂, hsame, hnone⟩ :=
    replaceInOutputs_spec h₁ ((hmoves₁.isLive _).trans hnew) houtputs
  have hmoves := hmoves₁.trans hmoves₂
  have hreads : ∀ g, n₂.Reads g old → g ∈ requests.map (·.node) := by
    intro g hg
    have hg₁ := hsame.reads.mp hg
    exact hleft g (mem_consumers.mpr (hmoves₁.reads_old hg₁)) hg₁
  rcases hlast with ⟨hfree, hretire⟩ | ⟨hused, rfl⟩
  · obtain ⟨h₃, hretires, hdangling⟩ := retire_spec h₂ (fun _ => hfree) hretire
    refine ⟨h₃, ⟨n₂, hmoves, hretires⟩, ?_, fun g hg => hreads g (hretires.reads hg),
      fun s hs => hnone hne s (hretires.outputs ▸ hs), hfollows⟩
    intro v hv
    obtain ⟨hv₂, hvne⟩ := hdangling v hv
    exact ⟨hmoves.dangling hv₂ hvne, hvne⟩
  · refine ⟨h₂, ⟨m, hmoves, .refl m⟩, ?_, hreads, hnone hne, hfollows⟩
    intro v hv
    have hvne : v ≠ old := by
      rintro rfl
      exact hused hv.2
    exact ⟨hmoves.dangling hv hvne, hvne⟩

/-! ### States and steps -/

/-- **A state of a substitution.** -/
structure Serving where
  network : Network
  queue : List Request
  moved : Renaming
  /-- The live nodes that were left as they are, since they had become their own target. -/
  skipped : List Nat

namespace Serving

/-- Is a request for a live node that has become its own target? -/
def skips (n : Network) (moved : Renaming) (r : Request) : Bool :=
  n.isLive r.node && (moved.resolve r.target).node == r.node

/-- **A step** serves the request at the head of the queue. -/
inductive Step : Serving → Serving → Prop
  | head {n m : Network} {r : Request} {rest followUps : List Request} {moved moved' : Renaming}
      {skipped : List Nat} (hserve : Edit.serve moved r n = .ok (followUps, moved') m) :
    Step ⟨n, r :: rest, moved, skipped⟩ ⟨m, rest ++ followUps, moved',
      if skips n moved r then r.node :: skipped else skipped⟩

/-- The state after the next step, if the request at the head of the queue can be served. -/
def next? : Serving → Option Serving
  | ⟨_, [], _, _⟩ => none
  | ⟨n, r :: rest, moved, skipped⟩ =>
    match Edit.serve moved r n with
    | .ok (followUps, moved') m => some ⟨m, rest ++ followUps, moved',
        if skips n moved r then r.node :: skipped else skipped⟩
    | .error _ _ => none

/-- Steps can be computed. -/
lemma step_iff {x y : Serving} : Step x y ↔ x.next? = some y := by
  constructor
  · rintro ⟨hserve⟩
    simp only [next?, hserve]
  · obtain ⟨n, queue, moved, skipped⟩ := x
    intro h
    cases queue with
    | nil => cases h
    | cons r rest =>
        rw [next?] at h
        split at h
        · next hserve =>
            cases h
            exact .head hserve
        · cases h

/-- Whatever was skipped before, serving the queue ends with this network. -/
def Ends (n : Network) (queue : List Request) (moved : Renaming) (m : Network) : Prop :=
  ∀ skipped, ∃ moved' skipped',
    ReflTransGen Step ⟨n, queue, moved, skipped⟩ ⟨m, [], moved', skipped'⟩

/-- **How serving stops** in a state: no request is left, or the first one cannot be served, or
there are more of them than the bound allows. -/
inductive Halts : Serving → EStateM.Result Fault Network Nat → Prop
  | served {x : Serving} {k : Nat} (h : x.queue = []) : x.Halts (.ok k x.network)
  | failed {x : Serving} {r : Request} {rest : List Request} {f : Fault} {m : Network}
      (hqueue : x.queue = r :: rest) (hserve : Edit.serve x.moved r x.network = .error f m) :
    x.Halts (.error f m)
  | unfinished {x : Serving} (h : x.queue ≠ []) : x.Halts (.error .unfinished x.network)

/-- From a state, serving comes to this outcome. -/
def ComesTo (x : Serving) (outcome : EStateM.Result Fault Network Nat) : Prop :=
  ∃ y, ReflTransGen Step x y ∧ y.Halts outcome

end Serving

open Serving

lemma serveQuietly_comesTo {resume : Nat → List Request → Renaming → Edit Nat}
    (hresume : ∀ (served : Nat) (x : Serving),
      x.ComesTo (resume served x.queue x.moved x.network))
    (bound served : Nat) (x : Serving) :
    x.ComesTo (Edit.serveQuietly resume bound served x.queue x.moved x.network) := by
  induction bound generalizing served x with
  | zero =>
      obtain ⟨n, queue, moved, skipped⟩ := x
      cases queue with
      | nil => exact ⟨_, .refl, .served rfl⟩
      | cons r rest => exact ⟨_, .refl, .unfinished (List.cons_ne_nil r rest)⟩
  | succ bound ih =>
      obtain ⟨n, queue, moved, skipped⟩ := x
      cases queue with
      | nil => exact ⟨_, .refl, .served rfl⟩
      | cons r rest =>
          cases hserve : Edit.serve moved r n with
          | error f m =>
              have hrun : Edit.serveQuietly resume (bound + 1) served (r :: rest) moved n
                  = .error f m := by
                simp only [Edit.serveQuietly, Edit.view, bind, EStateM.bind, hserve]
              rw [hrun]
              exact ⟨_, .refl, .failed rfl hserve⟩
          | ok result m =>
              obtain ⟨followUps, moved'⟩ := result
              let y : Serving := ⟨m, rest ++ followUps, moved',
                if skips n moved r then r.node :: skipped else skipped⟩
              have hrun : Edit.serveQuietly resume (bound + 1) served (r :: rest) moved n
                  = if m.generation = n.generation
                    then Edit.serveQuietly resume bound (served + 1) y.queue y.moved y.network
                    else resume (served + 1) y.queue y.moved y.network := by
                simp only [Edit.serveQuietly, Edit.view, bind, EStateM.bind, hserve]
                split_ifs <;> rfl
              have hnext : y.ComesTo (Edit.serveQuietly resume (bound + 1) served (r :: rest)
                  moved n) := by
                rw [hrun]
                split_ifs
                · exact ih (served + 1) y
                · exact hresume (served + 1) y
              obtain ⟨z, hsteps, hhalts⟩ := hnext
              exact ⟨z, .head (.head hserve) hsteps, hhalts⟩

/-- **Serving requests is a run of steps**, whatever comes out. -/
lemma serveAll_comesTo (changes served : Nat) (x : Serving) :
    x.ComesTo (Edit.serveAll changes served x.queue x.moved x.network) := by
  induction changes generalizing served x with
  | zero =>
      rw [Edit.serveAll]
      split_ifs with hqueue
      · exact ⟨x, .refl, .served hqueue⟩
      · exact ⟨x, .refl, .unfinished hqueue⟩
  | succ changes ih => exact serveQuietly_comesTo ih _ served x

lemma serveAll_ends {changes served k : Nat} {queue : List Request} {moved : Renaming}
    (hrun : Edit.serveAll changes served queue moved n = .ok k m) : Ends n queue moved m := by
  intro skipped
  obtain ⟨y, hsteps, hhalts⟩ := serveAll_comesTo changes served ⟨n, queue, moved, skipped⟩
  simp only [hrun] at hhalts
  cases hhalts with
  | served hqueue =>
      obtain ⟨l, queue', moved', skipped'⟩ := y
      obtain rfl : queue' = [] := hqueue
      exact ⟨moved', skipped', hsteps⟩

/-- **A substitution is a run of steps** that empties the queue. -/
theorem substitute_run {k : Nat} (hrun : Edit.substitute old new n = .ok k m) :
    n.isLive old = true ∧ n.isLive new.node = true ∧ ∃ uses n₁,
      Edit.raiseFanout new.node n = .ok uses n₁ ∧ Ends n₁ [⟨old, new⟩] ∅ m := by
  simp only [Edit.substitute, bind_eq_ok, Edit.query_eq_ok, Edit.view_eq_ok,
    Edit.requireLive_eq_ok] at hrun
  obtain ⟨_, _, ⟨hold, rfl⟩, _, _, ⟨hnew, rfl⟩, uses, n₁, hraise, _, _, ⟨rfl, rfl⟩, hrun⟩ := hrun
  exact ⟨hold, hnew, uses, n₁, hraise, serveAll_ends hrun⟩

/-- **What serving a request does**: it is dropped, or all uses of its node move. -/
lemma serve_cases {r : Request} {moved moved' : Renaming} {followUps : List Request}
    (hrun : Edit.serve moved r n = .ok (followUps, moved') m) :
    ((n.isLive r.node = true → (moved.resolve r.target).node = r.node) ∧ followUps = [] ∧
      moved' = moved ∧ Edit.release r.target.node n = .ok () m) ∨
    (n.isLive r.node = true ∧ (moved.resolve r.target).node ≠ r.node ∧
      moved' = moved.insert r.node (moved.resolve r.target) ∧ ∃ l,
        Edit.replaceUses r.node (moved.resolve r.target) n = .ok followUps l ∧
          Edit.release r.target.node l = .ok () m) := by
  simp only [Edit.serve, bind_eq_ok, Edit.slot_eq_ok] at hrun
  obtain ⟨slot, _, ⟨hslot, rfl⟩, hrun⟩ := hrun
  have hlive : n.isLive r.node = !slot.dead := by rw [Network.isLive, hslot, Option.any_some]
  split_ifs at hrun with hskip
  · simp only [bind_eq_ok, pure_eq_ok, Prod.mk.injEq] at hrun
    obtain ⟨⟨⟩, _, hrelease, ⟨rfl, rfl⟩, rfl⟩ := hrun
    refine .inl ⟨?_, rfl, rfl, hrelease⟩
    intro hl
    rw [hlive, Bool.not_eq_true'] at hl
    simpa [hl] using hskip
  · simp only [bind_eq_ok, pure_eq_ok, Prod.mk.injEq] at hrun
    obtain ⟨_, l, huses, ⟨⟩, _, hrelease, ⟨rfl, rfl⟩, rfl⟩ := hrun
    simp only [Bool.or_eq_true, beq_iff_eq, not_or, Bool.not_eq_true] at hskip
    exact .inr ⟨by simp [hlive, hskip.1], hskip.2, rfl, l, huses, hrelease⟩

/-! ### What a substitution leaves in place -/

/-- The frame of a substitution: no node appears, none but gates die, and gates stay gates. -/
structure Network.Shrinks (n m : Network) : Prop where
  size : m.size = n.size
  inputs : m.inputs = n.inputs
  decays : n.Decays m
  isLive : ∀ v, m.isLive v = true → n.isLive v = true
  gate : ∀ v, n.isLiveGate v = true → m.isLive v = true → m.isLiveGate v = true

lemma Network.Shrinks.refl (n : Network) : n.Shrinks n :=
  ⟨rfl, rfl, .refl n, fun _ h => h, fun _ h _ => h⟩

lemma Network.Shrinks.trans {l : Network} (h : n.Shrinks m) (h' : m.Shrinks l) :
    n.Shrinks l where
  size := h'.size.trans h.size
  inputs := h'.inputs.trans h.inputs
  decays := h.decays.trans h'.decays
  isLive v hv := h.isLive v (h'.isLive v hv)
  gate v hv hl := h'.gate v (h.gate v hv (h'.isLive v hl)) hl

lemma Network.Moves.shrinks (h : n.Moves m old new) : n.Shrinks m :=
  ⟨h.size, h.inputs, h.decays, fun v hv => (h.isLive v).symm.trans hv,
    fun v hv _ => (h.isLiveGate v).trans hv⟩

lemma Network.Retires.shrinks (h : n.Retires m) : n.Shrinks m where
  size := h.size
  inputs := h.inputs
  decays := h.decays
  isLive v hv := h.isLive hv
  gate v hv hl := by
    obtain ⟨a, b, hg⟩ := isLiveGate_iff.mp hv
    exact isLiveGate_iff.mpr ⟨a, b, h.gate_of_isLive hg hl⟩

/-- To pin a live node changes nothing but a counter. -/
lemma shrinks_of_raise {k v : Nat} (hv : n.isLive v = true)
    (hrun : Edit.raiseFanout v n = .ok k m) : n.Shrinks m :=
  (moves_of_raise hv hrun : n.Moves m v (.ofNode v)).shrinks

/-- No node becomes a gate. -/
lemma Network.Shrinks.isLiveGate {pins' : Multiset Nat} (h : n.Shrinks m)
    (hn : n.Consistent pins) (hm : m.Consistent pins') (hv : m.isLiveGate v = true) :
    n.isLiveGate v = true := by
  obtain ⟨a, b, hg⟩ := isLiveGate_iff.mp hv
  obtain ⟨kind, hk⟩ := isLive_iff.mp (h.isLive v hg.isLive)
  have hkind : n.kind? v = some kind := by rw [kind?, hk, Option.map_some]
  have hkind' : m.kind? v = some (.gate a b) := by rw [kind?, gate_iff.mp hg, Option.map_some]
  cases kind with
  | constant => exact absurd ((hn.constant_iff v).mp hkind) (hm.ne_zero_of_gate hg)
  | input i =>
      have hi := (hm.input_iff i v).mp (h.inputs ▸ (hn.input_iff i v).mpr hkind)
      rw [hkind'] at hi
      cases hi
  | gate c d => exact isLiveGate_iff.mpr ⟨c, d, gate_iff.mpr hk⟩

/-- The gates that are left, in their order. -/
lemma Network.Shrinks.gates_sublist {pins' : Multiset Nat} (h : n.Shrinks m)
    (hn : n.Consistent pins) (hm : m.Consistent pins') : m.gates.Sublist n.gates := by
  rw [gates, gates, h.size]
  exact List.monotone_filter_right _ fun v hv => h.isLiveGate hn hm hv

/-- **Each gate that died is one gate less.** -/
lemma Network.Shrinks.length_gates_le {pins' : Multiset Nat} {gone : List Nat}
    (h : n.Shrinks m) (hn : n.Consistent pins) (hm : m.Consistent pins') (hnodup : gone.Nodup)
    (hgate : ∀ v ∈ gone, n.isLiveGate v = true) (hdead : ∀ v ∈ gone, m.isDead v = true) :
    m.gates.length + gone.length ≤ n.gates.length := by
  have hdisjoint : List.Disjoint m.gates gone := by
    intro v hv hgone
    obtain ⟨a, b, hg⟩ := mem_gates.mp hv
    exact not_isLive_of_isDead (hdead v hgone) hg.isLive
  have hsub : m.gates ++ gone ⊆ n.gates := by
    intro v hv
    rcases List.mem_append.mp hv with hv | hv
    · exact (h.gates_sublist hn hm).subset hv
    · exact mem_gates.mpr (isLiveGate_iff.mp (hgate v hv))
  rw [← List.length_append]
  exact ((m.nodup_gates.append hnodup hdisjoint).subperm hsub).length_le

/-- A dead node without uses stays one, and a node that dies becomes one. -/
lemma Network.Shrinks.fanout_dead (h : n.Shrinks m)
    (h0 : n.isDead v = true → n.fanout v = 0) (hv : m.isDead v = true) : m.fanout v = 0 := by
  obtain ⟨k, hk⟩ := isDead_iff.mp hv
  have hlt : v < n.size := h.size ▸ lt_size_of_shape hk
  rcases hdead : n.isDead v with _ | _
  · have hlive : n.isLive v = true := by
      have hslot : n.slot? v = some n.nodes[v] := Array.getElem?_eq_getElem hlt
      simp only [Network.isDead, hslot, Option.any_some] at hdead
      simp [Network.isLive, hslot, hdead]
    rcases h.decays.live v hlive with hl | ⟨-, hf⟩
    · exact absurd hl (not_isLive_of_isDead hv)
    · exact hf
  · exact (h.decays.dead v hdead).2.trans (h0 hdead)

/-! ### What a step keeps -/

namespace Serving

variable {x y : Serving}

/-- **A valid state**: the network is consistent but for the targets of the queue, which are
pinned; nothing but the queue, replaced nodes and skipped nodes reads from a replaced node. -/
structure Valid (x : Serving) : Prop where
  consistent : x.network.Consistent (Request.targets x.queue)
  settled : ∃ keys, x.moved.SettledBy keys
  outputs : ∀ s ∈ x.network.outputs, s.node ∉ x.moved
  readers : ∀ g v, x.network.Reads g v → v ∈ x.moved →
    g ∈ x.queue.map (·.node) ∨ g ∈ x.moved ∨ g ∈ x.skipped
  used : ∀ v ∈ x.moved, ¬ x.network.Dangling v
  unused : ∀ v ∈ x.moved, x.network.isDead v = true → x.network.fanout v = 0

/-- Values that agree with a state: models of its network that satisfy its requests and
entries, with these values of the outputs. -/
structure Means {M : Type} (A : Connectives M) (α φ : Nat → M) (values : List M)
    (x : Serving) : Prop where
  models : A.Models α φ x.network
  queue : ∀ r ∈ x.queue, φ r.node = A.read φ r.target
  moved : ∀ v t, x.moved[v]? = some t → φ v = A.read φ t
  outputs : x.network.outputs.toList.map (A.read φ) = values

lemma mem_insert_iff {moved : Renaming} {u : Nat} {t : Signal} :
    v ∈ moved.insert u t ↔ v = u ∨ v ∈ moved := by
  rw [Std.ExtTreeMap.mem_insert, Std.LawfulEqCmp.compare_eq_iff_eq, eq_comm]

/-- The request at the head of the queue is dropped. -/
lemma Valid.drop {r : Request} {rest : List Request} {moved : Renaming} {skipped : List Nat}
    (hx : Valid ⟨n, r :: rest, moved, skipped⟩)
    (hskip : n.isLive r.node = true → (moved.resolve r.target).node = r.node)
    (hrelease : Edit.release r.target.node n = .ok () m) :
    Valid ⟨m, rest, moved, if skips n moved r then r.node :: skipped else skipped⟩ ∧
      n.Retires m := by
  have hpins : n.Consistent (r.target.node ::ₘ Request.targets rest) := hx.consistent
  obtain ⟨hm, hret, hdangling⟩ := release_spec hpins hrelease
  refine ⟨⟨hm, hx.settled, fun s hs => hx.outputs s (hret.outputs ▸ hs), ?_,
    fun v hv hd => hx.used v hv (hdangling v hd), ?_⟩, hret⟩
  · intro g v hg hv
    have hgn := hret.reads hg
    rcases hx.readers g v hgn hv with hqueue | hmoved | hskipped
    · rcases List.mem_cons.mp hqueue with rfl | hrest
      · have hskips : skips n moved r = true := by
          simp [skips, hgn.isLive, hskip hgn.isLive]
        rw [if_pos hskips]
        exact .inr (.inr List.mem_cons_self)
      · exact .inl hrest
    · exact .inr (.inl hmoved)
    · refine .inr (.inr ?_)
      split_ifs
      · exact List.mem_cons_of_mem _ hskipped
      · exact hskipped
  · intro v hv
    exact hret.shrinks.fanout_dead (hx.unused v hv)

/-- The request at the head of the queue is served. -/
lemma Valid.serve {l : Network} {r : Request} {rest followUps : List Request} {moved : Renaming}
    {skipped : List Nat} (hx : Valid ⟨n, r :: rest, moved, skipped⟩)
    (hlive : n.isLive r.node = true) (hne : (moved.resolve r.target).node ≠ r.node)
    (huses : Edit.replaceUses r.node (moved.resolve r.target) n = .ok followUps l)
    (hrelease : Edit.release r.target.node l = .ok () m) :
    Valid ⟨m, rest ++ followUps, moved.insert r.node (moved.resolve r.target), skipped⟩ ∧
      ∃ mid, n.Moves mid r.node (moved.resolve r.target) ∧ mid.Retires m := by
  obtain ⟨keys, hsettled⟩ := hx.settled
  have htarget := Renaming.resolve_notMem hsettled r.target
  obtain ⟨hl, ⟨mid, hmoves, hret⟩, hdangling, hreads, houtputs, -⟩ :=
    replaceUses_spec hx.consistent hne huses
  have hpins : Request.targets followUps + Request.targets (r :: rest)
      = r.target.node ::ₘ Request.targets (rest ++ followUps) := by
    rw [Request.targets_cons, Request.targets_append, Multiset.add_cons, add_comm]
  obtain ⟨hm, hret', hdangling'⟩ := release_spec (hpins ▸ hl) hrelease
  have hall := hmoves.shrinks.trans (hret.trans hret').shrinks
  refine ⟨⟨hm, ⟨_, hsettled.insert_resolve hne⟩, ?_, ?_, ?_, ?_⟩, mid, hmoves, hret.trans hret'⟩
  · intro s hs hv
    have hs' := hret'.outputs ▸ hs
    rcases mem_insert_iff.mp hv with hv | hv
    · exact houtputs s hs' hv
    · rcases hmoves.outputs s (hret.outputs ▸ hs') with hold | htgt
      · exact hx.outputs s hold hv
      · exact htarget (htgt ▸ hv)
  · intro g v hg hv
    have hg' := hret'.reads hg
    rw [List.map_append, List.mem_append, mem_insert_iff]
    rcases mem_insert_iff.mp hv with rfl | hv
    · exact .inl (.inr (hreads g hg'))
    · rcases hmoves.reads g v (hret.reads hg') with hold | ⟨-, htgt⟩
      · rcases hx.readers g v hold hv with hqueue | hmoved | hskipped
        · rcases List.mem_cons.mp hqueue with rfl | hrest
          · exact .inr (.inl (.inl rfl))
          · exact .inl (.inl hrest)
        · exact .inr (.inl (.inr hmoved))
        · exact .inr (.inr hskipped)
      · exact absurd (htgt ▸ hv) htarget
  · intro v hv hd
    obtain ⟨hd', hvne⟩ := hdangling v (hdangling' v hd)
    exact hx.used v ((mem_insert_iff.mp hv).resolve_left hvne) hd'
  · intro v hv
    rcases mem_insert_iff.mp hv with rfl | hv
    · exact hall.fanout_dead fun hdead => absurd hlive (not_isLive_of_isDead hdead)
    · exact hall.fanout_dead (hx.unused v hv)

/-- **A step keeps a state valid.** -/
theorem Step.valid (h : Step x y) (hx : x.Valid) :
    y.Valid ∧ x.network.Shrinks y.network ∧ ∀ v ∈ x.moved, v ∈ y.moved := by
  obtain @⟨n, m, r, rest, followUps, moved, moved', skipped, hserve⟩ := h
  obtain ⟨hskip, rfl, rfl, hrelease⟩ | ⟨hlive, hne, rfl, l, huses, hrelease⟩ := serve_cases hserve
  · obtain ⟨hy, hret⟩ := hx.drop hskip hrelease
    rw [List.append_nil]
    exact ⟨hy, hret.shrinks, fun v hv => hv⟩
  · obtain ⟨hy, mid, hmoves, hret⟩ := hx.serve hlive hne huses hrelease
    have hskips : ¬ skips n moved r = true := by simp [skips, hne]
    rw [if_neg hskips]
    exact ⟨hy, hmoves.shrinks.trans hret.shrinks, fun v hv => mem_insert_iff.mpr (.inr hv)⟩

/-- **A step leaves no gate unused** that was in use. -/
theorem Step.dangling (h : Step x y) (hx : x.Valid) (hv : y.network.Dangling v) :
    x.network.Dangling v := by
  obtain @⟨n, m, r, rest, followUps, moved, moved', skipped, hserve⟩ := h
  have hpins : n.Consistent (r.target.node ::ₘ Request.targets rest) := hx.consistent
  obtain ⟨-, -, -, hrelease⟩ | ⟨-, hne, -, l, huses, hrelease⟩ := serve_cases hserve
  · exact (release_spec hpins hrelease).2.2 v hv
  · obtain ⟨hl, -, hdangling, -⟩ := replaceUses_spec hpins hne huses
    rw [Multiset.add_cons] at hl
    exact (hdangling v ((release_spec hl hrelease).2.2 v hv)).1

/-- **A step keeps the values.** -/
theorem Step.means {M : Type} {A : Connectives M} {α φ : Nat → M} {values : List M}
    (h : Step x y) (hx : x.Valid) (hA : A.Lawful) (hmeans : x.Means A α φ values) :
    y.Means A α φ values := by
  obtain @⟨n, m, r, rest, followUps, moved, moved', skipped, hserve⟩ := h
  have hrest : ∀ r' ∈ rest, φ r'.node = A.read φ r'.target :=
    fun r' hr' => hmeans.queue r' (List.mem_cons_of_mem r hr')
  have hret_models : ∀ {l l' : Network}, l.Retires l' → A.Models α φ l → A.Models α φ l' :=
    fun hret hl => hl.mono hret.inputs fun _ _ _ => hret.gate
  obtain ⟨-, rfl, rfl, hrelease⟩ | ⟨hlive, hne, rfl, l, huses, hrelease⟩ := serve_cases hserve
  · have hpins : n.Consistent (r.target.node ::ₘ Request.targets rest) := hx.consistent
    obtain ⟨-, hret, -⟩ := release_spec hpins hrelease
    rw [List.append_nil]
    exact ⟨hret_models hret hmeans.models, hrest, hmeans.moved, hret.outputs ▸ hmeans.outputs⟩
  · have heq : φ r.node = A.read φ (moved.resolve r.target) := by
      rw [Renaming.read_resolve hA hmeans.moved]
      exact hmeans.queue r List.mem_cons_self
    obtain ⟨-, -, -, -, -, hfollows⟩ := replaceUses_spec hx.consistent hne huses
    obtain ⟨-, mid, hmoves, hret⟩ := hx.serve hlive hne huses hrelease
    obtain ⟨hmid, hout⟩ := hmoves.models hA hmeans.models heq
    refine ⟨hret_models hret hmid, ?_, ?_, ?_⟩
    · intro r' hr'
      rcases List.mem_append.mp hr' with hr' | hr'
      · exact hrest r' hr'
      · exact (hfollows r' hr').agrees hA hmeans.models heq
    · intro v t hv
      rw [Std.ExtTreeMap.getElem?_insert] at hv
      split_ifs at hv with hvr
      · cases hv
        rwa [← Std.LawfulEqCmp.compare_eq_iff_eq.mp hvr]
      · exact hmeans.moved v t hv
    · exact (hret.outputs ▸ hout).trans hmeans.outputs

/-- **What a run keeps.** -/
theorem valid_of_run (h : ReflTransGen Step x y) (hx : x.Valid) :
    y.Valid ∧ x.network.Shrinks y.network ∧ ∀ v ∈ x.moved, v ∈ y.moved := by
  induction h with
  | refl => exact ⟨hx, .refl x.network, fun _ hv => hv⟩
  | tail _ hstep ih =>
      obtain ⟨hvalid, hshrinks, hmoved⟩ := ih
      obtain ⟨hvalid', hshrinks', hmoved'⟩ := hstep.valid hvalid
      exact ⟨hvalid', hshrinks.trans hshrinks', fun v hv => hmoved' v (hmoved v hv)⟩

theorem means_of_run {M : Type} {A : Connectives M} {α φ : Nat → M} {values : List M}
    (h : ReflTransGen Step x y) (hx : x.Valid) (hA : A.Lawful) (hmeans : x.Means A α φ values) :
    y.Means A α φ values := by
  induction h with
  | refl => exact hmeans
  | tail hrun hstep ih => exact hstep.means (valid_of_run hrun hx).1 hA ih

/-- The state in which a substitution begins. -/
lemma valid_start {uses : Nat} (hn : n.WellFormed) (hnew : n.isLive new.node = true)
    (hraise : Edit.raiseFanout new.node n = .ok uses m) : Valid ⟨m, [⟨old, new⟩], ∅, []⟩ where
  consistent := Consistent.raise hn hnew hraise
  settled := ⟨[], Renaming.settledBy_empty⟩
  outputs _ _ hv := absurd hv Std.ExtTreeMap.not_mem_empty
  readers _ _ _ hv := absurd hv Std.ExtTreeMap.not_mem_empty
  used _ hv := absurd hv Std.ExtTreeMap.not_mem_empty
  unused _ hv := absurd hv Std.ExtTreeMap.not_mem_empty

/-- **The first step** of a substitution serves the request for the replaced node. -/
lemma first_of_run {moved : Renaming} {skipped : List Nat}
    (h : ReflTransGen Step ⟨n, [⟨old, new⟩], ∅, []⟩ ⟨m, [], moved, skipped⟩)
    (hold : n.isLive old = true) (hne : new.node ≠ old) :
    ∃ l l' followUps, Edit.replaceUses old new n = .ok followUps l ∧
      Edit.release new.node l = .ok () l' ∧
        ReflTransGen Step ⟨l', followUps, Std.ExtTreeMap.insert ∅ old new, []⟩
          ⟨m, [], moved, skipped⟩ := by
  rcases h.cases_head with heq | ⟨y, hstep, hrest⟩
  · cases heq
  · obtain @⟨_, l', _, _, followUps, _, moved', _, hserve⟩ := hstep
    have htarget : Renaming.resolve ∅ new = new := Renaming.resolve_empty new
    have hskips : ¬ skips n ∅ ⟨old, new⟩ = true := by simp [skips, htarget, hne]
    rw [if_neg hskips] at hrest
    obtain ⟨hskip, -⟩ | ⟨-, -, rfl, l, huses, hrelease⟩ := serve_cases hserve
    · exact absurd (htarget ▸ hskip hold) hne
    · simp only [htarget] at huses hrelease hrest
      exact ⟨l, l', followUps, huses, hrelease, hrest⟩

/-- The first step moves the uses of the replaced node. -/
lemma head_of_run {moved : Renaming} {skipped : List Nat}
    (h : ReflTransGen Step ⟨n, [⟨old, new⟩], ∅, []⟩ ⟨m, [], moved, skipped⟩)
    (hx : Valid ⟨n, [⟨old, new⟩], ∅, []⟩) (hold : n.isLive old = true) (hne : new.node ≠ old) :
    ∃ l followUps, Valid ⟨l, followUps, Std.ExtTreeMap.insert ∅ old new, []⟩ ∧
      (∃ mid, n.Moves mid old new ∧ mid.Retires l) ∧
      (∀ r ∈ followUps, r.FollowsFrom n old new) ∧
        ReflTransGen Step ⟨l, followUps, Std.ExtTreeMap.insert ∅ old new, []⟩
          ⟨m, [], moved, skipped⟩ := by
  obtain ⟨l, l', followUps, huses, hrelease, hrest⟩ := first_of_run h hold hne
  have htarget : Renaming.resolve ∅ new = new := Renaming.resolve_empty new
  obtain ⟨hy, hmoves⟩ := hx.serve hold (htarget.symm ▸ hne) (htarget.symm ▸ huses) hrelease
  obtain ⟨-, -, -, -, -, hfollows⟩ := replaceUses_spec hx.consistent hne huses
  simp only [htarget] at hy hmoves
  exact ⟨l', followUps, hy, hmoves, hfollows, hrest⟩

end Serving

end AndInverter
