import AndInverter.Proofs.Network.Assembly
import AndInverter.Proofs.Network.Ordering
import AndInverter.Proofs.Network.Wear

/-!
When a substitution ends.  While the graph stays as it is, requests climb from gates to their
consumers, which is good for finitely many steps in an acyclic network; and each change of the
graph wears it down.  So a substitution can only go on for ever around a cycle, and it can only
give up when a counter is full or when what a request's target went to was retired.

* `Network.Ranks` puts gates above what they read, and `Serving.Step.effort_lt`: a step that
  leaves the graph alone takes effort out of the queue;
* `Serving.Strands`: the replacement that a request asks for is dead;
* `serveAll_blames`: a fault has its cause in a state that was reached;
* `substitute_ends_iff`: what a substitution can fail on, and exactly when it does not.
-/

namespace AndInverter

open Network Relation

variable {n m : Network} {old v : Nat} {new s : Signal} {f : Fault} {pins : Multiset Nat}

/-! ### Ranks -/

namespace Network

variable {rank : Nat → Nat} {queue : List Request}

/-- **A ranking of the gates**: each has its own rank, above those of its fan-ins. -/
structure Ranks (n : Network) (rank : Nat → Nat) : Prop where
  lt : ∀ g v, n.Reads g v → rank v < rank g
  inj : ∀ g h, n.isLiveGate g = true → n.isLiveGate h = true → rank g = rank h → g = h
  lt_size : ∀ g, n.isLiveGate g = true → rank g < n.size

/-- The gates of an acyclic network can be ranked. -/
lemma Acyclic.exists_ranks (h : n.Acyclic) (hn : n.Consistent pins) :
    ∃ rank, n.Ranks rank := by
  have horder := n.topology_spec.1
  have hmem : ∀ g, n.isLiveGate g = true → g ∈ n.topology.order.toList := by
    intro g hg
    obtain ⟨a, b, hg⟩ := isLiveGate_iff.mp hg
    exact horder.mem_of_acyclic h hn.fanIns_live hg.isLive
  refine ⟨n.topology.order.toList.idxOf, ?_, ?_, ?_⟩
  · rintro g v ⟨a, b, hg, hv⟩
    exact horder.idxOf_lt (hmem g (isLiveGate_iff.mpr ⟨a, b, hg⟩)) ⟨a, b, hg, hv⟩
  · intro g h hg _ heq
    exact (List.idxOf_inj (hmem g hg)).mp heq
  · intro g hg
    exact (List.idxOf_lt_length_of_mem (hmem g hg)).trans_le horder.length_le

lemma Ranks.congr (h : n.Ranks rank) (hsame : SameGates n m) : m.Ranks rank := by
  have hgate : ∀ g, m.isLiveGate g = n.isLiveGate g := by
    intro g
    rw [Bool.eq_iff_iff, isLiveGate_iff, isLiveGate_iff]
    simp only [hsame.gate]
  refine ⟨fun g v hg => h.lt g v (hsame.reads.mp hg), ?_, ?_⟩
  · intro g i hg hi
    exact h.inj g i (hgate g ▸ hg) (hgate i ▸ hi)
  · intro g hg
    rw [hsame.size]
    exact h.lt_size g (hgate g ▸ hg)

/-- **The effort of a queue**: as many steps as there are ways up from its nodes, at most. -/
def effort (n : Network) (rank : Nat → Nat) (queue : List Request) : Nat :=
  (queue.map fun r => 2 ^ (n.size - rank r.node)).sum

lemma effort_le (n : Network) (rank : Nat → Nat) (queue : List Request) :
    n.effort rank queue ≤ queue.length * 2 ^ n.size := by
  induction queue with
  | nil => exact Nat.zero_le _
  | cons r rest ih =>
      have hpow : 2 ^ (n.size - rank r.node) ≤ 2 ^ n.size :=
        Nat.pow_le_pow_right (by omega) (Nat.sub_le _ _)
      rw [List.length_cons, Nat.succ_mul]
      simp only [effort, List.map_cons, List.sum_cons] at ih ⊢
      omega

/-- **Requests for the consumers of a node** take less effort than one for the node. -/
lemma Ranks.effort_lt (h : n.Ranks rank) (hnodup : (queue.map (·.node)).Nodup)
    (hreads : ∀ r ∈ queue, n.Reads r.node v) (hv : rank v < n.size) :
    n.effort rank queue < 2 ^ (n.size - rank v) := by
  have hgate : ∀ g ∈ queue.map (·.node), n.isLiveGate g = true ∧ rank v < rank g := by
    intro g hg
    obtain ⟨r, hr, rfl⟩ := List.mem_map.mp hg
    exact ⟨(hreads r hr).isLiveGate, h.lt _ v (hreads r hr)⟩
  have hinj : Set.InjOn (fun g => n.size - rank g) (queue.map (·.node)).toFinset := by
    intro g hg i hi heq
    obtain ⟨hg, -⟩ := hgate g (List.mem_toFinset.mp hg)
    obtain ⟨hi, -⟩ := hgate i (List.mem_toFinset.mp hi)
    have hgsize := h.lt_size g hg
    have hisize := h.lt_size i hi
    exact h.inj g i hg hi (by simp only at heq; omega)
  calc n.effort rank queue
      = ((queue.map (·.node)).map fun g => 2 ^ (n.size - rank g)).sum := by
        rw [effort, List.map_map]
        rfl
    _ = ∑ g ∈ (queue.map (·.node)).toFinset, 2 ^ (n.size - rank g) :=
        (List.sum_toFinset _ hnodup).symm
    _ = ∑ e ∈ (queue.map (·.node)).toFinset.image fun g => n.size - rank g, 2 ^ e :=
        (Finset.sum_image hinj).symm
    _ < 2 ^ (n.size - rank v) := by
        refine Nat.geomSum_lt le_rfl ?_
        intro e he
        obtain ⟨g, hg, rfl⟩ := Finset.mem_image.mp he
        have hlt := (hgate g (List.mem_toFinset.mp hg)).2
        omega

end Network

/-! ### Steps -/

namespace Serving

variable {x y z : Serving} {rank : Nat → Nat}

/-- Serving is deterministic. -/
lemma step_rightUnique : Relator.RightUnique Step := by
  intro x y z hy hz
  exact Option.some.inj ((step_iff.mp hy).symm.trans (step_iff.mp hz))

/-- A run from a state in which no request can be served leads nowhere else. -/
lemma eq_of_stuck (hxy : ReflTransGen Step x y) (hxz : ReflTransGen Step x z)
    (hy : ∀ w, ¬ Step y w) (hz : ∀ w, ¬ Step z w) : y = z := by
  have hstuck : ∀ {u w : Serving}, (∀ t, ¬ Step u t) → ReflTransGen Step u w → u = w := by
    intro u w hu hrun
    rcases hrun.cases_head with heq | ⟨t, hstep, -⟩
    · exact heq
    · exact absurd hstep (hu t)
  rcases hxy.total_of_right_unique step_rightUnique hxz with hrun | hrun
  · exact hstuck hy hrun
  · exact (hstuck hz hrun).symm

/-- **A step that leaves the graph alone** takes effort out of the queue. -/
lemma Step.effort_lt (h : Step x y) (hx : x.Valid)
    (hgeneration : y.network.generation = x.network.generation)
    (hrank : x.network.Ranks rank) :
    SameGraph x.network y.network ∧
      y.network.effort rank y.queue < x.network.effort rank x.queue := by
  obtain @⟨n, m, r, rest, followUps, moved, moved', skipped, hserve⟩ := h
  have hsame : SameGraph n m := (Edit.keepsPace_serve moved r n _ m hserve).same hgeneration
  refine ⟨hsame, ?_⟩
  have hsplit : m.effort rank (rest ++ followUps)
      = n.effort rank rest + n.effort rank followUps := by
    simp only [effort, hsame.size, List.map_append, List.sum_append]
  have hcons : n.effort rank (r :: rest)
      = 2 ^ (n.size - rank r.node) + n.effort rank rest := rfl
  suffices hlt : n.effort rank followUps < 2 ^ (n.size - rank r.node) by
    simp only [hsplit, hcons]
    omega
  obtain ⟨-, rfl, -, -⟩ | ⟨hlive, hne, -, l, huses, -⟩ := serve_cases hserve
  · exact Nat.two_pow_pos _
  · have hsub := (replaceUses_wears hx.consistent hne huses).2
    cases followUps with
    | nil => exact Nat.two_pow_pos _
    | cons first others =>
        have hreads : ∀ r' ∈ first :: others, n.Reads r'.node r.node := fun r' hr' =>
          mem_consumers.mp (hsub.subset (List.mem_map_of_mem hr'))
        have hfirst := hreads first List.mem_cons_self
        have hlt := hrank.lt _ _ hfirst
        have hsize := hrank.lt_size _ hfirst.isLiveGate
        exact hrank.effort_lt (hsub.nodup (n.nodup_gates.filter _)) hreads (hlt.trans hsize)

/-! ### Faults and their causes -/

/-- All positions that a state names are in its network. -/
structure Within (x : Serving) : Prop where
  queue : ∀ r ∈ x.queue, r.node < x.network.size
  moved : ∀ (v : Nat) (t : Signal), x.moved[v]? = some t → t.node < x.network.size

/-- A resolved signal is in the network. -/
lemma Within.resolve_lt (h : x.Within) (hs : s.node < x.network.size) :
    (x.moved.resolve s).node < x.network.size := by
  have key : ∀ (bound : Nat) (s : Signal), s.node < x.network.size →
      (x.moved.follow bound s).node < x.network.size := by
    intro bound
    induction bound with
    | zero => exact fun _ hs => hs
    | succ bound ih =>
        intro s hs
        rw [Renaming.follow]
        cases hentry : x.moved[s.node]? with
        | none => exact hs
        | some t => exact ih _ (h.moved s.node t hentry)
  exact key _ s hs

/-- A target is pinned, and so it is in the network. -/
lemma Valid.target_lt {r : Request} {rest : List Request} (h : x.Valid)
    (hqueue : x.queue = r :: rest) : r.target.node < x.network.size := by
  refine lt_size_of_isLive (h.consistent.pins_live _ ?_)
  rw [hqueue, Request.targets_cons]
  exact Multiset.mem_cons_self _ _

lemma Step.within (h : Step x y) (hx : x.Valid) (hwithin : x.Within) : y.Within := by
  have hsize := (h.valid hx).2.1.size
  obtain @⟨n, m, r, rest, followUps, moved, moved', skipped, hserve⟩ := h
  have hrest : ∀ r' ∈ rest, r'.node < m.size := fun r' hr' => by
    rw [hsize]
    exact hwithin.queue r' (List.mem_cons_of_mem r hr')
  obtain ⟨-, rfl, rfl, -⟩ | ⟨-, hne, rfl, l, huses, -⟩ := serve_cases hserve
  · rw [List.append_nil]
    refine ⟨hrest, fun v t hv => ?_⟩
    rw [hsize]
    exact hwithin.moved v t hv
  · refine ⟨?_, ?_⟩
    · intro r' hr'
      rcases List.mem_append.mp hr' with hr' | hr'
      · exact hrest r' hr'
      · obtain ⟨-, -, -, -, -, hfollows⟩ := replaceUses_spec hx.consistent hne huses
        rw [hsize]
        exact (hfollows r' hr').reads.lt_size
    · intro v t hv
      rw [hsize]
      rw [Std.ExtTreeMap.getElem?_insert] at hv
      split_ifs at hv
      · cases hv
        exact hwithin.resolve_lt (hx.target_lt rfl)
      · exact hwithin.moved v t hv

/-- The request at the head of the queue cannot be served. -/
def Fails (x : Serving) (f : Fault) : Prop :=
  ∃ r rest m, x.queue = r :: rest ∧ Edit.serve x.moved r x.network = .error f m

/-- **A stranded request** is for a live node, and what its target went to is dead. -/
def Strands (x : Serving) (f : Fault) : Prop :=
  ∃ r rest, x.queue = r :: rest ∧ x.network.isLive r.node = true ∧
    x.network.isDead (x.moved.resolve r.target).node = true ∧
      f = .deadReplacement (x.moved.resolve r.target) r.node

/-- **The two causes** for which a request cannot be served. -/
lemma Fails.cases (h : x.Fails f) (hx : x.Valid) (hwithin : x.Within) :
    f = .counterOverflow ∨ x.Strands f := by
  obtain ⟨r, rest, m, hqueue, hserve⟩ := h
  have hn : x.network.Consistent (Request.targets (r :: rest)) := hqueue ▸ hx.consistent
  have hnode : r.node < x.network.size := hwithin.queue r (hqueue ▸ List.mem_cons_self)
  exact (serve_eq_error hn hnode (hwithin.resolve_lt (hx.target_lt hqueue)) hserve).imp_right
    fun ⟨hfault, hlive, hdead⟩ => ⟨r, rest, hqueue, hlive, hdead, hfault⟩

/-- A stranded request cannot be served. -/
lemma Strands.fails (h : x.Strands f) : x.Fails f := by
  obtain ⟨r, rest, hqueue, hlive, hdead, rfl⟩ := h
  obtain ⟨k, hk⟩ := isDead_iff.mp hdead
  obtain ⟨slot, hslot, hkind⟩ := Option.map_eq_some_iff.mp hk
  obtain ⟨k', hk'⟩ := isLive_iff.mp hlive
  obtain ⟨slot', hslot', hkind'⟩ := Option.map_eq_some_iff.mp hk'
  rw [Prod.mk.injEq] at hkind hkind'
  have hne : (x.moved.resolve r.target).node ≠ r.node := by
    intro heq
    rw [heq] at hdead
    exact not_isLive_of_isDead hdead hlive
  have huses : Edit.replaceUses r.node (x.moved.resolve r.target) x.network
      = .error (.deadReplacement (x.moved.resolve r.target) r.node) x.network := by
    refine bind_eq_error.mpr (.inr ⟨slot, _, Edit.slot_eq_ok.mpr ⟨hslot, rfl⟩, ?_⟩)
    rw [hkind.2, if_pos rfl]
    exact throw_eq_error.mpr ⟨rfl, rfl⟩
  refine ⟨r, rest, x.network, hqueue, ?_⟩
  refine bind_eq_error.mpr (.inr ⟨slot', _, Edit.slot_eq_ok.mpr ⟨hslot', rfl⟩, ?_⟩)
  have hcond : ¬ (slot'.dead || (x.moved.resolve r.target).node == r.node) = true := by
    simp [hkind'.2, hne]
  rw [if_neg hcond]
  exact bind_eq_error.mpr (.inl huses)

/-- A request fails in one way. -/
lemma Fails.unique {f' : Fault} (h : x.Fails f) (h' : x.Fails f') : f = f' := by
  obtain ⟨r, rest, m, hqueue, hserve⟩ := h
  obtain ⟨r', rest', m', hqueue', hserve'⟩ := h'
  rw [hqueue] at hqueue'
  cases hqueue'
  rw [hserve] at hserve'
  cases hserve'
  rfl

/-- A state whose first request cannot be served has no next one. -/
lemma Fails.stuck (h : x.Fails f) (y : Serving) : ¬ Step x y := by
  rintro ⟨hserve⟩
  obtain ⟨r, rest, m, hqueue, hfails⟩ := h
  cases hqueue
  rw [hserve] at hfails
  cases hfails

/-- **A fault with a cause**: from here a state is reached in which the first request fails that
way, or the serving goes on around a cycle. -/
def Blames (x : Serving) (f : Fault) : Prop :=
  ∃ y, ReflTransGen Step x y ∧ (y.Fails f ∨ (f = .unfinished ∧ ¬ y.network.Acyclic))

lemma Blames.head (h : y.Blames f) (hstep : Step x y) : x.Blames f := by
  obtain ⟨z, hrun, hcause⟩ := h
  exact ⟨z, .head hstep hrun, hcause⟩

end Serving

open Serving

/-- **A fault while the graph stays** has a cause, as long as the bound exceeds the effort. -/
lemma serveQuietly_blames {resume : Nat → List Request → Renaming → Edit Nat} {limit : Nat}
    (hresume : ∀ served queue moved skipped n m, Valid ⟨n, queue, moved, skipped⟩ →
      potential ⟨n, queue, moved, skipped⟩ < limit →
        resume served queue moved n = .error f m → Blames ⟨n, queue, moved, skipped⟩ f)
    {bound served : Nat} {queue : List Request} {moved : Renaming} {skipped : List Nat}
    (hx : Valid ⟨n, queue, moved, skipped⟩)
    (hpotential : potential ⟨n, queue, moved, skipped⟩ ≤ limit)
    (heffort : ∀ rank, n.Ranks rank → n.effort rank queue ≤ bound)
    (hrun : Edit.serveQuietly resume bound served queue moved n = .error f m) :
    Blames ⟨n, queue, moved, skipped⟩ f := by
  induction bound generalizing served queue moved skipped n with
  | zero =>
      cases queue with
      | nil => exact absurd hrun pure_ne_error
      | cons r rest =>
          obtain ⟨rfl, -⟩ := throw_eq_error.mp hrun
          refine ⟨_, .refl, .inr ⟨rfl, fun hacyclic => ?_⟩⟩
          obtain ⟨rank, hrank⟩ := Acyclic.exists_ranks hacyclic hx.consistent
          have hzero := heffort rank hrank
          have hpos := Nat.two_pow_pos (n.size - rank r.node)
          simp only [effort, List.map_cons, List.sum_cons] at hzero
          omega
  | succ bound ih =>
      cases queue with
      | nil => exact absurd hrun pure_ne_error
      | cons r rest =>
          simp only [Edit.serveQuietly, bind_eq_error] at hrun
          rcases hrun with hrun | ⟨generation, _, hview, hrun⟩
          · exact absurd hrun Edit.view_ne_error
          obtain ⟨rfl, rfl⟩ := Edit.view_eq_ok.mp hview
          rcases hrun with hserve | ⟨⟨followUps, moved'⟩, l, hserve, hrun⟩
          · exact ⟨_, .refl, .inl ⟨r, rest, _, rfl, hserve⟩⟩
          have hstep : Step ⟨n, r :: rest, moved, skipped⟩ ⟨l, rest ++ followUps, moved',
              if skips n moved r then r.node :: skipped else skipped⟩ := .head hserve
          obtain ⟨hle, hchange⟩ := hstep.potential_le hx
          have hvalid := (hstep.valid hx).1
          rcases hrun with hrun | ⟨generation', _, hview, hrun⟩
          · exact absurd hrun Edit.view_ne_error
          obtain ⟨rfl, rfl⟩ := Edit.view_eq_ok.mp hview
          refine Blames.head ?_ hstep
          split_ifs at hrun with hgeneration
          · refine ih hvalid (hle.trans hpotential) ?_ hrun
            intro rank hrank
            -- the graph is the same, so a ranking of the new network ranked the old one
            have hsame := (Edit.keepsPace_serve moved r n _ l hserve).same hgeneration
            have hback : SameGates l n :=
              ⟨hsame.size.symm, hsame.shape.symm, hsame.inputs.symm, hsame.hash.symm,
                hsame.liveGates.symm⟩
            have hless := (hstep.effort_lt hx hgeneration (hrank.congr hback)).2
            have hbound := heffort rank (hrank.congr hback)
            exact Nat.le_of_lt_succ (hless.trans_le hbound)
          · exact hresume _ _ _ _ _ _ hvalid
              ((hchange.resolve_left hgeneration).trans_le hpotential) hrun

/-- **A fault while requests are served** has a cause, as long as more changes are allowed than
the potential. -/
lemma serveAll_blames {changes served : Nat} {queue : List Request} {moved : Renaming}
    {skipped : List Nat} (hx : Valid ⟨n, queue, moved, skipped⟩)
    (hpotential : potential ⟨n, queue, moved, skipped⟩ < changes)
    (hrun : Edit.serveAll changes served queue moved n = .error f m) :
    Blames ⟨n, queue, moved, skipped⟩ f := by
  induction changes generalizing served queue moved skipped n m with
  | zero => exact absurd hpotential (Nat.not_lt_zero _)
  | succ changes ih =>
      simp only [Edit.serveAll, bind_eq_error] at hrun
      rcases hrun with hrun | ⟨size, _, hview, hrun⟩
      · exact absurd hrun Edit.view_ne_error
      obtain ⟨rfl, rfl⟩ := Edit.view_eq_ok.mp hview
      refine serveQuietly_blames (fun _ _ _ _ _ _ hx hlt hrun => ih hx hlt hrun) hx
        (Nat.le_of_lt_succ hpotential) ?_ hrun
      intro rank _
      calc n.effort rank queue ≤ queue.length * 2 ^ n.size := n.effort_le rank queue
        _ ≤ (queue.length + 1) * 2 ^ (n.size + 1) :=
            Nat.mul_le_mul (Nat.le_succ _) (Nat.pow_le_pow_right (by omega) (Nat.le_succ _))
        _ = (queue.length + 1) <<< (n.size + 1) := (Nat.shiftLeft_eq _ _).symm

/-! ### Substitutions -/

/-- **A state that a substitution reaches.** -/
def Network.Reaches (n : Network) (old : Nat) (new : Signal) (x : Serving) : Prop :=
  ∃ uses n₁, Edit.raiseFanout new.node n = .ok uses n₁ ∧
    ReflTransGen Step ⟨n₁, [⟨old, new⟩], ∅, []⟩ x

lemma Network.Reaches.valid {x : Serving} (h : n.Reaches old new x) (hn : n.WellFormed)
    (hold : n.isLive old = true) (hnew : n.isLive new.node = true) : x.Valid ∧ x.Within := by
  obtain ⟨uses, n₁, hraise, hrun⟩ := h
  have hstart : Valid ⟨n₁, [⟨old, new⟩], ∅, []⟩ := valid_start hn hnew hraise
  have hwithin : Within ⟨n₁, [⟨old, new⟩], ∅, []⟩ := by
    refine ⟨?_, fun v t hv => by simp at hv⟩
    intro r hr
    rw [List.mem_singleton.mp hr, (raiseFanout_spec hraise).1.size]
    exact lt_size_of_isLive hold
  induction hrun with
  | refl => exact ⟨hstart, hwithin⟩
  | tail _ hstep ih => exact ⟨(hstep.valid ih.1).1, hstep.within ih.1 ih.2⟩

/-- **A fault of a substitution** has a cause in a state that it reached. -/
lemma substitute_blames (hn : n.WellFormed) (hold : n.isLive old = true)
    (hnew : n.isLive new.node = true) (hrun : Edit.substitute old new n = .error f m) :
    (f = .counterOverflow ∧ Edit.raiseFanout new.node n = .error f m) ∨
      ∃ x, n.Reaches old new x ∧ (x.Fails f ∨ (f = .unfinished ∧ ¬ x.network.Acyclic)) := by
  simp only [Edit.substitute, bind_eq_error] at hrun
  rcases hrun with hrun | ⟨_, _, hquery, hrun⟩
  · rw [Edit.query_eq_error, Edit.requireLive_eq_ok (u := ()) |>.mpr hold] at hrun
    cases hrun.1
  obtain ⟨-, rfl⟩ := Edit.query_eq_ok.mp hquery
  rcases hrun with hrun | ⟨_, _, hquery, hrun⟩
  · rw [Edit.query_eq_error, Edit.requireLive_eq_ok (u := ()) |>.mpr hnew] at hrun
    cases hrun.1
  obtain ⟨-, rfl⟩ := Edit.query_eq_ok.mp hquery
  rcases hrun with hraise | ⟨uses, n₁, hraise, hrun⟩
  · exact .inl ⟨Edit.raiseFanout_eq_error (lt_size_of_isLive hnew) hraise, hraise⟩
  right
  rcases hrun with hrun | ⟨changes, _, hview, hrun⟩
  · exact absurd hrun Edit.view_ne_error
  obtain ⟨rfl, rfl⟩ := Edit.view_eq_ok.mp hview
  have hstart : Valid ⟨n₁, [⟨old, new⟩], ∅, []⟩ := valid_start hn hnew hraise
  obtain ⟨x, hreached, hcause⟩ := serveAll_blames hstart hstart.potential_lt hrun
  exact ⟨x, ⟨uses, n₁, hraise, hreached⟩, hcause⟩

/-- **What a substitution can fail on**: a full counter, a stranded request, or a cycle. -/
lemma substitute_eq_error (hn : n.WellFormed) (hold : n.isLive old = true)
    (hnew : n.isLive new.node = true) (hrun : Edit.substitute old new n = .error f m) :
    f = .counterOverflow ∨
      ∃ x, n.Reaches old new x ∧ (x.Strands f ∨ (f = .unfinished ∧ ¬ x.network.Acyclic)) := by
  rcases substitute_blames hn hold hnew hrun with hfull | ⟨x, hreached, hfails | hcyclic⟩
  · exact .inl hfull.1
  · obtain ⟨hx, hwithin⟩ := hreached.valid hn hold hnew
    exact (hfails.cases hx hwithin).imp_right fun hstrands => ⟨x, hreached, .inl hstrands⟩
  · exact .inr ⟨x, hreached, .inr hcyclic⟩

/-- **What a substitution can fail on, and exactly when it does not.**  Apart from a full counter,
it gives up on a stranded request only, and it does not come to an end only where it came to a
cyclic network.  Where all networks that it comes through are acyclic, it ends well, or on a full
counter, if and only if it strands no request. -/
theorem substitute_ends_iff (hn : n.WellFormed) (hold : n.isLive old = true)
    (hnew : n.isLive new.node = true) :
    (∀ f m, Edit.substitute old new n = .error f m → f = .counterOverflow ∨
      ∃ x, n.Reaches old new x ∧ (x.Strands f ∨ (f = .unfinished ∧ ¬ x.network.Acyclic))) ∧
    ((∀ x, n.Reaches old new x → x.network.Acyclic) →
      ((∃ k m, Edit.substitute old new n = .ok k m) ∨
          (∃ m, Edit.substitute old new n = .error .counterOverflow m) ↔
        ∀ x f, n.Reaches old new x → ¬ x.Strands f)) := by
  have hcause : ∀ f m, Edit.substitute old new n = .error f m → f = .counterOverflow ∨
      ∃ x, n.Reaches old new x ∧ (x.Strands f ∨ (f = .unfinished ∧ ¬ x.network.Acyclic)) :=
    fun f m => substitute_eq_error hn hold hnew
  refine ⟨hcause, fun hacyclic => ⟨?_, ?_⟩⟩
  · rintro hends x f ⟨uses, n₁, hraise, hx⟩ hstrands
    have hstuck := hstrands.fails.stuck
    rcases hends with ⟨k, m, hrun⟩ | ⟨m, hrun⟩
    · -- the run ends in a state without requests, and in this one
      obtain ⟨-, -, uses', n₁', hraise', hends⟩ := substitute_run hrun
      rw [hraise] at hraise'
      cases hraise'
      obtain ⟨moved, skipped, hend⟩ := hends []
      obtain rfl := eq_of_stuck hx hend hstuck nofun
      obtain ⟨r, rest, hqueue, -⟩ := hstrands
      cases hqueue
    · rcases substitute_blames hn hold hnew hrun with
        ⟨-, hfull⟩ | ⟨y, ⟨_, _, hraise', hy⟩, hfails | ⟨hcyclic, -⟩⟩
      · rw [hraise] at hfull
        cases hfull
      · rw [hraise] at hraise'
        cases hraise'
        obtain rfl := eq_of_stuck hx hy hstuck hfails.stuck
        obtain rfl := hstrands.fails.unique hfails
        obtain ⟨_, _, -, -, -, hfault⟩ := hstrands
        cases hfault
      · cases hcyclic
  · intro hstrands
    cases hrun : Edit.substitute old new n with
    | ok k m => exact .inl ⟨k, m, rfl⟩
    | error f m =>
        right
        rcases hcause f m hrun with rfl | ⟨x, hreached, hx | hcyclic⟩
        · exact ⟨m, rfl⟩
        · exact absurd hx (hstrands x f hreached)
        · exact absurd (hacyclic x hreached) hcyclic.2

/-- A gate that is replaced by one of its fan-ins, which makes two of its neighbours one. -/
theorem substitute_ends_iff_of_merge : ∃ (n : Network) (m : Network),
    Edit.substitute 4 (.ofNode 1) n = .ok 2 m ∧ m.isDead 5 = true ∧
      (∀ f m, Edit.substitute 4 (.ofNode 1) n = .error f m → f = .counterOverflow ∨
        ∃ x, n.Reaches 4 (.ofNode 1) x ∧
          (x.Strands f ∨ (f = .unfinished ∧ ¬ x.network.Acyclic))) ∧
      ((∀ x, n.Reaches 4 (.ofNode 1) x → x.network.Acyclic) →
        ((∃ k m, Edit.substitute 4 (.ofNode 1) n = .ok k m) ∨
            (∃ m, Edit.substitute 4 (.ofNode 1) n = .error .counterOverflow m) ↔
          ∀ x f, n.Reaches 4 (.ofNode 1) x → ¬ x.Strands f)) := by
  let n := Network.empty.assemble [.input, .input, .input, .gate 2 4, .gate 8 6, .gate 2 6,
    .output 10, .output 12]
  have hn : n.WellFormed := (Network.Sound.assemble wellFormed_empty _).1
  have hends : (match Edit.substitute 4 (.ofNode 1) n with
    | .ok k m => k == 2 && m.isDead 5 | .error _ _ => false) = true := by decide +kernel
  cases hrun : Edit.substitute 4 (.ofNode 1) n with
  | error => simp [hrun] at hends
  | ok k m =>
      simp only [hrun, Bool.and_eq_true, beq_iff_eq] at hends
      obtain ⟨rfl, hdead⟩ := hends
      exact ⟨n, m, hrun, hdead, substitute_ends_iff hn (by decide +kernel) (by decide +kernel)⟩

/-- A gate that is to become true.  The gates above it fold or meet one after the other, and one
of them is retired while a request still leads to it. -/
def stranded : Network := Network.empty.assemble
  [.input, .input, .input, .gate 2 4, .gate 8 6, .gate 6 10, .gate 10 12, .gate 8 12, .gate 10 16,
    .gate 12 16, .gate 20 6, .output 13]

/-- **A substitution may give up**: the target of a queued request is pinned, but not the node
that the target has been replaced by. -/
theorem substitute_may_strand : ¬ ∀ (n : Network) (old : Nat) (new : Signal), n.WellFormed →
    n.Acyclic → n.isLive old = true → n.isLive new.node = true → ¬ n.DependsOn new.node old →
      ∃ k m, Edit.substitute old new n = .ok k m := by
  intro h
  obtain ⟨hn, hacyclic⟩ : stranded.Sound := Network.Sound.assemble wellFormed_empty _
  have hcone : ¬ stranded.DependsOn 0 4 := fun hdep =>
    absurd (hdep.eq_of_not_gate (by decide +kernel)) (by decide)
  have hfails : (match Edit.substitute 4 .one stranded with
    | .ok _ _ => false | .error f _ => f = .deadReplacement (.ofNode 7) 10) = true := by
    decide +kernel
  obtain ⟨k, m, hrun⟩ :=
    h stranded 4 .one hn hacyclic (by decide +kernel) (by decide +kernel) hcone
  simp [hrun] at hfails

end AndInverter
