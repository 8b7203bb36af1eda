import AndInverter.Proofs.Level
import AndInverter.Proofs.Network.Substitution

/-!
A substitution that leaves no cycle retires a gate.  Suppose it retired none.  A replaced gate is
read by a gate that was replaced or skipped in turn, so the highest of all these was skipped, and
that is because another gate had been replaced by it.  From there one climbs for ever: what reads
a gate that was replaced by something above all of them was replaced by such a thing, too.

* `Network.KeepsUses`: only the replaced node loses readers;
* `Request.Arises`: how the request for a consumer comes about;
* `Serving.Turn`: a request has its turn in a run;
* `Serving.Retains`: the runs that retire nothing and leave no cycle;
* `Retains.climb`, `Retains.exists_top`: the two ends of the contradiction in such a run;
* `substitute_retires`: some gate is retired.
-/

namespace AndInverter

open Network Relation Serving

variable {n m l : Network} {g i old v : Nat} {new s a b kept moved : Signal}
  {pins : Multiset Nat}

/-! ### Uses that stay -/

/-- **Only one node loses readers**: what is live reads what it read, that node aside. -/
def Network.KeepsUses (n m : Network) (old : Nat) : Prop :=
  ∀ i v, m.isLive i = true → v ≠ old → n.Reads i v → m.Reads i v

lemma Network.KeepsUses.trans (h : n.KeepsUses m old) (h' : m.KeepsUses l old)
    (hlive : ∀ v, l.isLive v = true → m.isLive v = true) : n.KeepsUses l old :=
  fun i v hi hv hread => h' i v hi hv (h i v (hlive i hi) hv hread)

lemma Network.SameGates.keepsUses (h : SameGates n m) : n.KeepsUses m old :=
  fun _ _ _ _ hread => h.reads.mpr hread

lemma Network.Retires.keepsUses (h : n.Retires m) : n.KeepsUses m old :=
  fun _ _ hi _ hread => h.reads_of_isLive hread hi

/-- A consumer that takes the new signal keeps its other fan-in. -/
lemma replaceInGate_keepsUses {result : Option Signal} (hl : n.isLive g = true)
    (hrun : Edit.replaceInGate g old new n = .ok result m) : n.KeepsUses m old := by
  obtain ⟨-, -, rfl⟩ | ⟨a, b, kept, moved, hswap, hcases⟩ := replaceInGate_cases hl hrun
  · exact (SameGates.refl m).keepsUses
  obtain ⟨_, -, -, rfl⟩ | ⟨_, _, -, -, -, -, rfl⟩ | ⟨key, hform, -, -, hrewire⟩ := hcases
  · exact (SameGates.refl m).keepsUses
  · exact (SameGates.refl m).keepsUses
  obtain ⟨hd, hg', -⟩ := rewire_effect hswap.gate hrewire
  rintro i v - hv ⟨c, d, hi, hend⟩
  by_cases hig : i = g
  · subst hig
    obtain ⟨rfl, rfl⟩ := hi.unique hswap.gate
    have hkept : v = kept.node := by
      rcases hswap.ends with ⟨hold, rfl, -⟩ | ⟨hold, rfl, -⟩
      · exact (hend.resolve_left fun hv' => hv (hv'.symm.trans hold)).symm
      · exact (hend.resolve_right fun hv' => hv (hv'.symm.trans hold)).symm
    rw [hkept]
    rcases key_of_conjunction hform with rfl | rfl
    · exact hg'.reads_left
    · exact hg'.reads_right
  · exact ⟨c, d, (hd.gate hig).mpr hi, hend⟩

/-! ### How requests come about -/

/-- **How the request for a consumer comes about**: another gate, which reads the new signal, is
to take its place; or the consumer reads the new signal already, or that is constant, and then
its target is not itself, unless it is a loop. -/
def Request.Arises (r : Request) (n : Network) (old : Nat) (new : Signal) : Prop :=
  (n.Reads r.target.node new.node ∧ r.target.node ≠ r.node) ∨
    ((new.node = 0 ∨ n.Reads r.node new.node) ∧
      (r.target.node = r.node → r.node = old ∨ n.Reads r.node r.node))

lemma Request.Arises.mono {r : Request} (h : r.Arises n old new) (hkeeps : n.KeepsUses m old)
    (hne : new.node ≠ old) (hnode : m.isLive r.node = true)
    (htarget : m.isLive r.target.node = true) : r.Arises m old new := by
  rcases h with ⟨hread, hother⟩ | ⟨hread, hloop⟩
  · exact .inl ⟨hkeeps _ _ htarget hne hread, hother⟩
  · refine .inr ⟨hread.imp_right (hkeeps _ _ hnode hne), fun heq => or_iff_not_imp_left.mpr ?_⟩
    exact fun hold => hkeeps _ _ hnode hold ((hloop heq).resolve_left hold)

/-- A conjunction folds when the signal is constant or on the node that the consumer keeps. -/
lemma Network.Swap.arises_of_folded (h : n.Swap g old new a b kept moved)
    (hn : n.Consistent pins) (hform : conjunction kept moved = .folded s) :
    (⟨g, s⟩ : Request).Arises n old new := by
  have hkept : kept.node ≠ 0 := by
    have hord := hn.ordered _ _ _ h.gate
    have := h.node_kept
    omega
  have hsame : moved.node = 0 ∨ kept.node = moved.node := by
    by_contra! hnot
    rcases conjunction_of_ne hkept hnot.1 hnot.2 with hgate | hgate <;>
      cases hgate.symm.trans hform
  refine .inr ⟨?_, fun heq => .inr ?_⟩
  · rw [← h.node_moved]
    refine hsame.imp_right fun hnode : kept.node = moved.node => ?_
    exact hnode ▸ h.reads_kept
  · have hg : g ≠ 0 := hn.ne_zero_of_gate h.gate
    have hs : s.node = g := heq
    have hself : kept.node = g := by
      rcases node_of_conjunction_folded hform with h0 | rfl | rfl <;> omega
    exact show n.Reads g g from hself ▸ h.reads_kept

/-- What is to take the place of a consumer, and why. -/
lemma replaceInGate_arises {target : Signal} (h : n.Consistent pins) (hl : n.isLive g = true)
    (hrun : Edit.replaceInGate g old new n = .ok (some target) m) :
    (⟨g, target⟩ : Request).Arises n old new := by
  obtain ⟨-, hnone, -⟩ | ⟨a, b, kept, moved, hswap, hcases⟩ := replaceInGate_cases hl hrun
  · cases hnone
  obtain ⟨s, hform, heq, -⟩ | ⟨key, other, hform, hother, hne, heq, -⟩ | ⟨_, -, -, hnone, -⟩ :=
    hcases
  · cases heq
    exact hswap.arises_of_folded h hform
  · cases heq
    have hgate := (h.hash_iff key other).mp hother
    refine .inl ⟨hswap.node_moved ▸ ?_, hne⟩
    rcases key_of_conjunction hform with rfl | rfl
    · exact hgate.reads_right
    · exact hgate.reads_left
  · cases hnone

/-- **All consumers** keep their other fan-ins, and each request has arisen. -/
lemma replaceInGates_arises {gates : List Nat} {requests : List Request} (h : n.Consistent pins)
    (hl : ∀ g ∈ gates, n.isLive g = true) (hnew : n.isLive new.node = true)
    (hne : new.node ≠ old) (hrun : Edit.replaceInGates old new gates n = .ok requests m) :
    n.KeepsUses m old ∧ ∀ r ∈ requests, r.Arises m old new := by
  induction gates generalizing n pins requests with
  | nil =>
      obtain ⟨rfl, rfl⟩ := pure_eq_ok.mp hrun
      exact ⟨(SameGates.refl n).keepsUses, fun r hr => absurd hr List.not_mem_nil⟩
  | cons g rest ih =>
      simp only [Edit.replaceInGates, bind_eq_ok] at hrun
      obtain ⟨result, n₁, hgate, hrun⟩ := hrun
      have hlg := hl g List.mem_cons_self
      have hlrest : ∀ i ∈ rest, n.isLive i = true := fun i hi => hl i (List.mem_cons_of_mem g hi)
      have hkeeps := replaceInGate_keepsUses hlg hgate
      obtain ⟨rfl, h₁, hmoves, -⟩ | ⟨target, rfl, rfl, htarget, -⟩ :=
        replaceInGate_spec h hlg hnew hgate
      · have hlrest₁ : ∀ i ∈ rest, n₁.isLive i = true :=
          fun i hi => (hmoves.isLive i).trans (hlrest i hi)
        have hnew₁ := (hmoves.isLive new.node).trans hnew
        obtain ⟨hkeeps', harises⟩ := ih h₁ hlrest₁ hnew₁ hrun
        obtain ⟨-, hmoves', -⟩ := replaceInGates_spec h₁ hlrest₁ hnew₁ hne hrun
        exact ⟨hkeeps.trans hkeeps' fun i hi => (hmoves'.isLive i).symm.trans hi, harises⟩
      · simp only [bind_eq_ok, pure_eq_ok] at hrun
        obtain ⟨_, n₂, hraise, requests', m, hrest, rfl, rfl⟩ := hrun
        have hmoves : n₁.Moves n₂ old new := moves_of_raise htarget hraise
        have hlrest₂ : ∀ i ∈ rest, n₂.isLive i = true :=
          fun i hi => (hmoves.isLive i).trans (hlrest i hi)
        have hnew₂ := (hmoves.isLive new.node).trans hnew
        have h₂ := h.raise htarget hraise
        obtain ⟨hkeeps', harises⟩ := ih h₂ hlrest₂ hnew₂ hrest
        obtain ⟨-, hmoves', -⟩ := replaceInGates_spec h₂ hlrest₂ hnew₂ hne hrest
        have hlive : ∀ v, m.isLive v = n₁.isLive v :=
          fun v => (hmoves'.isLive v).trans (hmoves.isLive v)
        have hall : n₁.KeepsUses m old :=
          ((raiseFanout_spec hraise).1.toSameGates.keepsUses).trans hkeeps'
            fun v hv => (hmoves'.isLive v).symm.trans hv
        refine ⟨hall, fun r hr => ?_⟩
        rcases List.mem_cons.mp hr with rfl | hr
        · exact (replaceInGate_arises h hlg hgate).mono hall hne ((hlive _).trans hlg)
            ((hlive _).trans htarget)
        · exact harises r hr

/-- **When all uses of a node have moved**, only that node lost readers. -/
lemma replaceUses_arises {requests : List Request} (h : n.Consistent pins)
    (hne : new.node ≠ old) (hrun : Edit.replaceUses old new n = .ok requests m) :
    n.KeepsUses m old ∧ ∀ r ∈ requests, m.isLive r.node = true → r.Arises m old new := by
  obtain ⟨hm, -⟩ := replaceUses_spec h hne hrun
  obtain ⟨hnew, n₁, count, n₂, hgates, houtputs, hlast⟩ := replaceUses_cases hrun
  have hlive : ∀ g ∈ n.consumers old, n.isLive g = true := fun _ => isLive_of_mem_consumers
  obtain ⟨hkeeps, harises⟩ := replaceInGates_arises h hlive hnew hne hgates
  obtain ⟨h₁, hmoves, -⟩ := replaceInGates_spec h hlive hnew hne hgates
  obtain ⟨h₂, -, hsame, -⟩ :=
    replaceInOutputs_spec h₁ ((hmoves.isLive _).trans hnew) houtputs
  have hrest : n₁.KeepsUses m old ∧ ∀ v, m.isLive v = true → n₁.isLive v = true := by
    rcases hlast with ⟨hfree, hretire⟩ | ⟨-, rfl⟩
    · obtain ⟨-, hret, -⟩ := retire_spec h₂ (fun _ => hfree) hretire
      exact ⟨hsame.keepsUses.trans hret.keepsUses fun v => hret.isLive,
        fun v hv => (hsame.isLive v).symm.trans (hret.isLive hv)⟩
    · exact ⟨hsame.keepsUses, fun v hv => (hsame.isLive v).symm.trans hv⟩
  refine ⟨hkeeps.trans hrest.1 hrest.2, fun r hr hnode => ?_⟩
  have hpinned : r.target.node ∈ Request.targets requests + pins :=
    Multiset.mem_add.mpr (.inl (List.mem_map.mpr ⟨r, hr, rfl⟩))
  exact (harises r hr).mono hrest.1 hne hnode (hm.pins_live _ hpinned)

/-- Among some gates there is a highest one. -/
lemma Network.exists_highest (n : Network) {p : Nat → Prop}
    (hgate : ∀ v, p v → n.isLiveGate v = true) (h : ∃ v, p v) :
    ∃ v, p v ∧ ∀ u, p u → n.level u ≤ n.level v := by
  classical
  have hmem : ∀ v, v ∈ (Finset.range n.size).filter p ↔ p v := by
    intro v
    rw [Finset.mem_filter, Finset.mem_range, and_iff_right_iff_imp]
    intro hv
    obtain ⟨a, b, hg⟩ := isLiveGate_iff.mp (hgate v hv)
    exact hg.lt_size
  obtain ⟨v, hv⟩ := h
  obtain ⟨u, hu, hhigh⟩ := Finset.exists_max_image _ n.level ⟨v, (hmem v).mpr hv⟩
  exact ⟨u, (hmem u).mp hu, fun w hw => hhigh w ((hmem w).mpr hw)⟩

/-! ### Steps and turns -/

namespace Serving

variable {x y z first last : Serving} {r : Request}

/-- **What a step does** with the request at the head of the queue: it is dropped, and nothing is
replaced, or all uses of its node move. -/
lemma Step.outcome (h : Step x y) (hx : x.Valid) : ∃ r rest followUps,
    x.queue = r :: rest ∧ y.queue = rest ++ followUps ∧
      y.skipped = (if skips x.network x.moved r then r.node :: x.skipped else x.skipped) ∧
      (((x.network.isLive r.node = true → (x.moved.resolve r.target).node = r.node) ∧
          followUps = [] ∧ y.moved = x.moved ∧ x.network.Retires y.network) ∨
        (x.network.isLive r.node = true ∧ (x.moved.resolve r.target).node ≠ r.node ∧
          y.moved = x.moved.insert r.node (x.moved.resolve r.target) ∧ ∃ l,
            Edit.replaceUses r.node (x.moved.resolve r.target) x.network = .ok followUps l ∧
              l.Retires y.network)) := by
  obtain @⟨n, m, r, rest, followUps, moved, moved', skipped, hserve⟩ := h
  have hpins : n.Consistent (r.target.node ::ₘ Request.targets rest) := hx.consistent
  refine ⟨r, rest, followUps, rfl, rfl, rfl, ?_⟩
  obtain ⟨hskip, rfl, rfl, hrelease⟩ | ⟨hlive, hne, rfl, l, huses, hrelease⟩ := serve_cases hserve
  · exact .inl ⟨hskip, rfl, rfl, (release_spec hpins hrelease).2.1⟩
  · obtain ⟨hl, -⟩ := replaceUses_spec hpins hne huses
    rw [Multiset.add_cons] at hl
    exact .inr ⟨hlive, hne, rfl, l, huses, (release_spec hl hrelease).2.1⟩

/-- What has not been replaced keeps its readers. -/
lemma Step.reads_of_notMem (h : Step x y) (hx : x.Valid) (hi : y.network.isLive i = true)
    (hv : v ∉ y.moved) (hread : x.network.Reads i v) : y.network.Reads i v := by
  obtain ⟨r, rest, followUps, -, -, -, ⟨-, -, -, hret⟩ | ⟨-, hne, hmoved, l, huses, hret⟩⟩ :=
    h.outcome hx
  · exact hret.reads_of_isLive hread hi
  · have hvr : v ≠ r.node := fun heq => hv (hmoved ▸ mem_insert_iff.mpr (.inl heq))
    have hkeeps := (replaceUses_arises hx.consistent hne huses).1
    exact (hkeeps.trans hret.keepsUses fun _ => hret.isLive) i v hi hvr hread

/-- What has been replaced gets no new readers. -/
lemma Step.reads_of_mem (h : Step x y) (hx : x.Valid) (hv : v ∈ x.moved)
    (hread : y.network.Reads i v) : x.network.Reads i v := by
  obtain ⟨r, rest, followUps, -, -, -, ⟨-, -, -, hret⟩ | ⟨-, hne, -, l, huses, hret⟩⟩ :=
    h.outcome hx
  · exact hret.reads hread
  · obtain ⟨keys, hsettled⟩ := hx.settled
    obtain ⟨-, ⟨mid, hmoves, hret'⟩, -⟩ := replaceUses_spec hx.consistent hne huses
    refine (hmoves.reads i v (hret'.reads (hret.reads hread))).resolve_right ?_
    rintro ⟨-, rfl⟩
    exact Renaming.resolve_notMem hsettled r.target hv

/-- **Proper requests** are for gates, and one with its own node as the target is for a loop, or
for a gate that was replaced before. -/
def Proper (x : Serving) : Prop :=
  ∀ r ∈ x.queue, x.network.isLive r.node = true → x.network.isLiveGate r.node = true ∧
    (r.target.node = r.node → r.node ∈ x.moved ∨ x.network.Reads r.node r.node)

/-- **A step keeps requests proper.** -/
lemma Step.proper (h : Step x y) (hx : x.Valid) (hproper : x.Proper) : y.Proper := by
  obtain ⟨hy, hshrinks, hmono⟩ := h.valid hx
  -- what was proper stays so
  have hstay : ∀ r ∈ x.queue, y.network.isLive r.node = true → y.network.isLiveGate r.node = true ∧
      (r.target.node = r.node → r.node ∈ y.moved ∨ y.network.Reads r.node r.node) := by
    intro r hr hl
    obtain ⟨hgate, hloop⟩ := hproper r hr (hshrinks.isLive _ hl)
    refine ⟨hshrinks.gate _ hgate hl, fun heq => or_iff_not_imp_left.mpr fun hv => ?_⟩
    exact h.reads_of_notMem hx hl hv ((hloop heq).resolve_left fun hmem => hv (hmono _ hmem))
  obtain ⟨r, rest, followUps, hqueue, hqueue', -, hcases⟩ := h.outcome hx
  intro r' hr' hl
  rw [hqueue', List.mem_append] at hr'
  rcases hr' with hr' | hr'
  · exact hstay r' (hqueue ▸ List.mem_cons_of_mem r hr') hl
  · obtain ⟨-, rfl, -⟩ | ⟨-, hne, hmoved, l, huses, hret⟩ := hcases
    · exact absurd hr' List.not_mem_nil
    have hll := hret.isLive hl
    obtain ⟨-, ⟨mid, hmoves, -⟩, -, -, -, hfollows⟩ := replaceUses_spec hx.consistent hne huses
    refine ⟨hshrinks.gate _ (hfollows r' hr').reads.isLiveGate hl, fun heq => ?_⟩
    rcases (replaceUses_arises hx.consistent hne huses).2 r' hr' hll with ⟨-, hother⟩ | ⟨-, hloop⟩
    · exact absurd heq hother
    · rcases hloop heq with hold | hread
      · exact .inl (hmoved ▸ mem_insert_iff.mpr (.inl hold))
      · exact .inr (hret.reads_of_isLive hread hl)

/-- **What a run keeps**: proper requests, skipped nodes, and readers of what is never replaced; and
what was replaced gets no new ones. -/
lemma keeps_of_run (h : ReflTransGen Step x y) (hx : x.Valid) :
    (x.Proper → y.Proper) ∧ (∀ g ∈ x.skipped, g ∈ y.skipped) ∧
      (∀ i v, y.network.isLive i = true → v ∉ y.moved → x.network.Reads i v →
        y.network.Reads i v) ∧
      ∀ i v, v ∈ x.moved → y.network.Reads i v → x.network.Reads i v := by
  induction h with
  | refl => exact ⟨id, fun _ hg => hg, fun _ _ _ _ hread => hread, fun _ _ _ hread => hread⟩
  | tail hrun hstep ih =>
      obtain ⟨hvalid, -, hmono⟩ := valid_of_run hrun hx
      obtain ⟨-, hshrinks, hmono'⟩ := hstep.valid hvalid
      obtain ⟨hproper, hskipped, hkeeps, hnew⟩ := ih
      refine ⟨fun hx => hstep.proper hvalid (hproper hx), ?_, ?_, ?_⟩
      · intro g hg
        obtain ⟨r, rest, followUps, -, -, hskips, -⟩ := hstep.outcome hvalid
        rw [hskips]
        split_ifs
        · exact List.mem_cons_of_mem _ (hskipped g hg)
        · exact hskipped g hg
      · intro i v hi hv hread
        exact hstep.reads_of_notMem hvalid hi hv
          (hkeeps i v (hshrinks.isLive i hi) (fun hmem => hv (hmono' v hmem)) hread)
      · exact fun i v hv hread => hnew i v hv (hstep.reads_of_mem hvalid (hmono v hv) hread)

/-- **A request has its turn** in a run. -/
structure Turn (first last : Serving) (r : Request) (x y : Serving) : Prop where
  before : ReflTransGen Step first x
  head : ∃ rest, x.queue = r :: rest
  step : Step x y
  after : ReflTransGen Step y last

lemma Turn.rest (h : Turn first last r x y) : ReflTransGen Step x last := .head h.step h.after

lemma Turn.of_run (h : Turn z last r x y) (hrun : ReflTransGen Step first z) :
    Turn first last r x y :=
  ⟨hrun.trans h.before, h.head, h.step, h.after⟩

lemma Turn.trans (h : Turn first z r x y) (hrun : ReflTransGen Step z last) :
    Turn first last r x y :=
  ⟨h.before, h.head, h.step, h.after.trans hrun⟩

/-- Each request has its turn before the queue is empty. -/
lemma exists_turn (h : ReflTransGen Step x last) (hlast : last.queue = []) (hr : r ∈ x.queue) :
    ∃ y z, Turn x last r y z := by
  induction h using ReflTransGen.head_induction_on with
  | refl => exact absurd (hlast ▸ hr) List.not_mem_nil
  | @head x y hstep hrest ih =>
      obtain @⟨n, m, r₀, rest, followUps, moved, moved', skipped, hserve⟩ := id hstep
      rcases List.mem_cons.mp hr with rfl | hr
      · exact ⟨_, _, .refl, ⟨rest, rfl⟩, hstep, hrest⟩
      · obtain ⟨u, w, ht⟩ := ih (List.mem_append_left followUps hr)
        exact ⟨u, w, ht.of_run (.single hstep)⟩

/-- **A node is served with a signal** in a run: all its uses move there. -/
def Serves (first last : Serving) (v : Nat) (s : Signal) : Prop :=
  ∃ r x y, Turn first last r x y ∧ r.node = v ∧ x.network.isLive v = true ∧
    x.moved.resolve r.target = s ∧ s.node ≠ v

lemma Serves.trans (h : Serves first y v s) (hrun : ReflTransGen Step y last) :
    Serves first last v s := by
  obtain ⟨r, u, w, hturn, hserve⟩ := h
  exact ⟨r, u, w, hturn.trans hrun, hserve⟩

/-- An entry tells with what its node was served. -/
lemma serves_of_entry (h : ReflTransGen Step first last) (hfirst : first.Valid)
    (hempty : first.moved = ∅) (hv : last.moved[v]? = some s) : Serves first last v s := by
  induction h generalizing v s with
  | refl => simp [hempty] at hv
  | @tail x y hrun hstep ih =>
      have hlater : x.moved[v]? = some s → Serves first y v s :=
        fun hv => (ih hv).trans (.single hstep)
      obtain ⟨r, rest, followUps, hqueue, -, -, ⟨-, -, hmoved, -⟩ | ⟨hlive, hne, hmoved, -⟩⟩ :=
        hstep.outcome (valid_of_run hrun hfirst).1
      · exact hlater (hmoved ▸ hv)
      · rw [hmoved, Std.ExtTreeMap.getElem?_insert] at hv
        split_ifs at hv with heq
        · obtain rfl : r.node = v := Std.LawfulEqCmp.compare_eq_iff_eq.mp heq
          cases hv
          exact ⟨r, x, y, ⟨hrun, ⟨rest, hqueue⟩, hstep, .refl⟩, rfl, hlive, rfl, hne⟩
        · exact hlater hv

/-- A skipped node had become its own target when the request for it had its turn. -/
lemma exists_turn_of_skipped (h : ReflTransGen Step first last) (hfirst : first.Valid)
    (hempty : first.skipped = []) (hg : g ∈ last.skipped) :
    ∃ r x y, Turn first last r x y ∧ r.node = g ∧ x.network.isLive g = true ∧
      (x.moved.resolve r.target).node = g := by
  induction h with
  | refl => simp [hempty] at hg
  | @tail x y hrun hstep ih =>
      obtain ⟨r, rest, followUps, hqueue, -, hskipped, -⟩ :=
        hstep.outcome (valid_of_run hrun hfirst).1
      rw [hskipped] at hg
      by_cases hskips : skips x.network x.moved r = true ∧ g = r.node
      · obtain ⟨hskips, rfl⟩ := hskips
        simp only [skips, Bool.and_eq_true, beq_iff_eq] at hskips
        exact ⟨r, x, y, ⟨hrun, ⟨rest, hqueue⟩, hstep, .refl⟩, rfl, hskips⟩
      · have hold : g ∈ x.skipped := by
          split_ifs at hg with hskip
          · exact (List.mem_cons.mp hg).resolve_left fun heq => hskips ⟨hskip, heq⟩
          · exact hg
        obtain ⟨r, u, w, hturn, hrest⟩ := ih hold
        exact ⟨r, u, w, hturn.trans (.single hstep), hrest⟩

/-- What is live when it has its turn is replaced or skipped. -/
lemma Turn.cases (h : Turn first last r x y) (hfirst : first.Valid)
    (hlive : x.network.isLive r.node = true) :
    ((x.moved.resolve r.target).node = r.node ∧ r.node ∈ last.skipped) ∨
      ((x.moved.resolve r.target).node ≠ r.node ∧ r.node ∈ last.moved) := by
  have hx := (valid_of_run h.before hfirst).1
  have hy := (h.step.valid hx).1
  obtain ⟨rest, hhead⟩ := h.head
  obtain ⟨r', rest', followUps, hqueue, -, hskipped, hcases⟩ := h.step.outcome hx
  obtain ⟨rfl, rfl⟩ := List.cons.inj (hhead.symm.trans hqueue)
  obtain ⟨hskip, -⟩ | ⟨-, hne, hmoved, -⟩ := hcases
  · refine .inl ⟨hskip hlive, (keeps_of_run h.after hy).2.1 _ ?_⟩
    rw [hskipped, if_pos (by simp [skips, hlive, hskip hlive])]
    exact List.mem_cons_self
  · exact .inr ⟨hne, (valid_of_run h.after hy).2.2 _ (hmoved ▸ mem_insert_iff.mpr (.inl rfl))⟩

/-! ### Runs that retire nothing -/

/-- **A run that retains all gates**: it serves all requests, retires none and leaves no cycle. -/
structure Retains (first last : Serving) : Prop where
  run : ReflTransGen Step first last
  valid : first.Valid
  proper : first.Proper
  moved : first.moved = ∅
  skipped : first.skipped = []
  queue : last.queue = []
  acyclic : last.network.Acyclic
  isLive : ∀ v, first.network.isLiveGate v = true → last.network.isLive v = true

/-- **A signal on top**: it was never replaced, and nothing that was replaced or skipped is
higher. -/
structure Tops (last : Serving) (s : Signal) : Prop where
  notMem : s.node ∉ last.moved
  level_le : ∀ g, g ∈ last.moved ∨ g ∈ last.skipped →
    last.network.level g ≤ last.network.level s.node

section Retains

variable (h : Retains first last)

include h

lemma Retains.valid_at (hx : ReflTransGen Step first x) : x.Valid := (valid_of_run hx h.valid).1

/-- What was a gate on the way is one at the end. -/
lemma Retains.isLiveGate (hx : ReflTransGen Step first x) (hv : x.network.isLiveGate v = true) :
    last.network.isLiveGate v = true := by
  obtain ⟨hvalid, hshrinks, -⟩ := valid_of_run hx h.valid
  have hfirst := hshrinks.isLiveGate h.valid.consistent hvalid.consistent hv
  exact (valid_of_run h.run h.valid).2.1.gate v hfirst (h.isLive v hfirst)

/-- What is never replaced keeps its readers to the end. -/
lemma Retains.reads (hx : ReflTransGen Step first x) (hlast : ReflTransGen Step x last)
    (hv : v ∉ last.moved) (hread : x.network.Reads i v) : last.network.Reads i v := by
  obtain ⟨a, b, hg⟩ := isLiveGate_iff.mp (h.isLiveGate hx hread.isLiveGate)
  exact (keeps_of_run hlast (h.valid_at hx)).2.2.1 i v hg.isLive hv hread

/-- Whatever has its turn is a gate. -/
lemma Retains.proper_turn (ht : Turn first last r x y) (hlive : x.network.isLive r.node = true) :
    x.network.isLiveGate r.node = true ∧
      (r.target.node = r.node → r.node ∈ x.moved ∨ x.network.Reads r.node r.node) := by
  obtain ⟨rest, hhead⟩ := ht.head
  exact (keeps_of_run ht.before h.valid).1 h.proper r (hhead ▸ List.mem_cons_self) hlive

/-- What was replaced was served with something. -/
lemma Retains.exists_serves (hv : v ∈ last.moved) : ∃ s, Serves first last v s := by
  obtain ⟨s, hs⟩ := Option.isSome_iff_exists.mp
    (Std.ExtTreeMap.mem_iff_isSome_getElem?.mp hv)
  exact ⟨s, serves_of_entry h.run h.valid h.moved hs⟩

/-- What was served was a gate that was replaced. -/
lemma Retains.of_serves (hserves : Serves first last v s) :
    v ∈ last.moved ∧ last.network.isLiveGate v = true := by
  obtain ⟨r, x, y, ht, rfl, hlive, rfl, hne⟩ := hserves
  refine ⟨?_, h.isLiveGate ht.before (h.proper_turn ht hlive).1⟩
  exact ((ht.cases h.valid hlive).resolve_left fun hskip => hne hskip.1).2

/-- What was replaced or skipped is a gate. -/
lemma Retains.isLiveGate_of_mem (hg : g ∈ last.moved ∨ g ∈ last.skipped) :
    last.network.isLiveGate g = true := by
  rcases hg with hg | hg
  · obtain ⟨s, hs⟩ := h.exists_serves hg
    exact (h.of_serves hs).2
  · obtain ⟨r, x, y, ht, rfl, hlive, -⟩ :=
      exists_turn_of_skipped h.run h.valid h.skipped hg
    exact h.isLiveGate ht.before (h.proper_turn ht hlive).1

/-- A signal on top is not constant, once anything was served. -/
lemma Retains.ne_zero (hserves : Serves first last v t) (htops : last.Tops s) : s.node ≠ 0 := by
  intro h0
  obtain ⟨hmoved, hgate⟩ := h.of_serves hserves
  obtain ⟨a, b, hg⟩ := isLiveGate_iff.mp hgate
  have hle := htops.level_le v (.inl hmoved)
  rw [h0, (h.valid_at h.run).consistent.level_zero, level_gate h.acyclic hg] at hle
  omega

/-- **What still reads a gate that was served had its turn later**, and it reads the signal that the
gate was served with, unless that is constant or another gate that reads it was to take its
place. -/
lemma Retains.exists_turn_of_reads (ht : Turn first last r x y)
    (hlive : x.network.isLive r.node = true) (hne : (x.moved.resolve r.target).node ≠ r.node)
    (hnot : (x.moved.resolve r.target).node ∉ last.moved) (hread : last.network.Reads i r.node) :
    ∃ e x' y', Turn first last e x' y' ∧ e.node = i ∧ x'.network.isLive i = true ∧
      ((last.network.Reads e.target.node (x.moved.resolve r.target).node ∧ e.target.node ≠ i) ∨
        (x.moved.resolve r.target).node = 0 ∨
          last.network.Reads i (x.moved.resolve r.target).node) := by
  have hx := h.valid_at ht.before
  have hafter : ReflTransGen Step first y := ht.before.tail ht.step
  have hy := h.valid_at hafter
  obtain ⟨rest, hhead⟩ := ht.head
  obtain ⟨r', rest', followUps, hqueue, hqueue', -, hcases⟩ := ht.step.outcome hx
  obtain ⟨rfl, rfl⟩ := List.cons.inj (hhead.symm.trans hqueue)
  obtain ⟨hskip, -⟩ | ⟨-, -, hentry, l, huses, hret⟩ := hcases
  · exact absurd (hskip hlive) hne
  -- the gate got no new readers, and so a request for this one was queued
  have hthen : y.network.Reads i r.node := (keeps_of_run ht.after hy).2.2.2 i r.node
    (hentry ▸ mem_insert_iff.mpr (.inl rfl)) hread
  obtain ⟨-, -, -, hreads, -⟩ := replaceUses_spec hx.consistent hne huses
  obtain ⟨e, he, rfl⟩ := List.mem_map.mp (hreads i (hret.reads hthen))
  have hmem : e ∈ y.queue := hqueue' ▸ List.mem_append_right rest he
  obtain ⟨x', y', hlater⟩ := exists_turn ht.after h.queue hmem
  have hturn : Turn first last e x' y' := hlater.of_run hafter
  have hlive' : x'.network.isLive e.node = true :=
    (valid_of_run hturn.rest (h.valid_at hturn.before)).2.1.isLive _ hread.isLive
  refine ⟨e, x', y', hturn, rfl, hlive', ?_⟩
  have hkeep : ∀ u, y.network.isLive u = true → l.Reads u (x.moved.resolve r.target).node →
      last.network.Reads u (x.moved.resolve r.target).node :=
    fun u hu hread => h.reads hafter ht.after hnot (hret.reads_of_isLive hread hu)
  have htarget : y.network.isLive e.target.node = true :=
    hy.consistent.pins_live _ (List.mem_map.mpr ⟨e, hmem, rfl⟩)
  rcases (replaceUses_arises hx.consistent hne huses).2 e he (hret.isLive hthen.isLive) with
    ⟨hother, hne'⟩ | ⟨hsame, -⟩
  · exact .inl ⟨hkeep _ htarget hother, hne'⟩
  · exact .inr (hsame.imp_right (hkeep _ hthen.isLive))

/-- **One climbs on.**  What reads a gate that was served with a signal on top was served with
one, too. -/
lemma Retains.climb (hserves : Serves first last v s) (htops : last.Tops s)
    (hread : last.network.Reads i v) : ∃ t, Serves first last i t ∧ last.Tops t := by
  have hnonzero := h.ne_zero hserves htops
  obtain ⟨r, x, y, ht, rfl, hlive, rfl, hne⟩ := hserves
  have habove : ∀ u, last.network.Reads u (x.moved.resolve r.target).node →
      ∀ g, g ∈ last.moved ∨ g ∈ last.skipped → last.network.level g < last.network.level u :=
    fun u hu g hg => (htops.level_le g hg).trans_lt (hu.level_lt h.acyclic)
  obtain ⟨e, x', y', hturn, rfl, hlive', ⟨hother, hne'⟩ | h0 | hsame⟩ :=
    h.exists_turn_of_reads ht hlive hne htops.notMem hread
  · have hhigh := habove _ hother
    have hnot : e.target.node ∉ last.moved := fun hv => (hhigh _ (.inl hv)).false
    refine ⟨e.target, ⟨e, x', y', hturn, rfl, hlive', ?_, hne'⟩, hnot, fun g hg => (hhigh g hg).le⟩
    have hmono := (valid_of_run hturn.rest (h.valid_at hturn.before)).2.2
    exact Renaming.resolve_of_notMem fun hv => hnot (hmono _ hv)
  · exact absurd h0 hnonzero
  · -- the reader would be above all that was replaced or skipped, and it is one of these
    have hhigh := habove _ hsame
    rcases hturn.cases h.valid hlive' with ⟨-, hv⟩ | ⟨-, hv⟩
    · exact absurd (hhigh _ (.inr hv)) (lt_irrefl _)
    · exact absurd (hhigh _ (.inl hv)) (lt_irrefl _)

/-- A gate that was replaced is read by one that was replaced or skipped. -/
lemma Retains.reader (hv : v ∈ last.moved) :
    ∃ g, last.network.Reads g v ∧ (g ∈ last.moved ∨ g ∈ last.skipped) := by
  obtain ⟨m, queue, moved, skipped⟩ := last
  obtain rfl : queue = [] := h.queue
  exact (h.valid_at h.run).reader hv (h.isLiveGate_of_mem (.inl hv))

/-- **Some gate was served with a signal on top**: with the highest of the gates that were replaced
or skipped. -/
lemma Retains.exists_top (hv : v ∈ last.moved) : ∃ w s, Serves first last w s ∧ last.Tops s := by
  obtain ⟨g, hg, hhigh⟩ := last.network.exists_highest
    (p := fun g => g ∈ last.moved ∨ g ∈ last.skipped)
    (fun g hg => h.isLiveGate_of_mem hg) ⟨v, .inl hv⟩
  have hnot : g ∉ last.moved := by
    intro hmem
    obtain ⟨u, hread, hu⟩ := h.reader hmem
    exact (hhigh u hu).not_gt (hread.level_lt h.acyclic)
  obtain ⟨r, x, y, ht, rfl, hlive, hself⟩ :=
    exists_turn_of_skipped h.run h.valid h.skipped (hg.resolve_left hnot)
  rcases x.moved.exists_entry_of_resolve r.target with heq | ⟨w, s, hentry, hnode⟩
  · -- the request would be for a loop
    rcases (h.proper_turn ht hlive).2 (heq.symm.trans hself) with hmem | hloop
    · exact absurd ((valid_of_run ht.rest (h.valid_at ht.before)).2.2 _ hmem) hnot
    · exact absurd (.single (h.reads ht.before ht.rest hnot hloop)) (h.acyclic r.node)
  · have hs : s.node = r.node := hnode.trans hself
    exact ⟨w, s, (serves_of_entry ht.before h.valid h.moved hentry).trans ht.rest,
      hs ▸ hnot, fun g hg => hs ▸ hhigh g hg⟩

/-- **No run retains all gates** but one that replaces nothing. -/
theorem Retains.notMem : v ∉ last.moved := by
  intro hv
  obtain ⟨w, ⟨s, hserves, htops⟩, hhigh⟩ := last.network.exists_highest
    (p := fun w => ∃ s, Serves first last w s ∧ last.Tops s)
    (fun w ⟨s, hserves, _⟩ => (h.of_serves hserves).2) (h.exists_top hv)
  obtain ⟨i, hread, -⟩ := h.reader (h.of_serves hserves).1
  exact (hhigh i (h.climb hserves htops hread)).not_gt (hread.level_lt h.acyclic)

end Retains

end Serving

/-- **A substitution that leaves no cycle retires a gate.** -/
theorem substitute_retires {k : Nat} (hn : n.WellFormed) (hold : n.isLiveGate old = true)
    (hne : new.node ≠ old) (hrun : Edit.substitute old new n = .ok k m) (hm : m.Acyclic) :
    ∃ v, n.isLiveGate v = true ∧ m.isDead v = true := by
  by_contra! hnone
  have hdecays := (substitute_wellFormed hn hrun).2.decays
  obtain ⟨hlive, hnew, uses, n₁, hraise, hends⟩ := substitute_run hrun
  obtain ⟨moved, skipped, hsteps⟩ := hends []
  have hmoves : n.Moves n₁ old new := moves_of_raise hnew hraise
  have hstart : Valid ⟨n₁, [⟨old, new⟩], ∅, []⟩ := valid_start hn hnew hraise
  have hretains : Retains ⟨n₁, [⟨old, new⟩], ∅, []⟩ ⟨m, [], moved, skipped⟩ := by
    refine ⟨hsteps, hstart, ?_, rfl, rfl, rfl, hm, ?_⟩
    · intro r hr _
      obtain rfl := List.mem_singleton.mp hr
      exact ⟨(hmoves.isLiveGate old).trans hold, fun heq => absurd heq hne⟩
    · intro v hv
      have hv : n.isLiveGate v = true := (hmoves.isLiveGate v).symm.trans hv
      obtain ⟨a, b, hg⟩ := isLiveGate_iff.mp hv
      exact (hdecays.live v hg.isLive).resolve_right fun hdead => hnone v hv hdead.1
  exact hretains.notMem (mem_moved_of_run hsteps hstart ((hmoves.isLive old).trans hlive) hne)

end AndInverter
