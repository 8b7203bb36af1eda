import AndInverter.Proofs.Network.Progress
import AndInverter.Proofs.Network.Substitution

/-!
Substitution by a signal that no gate reads, such as one that was made for this.  Its
conjunctions are new, so each consumer of the replaced node takes it as its own fan-in, and the
first request is the only one.

* `Network.Accepts`: the consumers that can take a signal as their own fan-in;
* `replaceInGates_of_accepts`: none of them is requested to be replaced;
* `substitute_of_unread`: the replaced gate is out of use then;
* `isDead_of_private`: and so is each gate that it alone used.
-/

namespace AndInverter

open Network Relation Serving

namespace Network

variable {n m : Network} {g g' old v : Nat} {new a b a' b' kept kept' moved moved' : Signal}
  {key : AndKey} {pins : Multiset Nat}

/-- **Consumers accept** a signal in place of a node: their new conjunctions take a gate, which
is not there yet. -/
def Accepts (n : Network) (old : Nat) (new : Signal) (gates : List Nat) : Prop :=
  ∀ g ∈ gates, ∀ a b kept moved, n.Swap g old new a b kept moved →
    ∃ key, conjunction kept moved = .gate key ∧ n.hash[key]? = none

/-- Consumers whose new conjunctions are the same are the same. -/
lemma Swap.eq_of_conjunction (hn : n.Consistent pins) (h : n.Swap g old new a b kept moved)
    (h' : n.Swap g' old new a' b' kept' moved') (hform : conjunction kept moved = .gate key)
    (hform' : conjunction kept' moved' = .gate key) : g = g' := by
  have hnode : moved.node = moved'.node := h.node_moved.trans h'.node_moved.symm
  have hlt := (lhs_lt_rhs_of_gate hform).2
  have hsides : kept = kept' ∧ moved = moved' := by
    rcases key_of_conjunction hform with rfl | rfl <;>
      rcases key_of_conjunction hform' with heq | heq <;> cases heq
    · exact ⟨rfl, rfl⟩
    · exact absurd hnode (Nat.ne_of_gt hlt)
    · exact absurd hnode (Nat.ne_of_lt hlt)
    · exact ⟨rfl, rfl⟩
  obtain ⟨rfl, rfl⟩ := hsides
  -- what they lose is the same signal, and they have their fan-ins in the same order
  have hsame : ∀ {x y : Signal}, x.node = old → y.node = old →
      new.complementIf x.complemented = new.complementIf y.complemented → x = y := by
    rintro ⟨x, cx⟩ ⟨y, cy⟩ rfl rfl heq
    rcases new with ⟨w, cw⟩
    cases cx <;> cases cy <;> cases cw <;> simp_all [Signal.complementIf]
  have hord := hn.ordered _ _ _ h.gate
  have hord' := hn.ordered _ _ _ h'.gate
  have hg := h.gate
  have hg' := h'.gate
  rcases h.ends with ⟨ha, rfl, rfl⟩ | ⟨hb, rfl, rfl⟩ <;>
    rcases h'.ends with ⟨ha', hk, hm⟩ | ⟨hb', hk, hm⟩
  · obtain rfl := hsame ha ha' hm
    exact hn.gate_injective hg (hk ▸ hg')
  · obtain rfl := hsame ha hb' hm
    subst hk
    omega
  · obtain rfl := hsame hb ha' hm
    subst hk
    omega
  · obtain rfl := hsame hb hb' hm
    exact hn.gate_injective hg (hk ▸ hg')

/-- A signal that no gate reads is accepted everywhere. -/
lemma accepts_of_unread (hn : n.Consistent pins) (h0 : new.node ≠ 0)
    (hunread : ∀ g, ¬ n.Reads g new.node) (gates : List Nat) : n.Accepts old new gates := by
  intro g _ a b kept moved hswap
  have hkept : kept.node ≠ 0 := by
    have hord := hn.ordered _ _ _ hswap.gate
    have := hswap.node_kept
    omega
  have hmoved : moved.node = new.node := hswap.node_moved
  have hne : kept.node ≠ moved.node := by
    intro heq
    exact hunread g (hmoved ▸ heq ▸ hswap.reads_kept)
  have hfree : ∀ key : AndKey, key.lhs = moved ∨ key.rhs = moved → n.hash[key]? = none := by
    intro key hkey
    by_contra hsome
    obtain ⟨other, hother⟩ := Option.ne_none_iff_exists'.mp hsome
    have hgate := (hn.hash_iff key other).mp hother
    refine hunread other (hmoved ▸ ?_)
    rcases hkey with rfl | rfl
    · exact hgate.reads_left
    · exact hgate.reads_right
  rcases conjunction_of_ne hkept (hmoved ▸ h0) hne with hform | hform
  · exact ⟨_, hform, hfree _ (.inr rfl)⟩
  · exact ⟨_, hform, hfree _ (.inl rfl)⟩

/-- **A node is private to a gate**: the gate reads it, and it has no other use. -/
structure Private (n : Network) (g v : Nat) : Prop where
  reads : n.Reads g v
  reader : ∀ i, n.Reads i v → i = g
  outputs : ∀ s ∈ n.outputs, s.node ≠ v

/-- A node that counts as used once is private to the gate that reads it. -/
lemma WellFormed.private_of_fanout (hn : n.WellFormed) (hread : n.Reads g v)
    (h1 : n.fanout v = 1) : n.Private g v := by
  have huses : n.gateSum (pairUses v) + n.outputUses v = 1 := by
    have hfanout := Consistent.fanout_eq hn v (Consistent.isLive_of_reads hn hread)
    rw [h1, Multiset.count_zero] at hfanout
    exact hfanout.symm
  have hpos : ∀ {i}, n.Reads i v → 0 < ((n.operands? i).map (pairUses v)).getD 0 := by
    rintro i ⟨a, b, hg, hv⟩
    rw [show n.operands? i = some (a, b) from hg, Option.map_some, Option.getD_some, pairUses]
    rcases hv with rfl | rfl <;> simp
  have hsum : ∀ s : Finset Nat, s ⊆ Finset.range n.size →
      ∑ i ∈ s, ((n.operands? i).map (pairUses v)).getD 0 ≤ n.gateSum (pairUses v) :=
    fun s hs => Finset.sum_le_sum_of_subset hs
  refine ⟨hread, ?_, ?_⟩
  · intro i hi
    by_contra hne
    have hle := hsum {i, g} (by
      simp [Finset.insert_subset_iff, hi.lt_size, hread.lt_size])
    rw [Finset.sum_pair hne] at hle
    have := hpos hi
    have := hpos hread
    omega
  · intro s hs hsv
    have hle := hsum {g} (by simp [hread.lt_size])
    rw [Finset.sum_singleton] at hle
    have := hpos hread
    have houtput : 0 < n.outputUses v :=
      List.countP_pos_iff.mpr ⟨s, by simpa using hs, by simpa using hsv⟩
    omega

end Network

variable {n m : Network} {k old v : Nat} {new : Signal} {pins : Multiset Nat}

/-- **No request follows where all consumers accept the signal**, for each leaves the other keys
free. -/
lemma replaceInGates_of_accepts {gates : List Nat} {requests : List Request}
    (h : n.Consistent pins) (hreads : ∀ g ∈ gates, n.Reads g old) (hnodup : gates.Nodup)
    (hnew : n.isLive new.node = true) (haccepts : n.Accepts old new gates)
    (hrun : Edit.replaceInGates old new gates n = .ok requests m) : requests = [] := by
  induction gates generalizing n with
  | nil => exact (pure_eq_ok.mp hrun).1.symm
  | cons g rest ih =>
      obtain ⟨hg, hnodup⟩ := List.nodup_cons.mp hnodup
      simp only [Edit.replaceInGates, bind_eq_ok] at hrun
      obtain ⟨result, n₁, hgate, hrun⟩ := hrun
      have hread := hreads g List.mem_cons_self
      obtain ⟨hnot, -⟩ | ⟨a, b, kept, moved, hswap, hcases⟩ :=
        replaceInGate_cases hread.isLive hgate
      · exact absurd hread hnot
      obtain ⟨key, hform, hfree⟩ := haccepts g List.mem_cons_self a b kept moved hswap
      obtain ⟨s, hfolded, -⟩ | ⟨key', other, hform', hother, -⟩ |
        ⟨key', hform', hfree', rfl, hrewire⟩ := hcases
      · cases hform.symm.trans hfolded
      · cases hform.symm.trans hform'
        cases hfree.symm.trans hother
      cases hform.symm.trans hform'
      obtain ⟨hd, -, hhash, -⟩ := rewire_effect hswap.gate hrewire
      obtain ⟨h₁, hmoves, -⟩ := rewire_spec h hswap hform hfree' hnew hrewire
      have hrest : ∀ i ∈ rest, i ≠ g := fun i hi heq => hg (heq ▸ hi)
      refine ih h₁ ?_ hnodup ((hmoves.isLive _).trans hnew) ?_ hrun
      · intro i hi
        obtain ⟨c, d, hcd, hend⟩ := hreads i (List.mem_cons_of_mem g hi)
        exact ⟨c, d, (hd.gate (hrest i hi)).mpr hcd, hend⟩
      · intro i hi a' b' kept' moved' hswap'
        have hswap₀ : n.Swap i old new a' b' kept' moved' :=
          ⟨(hd.gate (hrest i hi)).mp hswap'.gate, hswap'.ends⟩
        obtain ⟨key₁, hform₁, hfree₁⟩ :=
          haccepts i (List.mem_cons_of_mem g hi) a' b' kept' moved' hswap₀
        have hkey : key₁ ≠ key := fun heq =>
          hrest i hi (hswap₀.eq_of_conjunction h hswap hform₁ (heq ▸ hform))
        exact ⟨key₁, hform₁, by rw [hhash key₁, if_neg hkey, hfree₁, ite_self]⟩

/-- Where all consumers accept the signal, the request for the node is served at once. -/
lemma replaceUses_of_accepts {requests : List Request} (h : n.Consistent pins)
    (haccepts : n.Accepts old new (n.consumers old))
    (hrun : Edit.replaceUses old new n = .ok requests m) : requests = [] := by
  obtain ⟨hnew, n₁, count, n₂, hgates, -⟩ := replaceUses_cases hrun
  exact replaceInGates_of_accepts h (fun g hg => mem_consumers.mp hg)
    (n.nodup_gates.filter _) hnew haccepts hgates

/-- **A signal that no gate reads takes the whole place of a gate**: the gate is out of use, and
only the signal is used where it was not used before. -/
theorem substitute_of_unread (hn : n.WellFormed) (hold : n.isLiveGate old = true)
    (hne : new.node ≠ old) (h0 : new.node ≠ 0) (hunread : ∀ g, ¬ n.Reads g new.node)
    (hrun : Edit.substitute old new n = .ok k m) :
    m.Discarded old ∧ (∀ g v, m.Reads g v → n.Reads g v ∨ v = new.node) ∧
      ∀ s ∈ m.outputs, s ∈ n.outputs ∨ s.node = new.node := by
  obtain ⟨hlive, hnew, uses, n₁, hraise, hends⟩ := substitute_run hrun
  obtain ⟨moved, skipped, hsteps⟩ := hends []
  have hstart : Valid ⟨n₁, [⟨old, new⟩], ∅, []⟩ := valid_start hn hnew hraise
  have hmoves : n.Moves n₁ old new := moves_of_raise hnew hraise
  have hsame := (raiseFanout_spec hraise).1
  obtain ⟨l, l', followUps, huses, hrelease, hrest⟩ :=
    first_of_run hsteps ((hmoves.isLive old).trans hlive) hne
  obtain rfl := replaceUses_of_accepts hstart.consistent (accepts_of_unread hstart.consistent h0
    (fun g hg => hunread g (hsame.reads.mp hg)) _) huses
  obtain rfl : l' = m := by
    rcases hrest.cases_head with heq | ⟨y, hstep, -⟩
    · cases heq
      rfl
    · cases hstep
  obtain ⟨hl, ⟨mid, hmid, hret⟩, hdangling, hreads, houtputs, -⟩ :=
    replaceUses_spec hstart.consistent hne huses
  have hpins : l.Consistent (new.node ::ₘ 0) := hl
  obtain ⟨hm, hret', hdangling'⟩ := release_spec hpins hrelease
  have hshrinks := (hmoves.shrinks.trans hmid.shrinks).trans (hret.trans hret').shrinks
  have hnone : (∀ g, ¬ l'.Reads g old) ∧ ∀ s ∈ l'.outputs, s.node ≠ old :=
    ⟨fun g hg => List.not_mem_nil (hreads g (hret'.reads hg)),
      fun s hs => houtputs s (hret'.outputs ▸ hs)⟩
  have hnotlive : ¬ l'.isLive old = true := by
    intro hl'
    refine (hdangling old (hdangling' old ⟨hshrinks.gate old hold hl', ?_⟩)).2 rfl
    by_contra hpos
    obtain ⟨g, hg⟩ | ⟨s, hs, hsv⟩ := WellFormed.exists_use hm hl' hpos
    · exact hnone.1 g hg
    · exact hnone.2 s hs hsv
  obtain ⟨hdead, hfanout⟩ := (hshrinks.decays.live old hlive).resolve_left hnotlive
  refine ⟨⟨hnone.1, hnone.2, hdead, hfanout⟩, ?_, ?_⟩
  · intro g v hg
    refine (hmid.reads g v ((hret.trans hret').reads hg)).imp hsame.reads.mp And.right
  · intro s hs
    rw [(hret.trans hret').outputs] at hs
    exact (hmid.outputs s hs).imp_left fun hs => hsame.outputs ▸ hs

/-- **What was private to the replaced gate dies with it.** -/
theorem isDead_of_private (hn : n.WellFormed) (hold : n.isLiveGate old = true)
    (hne : new.node ≠ old) (h0 : new.node ≠ 0) (hunread : ∀ g, ¬ n.Reads g new.node)
    (hv : n.isLiveGate v = true) (hprivate : n.Private old v)
    (hrun : Edit.substitute old new n = .ok k m) : m.isDead v = true := by
  obtain ⟨hdiscarded, hreads, houtputs⟩ := substitute_of_unread hn hold hne h0 hunread hrun
  obtain ⟨hm, hshrinks⟩ := substitute_wellFormed hn hrun
  have hvnew : v ≠ new.node := fun heq => hunread old (heq ▸ hprivate.reads)
  obtain ⟨a, b, hgate⟩ := isLiveGate_iff.mp hv
  refine ((hshrinks.decays.live v hgate.isLive).resolve_left ?_).1
  intro hlive
  have hfree : m.fanout v = 0 := by
    by_contra hpos
    obtain ⟨g, hg⟩ | ⟨s, hs, hsv⟩ := hm.exists_use hlive hpos
    · obtain rfl := hprivate.reader g ((hreads g v hg).resolve_right hvnew)
      obtain ⟨c, d, hold', -⟩ := hg
      exact not_isLive_of_isDead hdiscarded.isDead hold'.isLive
    · rcases houtputs s hs with hs | hs
      · exact hprivate.outputs s hs hsv
      · exact hvnew (hsv.symm.trans hs)
  have hdangling := substitute_dangling hn hrun ⟨hshrinks.gate v hv hlive, hfree⟩
  exact Consistent.fanout_ne_zero_of_reads hn hprivate.reads hdangling.2

end AndInverter
