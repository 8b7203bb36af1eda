import AndInverter.Proofs.Level
import AndInverter.Proofs.Network.Ordering
import AndInverter.Proofs.Network.Replacement

/-!
What a substitution can change at all, in any network and however it ends.

* `Network.Confined`: a change that is confined to what depends on a node, and
  `Confined.modifySlot`, `Confined.setOutput`: the small changes that stay confined;
* `Edit.Confines`: an edit that makes such changes only, and `Edit.confines_serve`: to serve a
  request for a dependent node does, and leads to requests for dependent nodes;
* `substitute_confined` and `substitute_frame`: what a substitution leaves as it is.
-/

namespace AndInverter

open Network Relation

namespace Network

variable {n m : Network} {g old v : Nat} {s : Signal}

/-! ### Confined changes -/

/-- **A change that is confined to what depends on a node.**  No position comes or goes, and no mark
changes; what does not read, directly or not, from the node is what it was, and so is each output
that does not depend on it; nothing comes back to life, and nothing but gates dies. -/
structure Confined (n : Network) (old : Nat) (m : Network) : Prop extends KeepsMarks n m where
  size : m.size = n.size
  inputs : m.inputs = n.inputs
  outputs_size : m.outputs.size = n.outputs.size
  kind? : ∀ v, ¬ TransGen n.Reads v old → m.kind? v = n.kind? v
  outputs : ∀ (i : Nat) (s : Signal), n.outputs[i]? = some s → ¬ n.DependsOn s.node old →
    m.outputs[i]? = some s
  isLive : ∀ v, m.isLive v = true → n.isLive v = true
  permanent : ∀ v, n.isLive v = true → ¬ n.isLiveGate v = true → m.isLive v = true

lemma Confined.refl (n : Network) (old : Nat) : n.Confined old n :=
  ⟨⟨rfl, rfl⟩, rfl, rfl, rfl, fun _ _ => rfl, fun _ _ hs _ => hs, fun _ hv => hv, fun _ hv _ => hv⟩

/-- What reads nothing is above no node. -/
lemma not_above_of_not_gate (hv : ¬ n.isLiveGate v = true) : ¬ TransGen n.Reads v old := by
  intro habove
  obtain ⟨u, hread, -⟩ := TransGen.head'_iff.mp habove
  exact hv hread.isLiveGate

lemma isLive_modifySlot {f : Slot → Slot} (n : Network) (g v : Nat) :
    (n.modifySlot g f).isLive v = true ↔
      if g = v then ∃ s, n.slot? v = some s ∧ (f s).dead = false else n.isLive v = true := by
  rw [Network.isLive, slot?_modifySlot]
  split_ifs
  · cases n.slot? v <;> simp
  · rw [Network.isLive]

section Confined

variable (h : n.Confined old m)

include h

/-- What is not above the node still reads nothing but what it read. -/
lemma Confined.reads (hg : ¬ TransGen n.Reads g old) (hread : m.Reads g v) : n.Reads g v := by
  obtain ⟨a, b, hgate, hv⟩ := hread
  have hkind : n.kind? g = some (.gate a b) := by
    rw [← h.kind? g hg, Network.kind?, gate_iff.mp hgate, Option.map_some]
  obtain ⟨k, hk⟩ := Network.isLive_iff.mp (h.isLive g hgate.isLive)
  rw [Network.kind?, hk, Option.map_some, Option.some.injEq] at hkind
  exact ⟨a, b, gate_iff.mpr (hkind ▸ hk), hv⟩

/-- What reads from something that depends on the node is above it. -/
lemma Confined.above_of_reads (hv : n.DependsOn v old) (hread : m.Reads g v) :
    TransGen n.Reads g old := by
  by_contra hg
  exact hg (.head' (h.reads hg hread) hv)

/-- What was live without being a gate has no fan-ins. -/
lemma Confined.fanIns?_eq_none {s : Slot} (hv : n.isLive v = true) (hgate : ¬ n.isLiveGate v = true)
    (hs : m.slot? v = some s) : s.fanIns? = none := by
  obtain ⟨k, hk⟩ := Network.isLive_iff.mp hv
  have hkind : m.kind? v = some k := by
    rw [h.kind? v (not_above_of_not_gate hgate), Network.kind?, hk, Option.map_some]
  rw [Network.kind?, Network.shape, hs, Option.map_some, Option.map_some, Option.some.injEq]
    at hkind
  rw [Slot.fanIns?, show s.kind = k from hkind]
  cases k with
  | constant => rfl
  | input i => rfl
  | gate a b => exact absurd (isLiveGate_iff.mpr ⟨a, b, gate_iff.mpr hk⟩) hgate

/-- One node changes: what it computes only if it is above the node, and from live to dead only if
it was no live source. -/
lemma Confined.modifySlot {f : Slot → Slot} (hmarks : ∀ s, (f s).marks = s.marks)
    (hdead : ∀ s, s.dead = true → (f s).dead = true)
    (hkind : ¬ TransGen n.Reads g old → ∀ s, (f s).kind = s.kind)
    (hlive : n.isLive g = true → ¬ n.isLiveGate g = true → ∀ s, (f s).dead = s.dead) :
    n.Confined old (m.modifySlot g f) where
  marks := (keepsMarks_modifySlot m g hmarks).marks.trans h.marks
  lastColor := h.lastColor
  size := (size_modifySlot m g f).trans h.size
  inputs := h.inputs
  outputs_size := h.outputs_size
  kind? v hv := by
    rw [← h.kind? v hv, Network.kind?, Network.kind?, shape_modifySlot]
    split_ifs with hgv
    · rw [Network.shape, Option.map_map, Option.map_map]
      exact congrArg (Option.map · _) (funext fun s => hkind (hgv ▸ hv) s)
    · rfl
  outputs := h.outputs
  isLive v hv := by
    rw [isLive_modifySlot] at hv
    split_ifs at hv with hgv
    · obtain ⟨s, hs, hf⟩ := hv
      refine h.isLive v ?_
      have hs' : s.dead = false := by
        by_contra hs'
        rw [hdead s (by simpa using hs')] at hf
        cases hf
      simp [Network.isLive, hs, hs']
    · exact h.isLive v hv
  permanent v hv hgate := by
    have hm := h.permanent v hv hgate
    rw [isLive_modifySlot]
    split_ifs with hgv
    · obtain ⟨s, hs, hs'⟩ := (Option.any_eq_true ..).mp hm
      rw [Bool.not_eq_true'] at hs'
      exact ⟨s, hs, (hlive (hgv ▸ hv) (hgv ▸ hgate) s).trans hs'⟩
    · exact hm

/-- The driver of one output changes, which depended on the node. -/
lemma Confined.setOutput {i : Nat} (t : Signal)
    (hi : ∀ s, n.outputs[i]? = some s → n.DependsOn s.node old) :
    n.Confined old { m with outputs := m.outputs.setIfInBounds i t } where
  marks := h.marks
  lastColor := h.lastColor
  size := h.size
  inputs := h.inputs
  outputs_size := (Array.size_setIfInBounds ..).trans h.outputs_size
  kind? := h.kind?
  outputs j s hs hdep := by
    have hij : i ≠ j := by
      rintro rfl
      exact hdep (hi s hs)
    rw [Array.getElem?_setIfInBounds_ne hij]
    exact h.outputs j s hs hdep
  isLive := h.isLive
  permanent := h.permanent

/-- Counters, the structural hash and the listeners are no part of the bounds. -/
lemma Confined.congr {l : Network} (hsame : (l.nodes, l.inputs, l.outputs, l.lastColor)
    = (m.nodes, m.inputs, m.outputs, m.lastColor)) : n.Confined old l := by
  cases l
  cases m
  simp only [Prod.mk.injEq] at hsame
  obtain ⟨hnodes, hinputs, houtputs, hcolor⟩ := hsame
  subst hnodes hinputs houtputs hcolor
  exact ⟨⟨h.marks, h.lastColor⟩, h.size, h.inputs, h.outputs_size, h.kind?, h.outputs, h.isLive,
    h.permanent⟩

end Confined

end Network

open Network Edit

variable {n m : Network} {g old v : Nat} {new s : Signal}

/-! ### Small edits -/

namespace Edit

/-- **An edit is confined** to what depends on a node of a network, also where it fails. -/
abbrev Confines {α : Type} (n : Network) (old : Nat) (e : Edit α) : Prop :=
  Guards (n.Confined old) (fun _ => True) e

/-- A use counter may get any value. -/
lemma confines_setFanout (v k : Nat) :
    Confines n old (update (·.modifySlot v ({ · with fanout := k }))) :=
  .update fun _ hm =>
    hm.modifySlot (fun _ => rfl) (fun _ => id) (fun _ _ => rfl) fun _ _ _ => rfl

lemma confines_raise (v : Nat) : Confines n old (raiseFanout v) :=
  .bind (.slot _) fun _ _ => .ite
    (.bind (confines_setFanout v _) fun _ _ => .pure trivial)
    (.throw _)

lemma confines_lower (v : Nat) : Confines n old (lowerFanout v) :=
  .bind (.slot _) fun _ _ => .ite
    (.throw _)
    (.bind (confines_setFanout v _) fun _ _ => .pure trivial)

/-- Whatever leaves the nodes and outputs alone is confined. -/
lemma confines_update {f : Network → Network} (hsame : ∀ m, ((f m).nodes, (f m).inputs,
    (f m).outputs, (f m).lastColor) = (m.nodes, m.inputs, m.outputs, m.lastColor)) :
    Confines n old (update f) :=
  .update fun m hm => hm.congr (hsame m)

lemma confines_unhash (g : Nat) (key : AndKey) : Confines n old (unhash g key) :=
  .bind (.view _) fun _ _ => .ite (confines_update fun _ => rfl) (.pure trivial)

/-! ### Retiring -/

lemma confines_releaseFanIn (s : Signal) : Confines n old (releaseFanIn s) :=
  .bind (confines_lower _) fun _ _ =>
    .bind (.view _) fun _ _ => .ite (.pure trivial) (.pure trivial)

/-- A node that was not a live source may die. -/
lemma confines_retireOne (hg : n.isLive g = true → n.isLiveGate g = true) (a b : Signal) :
    Confines n old (retireOne g a b) := by
  refine .bind (.modifySlot fun m hm => ?_) fun _ _ => ?_
  · exact hm.modifySlot (fun _ => rfl) (fun _ _ => rfl) (fun _ _ => rfl)
      fun hl hno => absurd (hg hl) hno
  refine .bind (confines_unhash _ _) fun _ _ => ?_
  refine .bind (confines_update fun _ => rfl) fun _ _ => ?_
  refine .bind (confines_releaseFanIn a) fun _ _ => ?_
  exact .bind (confines_releaseFanIn b) fun _ _ => .pure trivial

lemma confines_retireAll (bound : Nat) (worklist : List Nat) :
    Confines n old (retireAll bound worklist) := by
  induction bound generalizing worklist with
  | zero =>
      cases worklist with
      | nil => exact .pure trivial
      | cons g rest => exact .throw .unfinished
  | succ bound ih =>
      cases worklist with
      | nil => exact .pure trivial
      | cons g rest =>
          -- who has fan-ins now is no source
          refine .bind (Q := fun s => s.fanIns? ≠ none → n.isLive g = true →
            n.isLiveGate g = true) (.slot_of fun m s hm hs hfan hl => ?_) fun s hs => ?_
          · by_contra hgate
            exact hfan (hm.fanIns?_eq_none hl hgate hs)
          · split
            · next a b _ hfan =>
                exact .bind (confines_retireOne (hs (by simp [hfan])) a b) fun found _ => ih _
            · exact ih rest

lemma confines_retire (g : Nat) : Confines n old (retire g) :=
  .bind (.slot _) fun _ _ =>
    .ite (.bind (.view _) fun _ _ => confines_retireAll _ _) (.pure trivial)

lemma confines_release (g : Nat) : Confines n old (release g) :=
  .bind (confines_lower g) fun _ _ => .ite (confines_retire g) (.pure trivial)

/-! ### Moving uses -/

/-- A gate above the node may get other fan-ins. -/
lemma confines_rewire (hg : TransGen n.Reads g old) (a b : Signal) (key : AndKey) (v node : Nat) :
    Confines n old (rewire g a b key v node) := by
  refine .bind (confines_unhash _ _) fun _ _ => ?_
  refine .bind (.modifySlot fun m hm => ?_) fun _ _ => ?_
  · exact hm.modifySlot (fun _ => rfl) (fun _ => id) (fun hno => absurd hg hno) fun _ _ _ => rfl
  refine .bind (confines_update fun _ => rfl) fun _ _ => ?_
  refine .bind (confines_lower v) fun _ _ => ?_
  refine .bind (confines_raise node) fun _ _ => ?_
  exact confines_update fun _ => rfl

lemma confines_replaceFanIn (hg : TransGen n.Reads g old) (a b kept : Signal) (v : Nat)
    (moved : Signal) : Confines n old (replaceFanIn g a b kept v moved) := by
  have hrewire : ∀ key, Confines n old
      (do rewire g a b key v moved.node; return none : Edit (Option Signal)) :=
    fun key => .bind (confines_rewire hg a b key v moved.node) fun _ _ => .pure trivial
  rw [replaceFanIn]
  split
  · exact .pure trivial
  · refine .bind (.view _) fun result _ => ?_
    split
    · exact .ite (hrewire _) (.pure trivial)
    · exact hrewire _

lemma confines_replaceInGate (hg : TransGen n.Reads g old) (v : Nat) (new : Signal) :
    Confines n old (replaceInGate g v new) := by
  refine .bind (.slot _) fun s _ => ?_
  split
  · exact .pure trivial
  · exact .ite (confines_replaceFanIn hg _ _ _ _ _)
      (.ite (confines_replaceFanIn hg _ _ _ _ _) (.pure trivial))

/-- Gates above the node get other fan-ins or are requested to be replaced. -/
lemma confines_replaceInGates {gates : List Nat} (hgates : ∀ g ∈ gates, TransGen n.Reads g old)
    (v : Nat) (new : Signal) : Guards (n.Confined old)
      (fun requests => ∀ r ∈ requests, n.DependsOn r.node old) (replaceInGates v new gates) := by
  induction gates with
  | nil => exact .pure nofun
  | cons g rest ih =>
      obtain ⟨hg, hrest⟩ := List.forall_mem_cons.mp hgates
      refine .bind (confines_replaceInGate hg v new) fun result _ => ?_
      split
      · exact ih hrest
      · refine .bind (confines_raise _) fun _ _ => .bind (ih hrest) fun requests hrequests => ?_
        exact .pure (List.forall_mem_cons.mpr ⟨hg.to_reflTransGen, hrequests⟩)

/-- The driver of an output that depended on the node may change. -/
lemma confines_redirectOutput {i : Nat} (hi : ∀ s, n.outputs[i]? = some s → n.DependsOn s.node old)
    (v : Nat) (new s : Signal) : Confines n old (redirectOutput v new i s) := by
  refine .bind (.update fun _ hm => hm.setOutput _ hi) fun _ _ => ?_
  refine .bind (confines_lower v) fun _ _ => ?_
  refine .bind (confines_raise new.node) fun _ _ => ?_
  exact confines_update fun _ => rfl

lemma confines_replaceInOutputs (hv : n.DependsOn v old) (new : Signal) :
    Confines n old (replaceInOutputs v new) := by
  refine .bind (Q := fun driven => ∀ p ∈ driven, ∀ s, n.outputs[p.2]? = some s →
    n.DependsOn s.node old) (.view_of fun m hm => ?_) fun driven hdriven => ?_
  · rintro ⟨t, i⟩ hp s hs
    by_contra hdep
    obtain ⟨ht, htv⟩ := mem_outputsOf.mp hp
    rw [hm.outputs i s hs hdep, Option.some.injEq] at ht
    exact hdep (ht ▸ htv ▸ hv)
  · refine .bind (.forM fun p hp => confines_redirectOutput (hdriven p hp) _ _ _) fun _ _ => ?_
    exact .ite (.bind (confines_update fun _ => rfl) fun _ _ => .pure trivial) (.pure trivial)

/-- **All uses of a dependent node move**: what reads from it is above the node. -/
lemma confines_replaceUses (hv : n.DependsOn v old) (new : Signal) : Guards (n.Confined old)
    (fun requests => ∀ r ∈ requests, n.DependsOn r.node old) (replaceUses v new) := by
  refine .bind (.slot _) fun _ _ => .ite (.throw _) ?_
  refine .bind (Q := fun gates => ∀ g ∈ gates, TransGen n.Reads g old)
    (.view_of fun m hm g hg => hm.above_of_reads hv (mem_consumers.mp hg)) fun gates hgates => ?_
  refine .bind (confines_replaceInGates hgates v new) fun requests hrequests => ?_
  refine .bind (confines_replaceInOutputs hv new) fun _ _ => ?_
  refine .bind (.slot _) fun _ _ => ?_
  exact .ite (.bind (confines_retire v) fun _ _ => .pure hrequests) (.pure hrequests)

/-! ### Serving requests -/

/-- **A request for a dependent node** is served within the bounds, and so are those that follow. -/
lemma confines_serve (moved : Renaming) {r : Request} (hr : n.DependsOn r.node old) :
    Guards (n.Confined old) (fun result => ∀ r' ∈ result.1, n.DependsOn r'.node old)
      (serve moved r) := by
  refine .bind (.slot _) fun _ _ => .ite ?_ ?_
  · exact .bind (confines_release _) fun _ _ => .pure nofun
  · refine .bind (confines_replaceUses hr _) fun followUps hfollows => ?_
    exact .bind (confines_release _) fun _ _ => .pure hfollows

lemma confines_serveQuietly {resume : Nat → List Request → Renaming → Edit Nat}
    (hresume : ∀ served queue moved, (∀ r ∈ queue, n.DependsOn r.node old) →
      Confines n old (resume served queue moved))
    (bound served : Nat) {queue : List Request} (hqueue : ∀ r ∈ queue, n.DependsOn r.node old)
    (moved : Renaming) : Confines n old (serveQuietly resume bound served queue moved) := by
  induction bound generalizing served queue moved with
  | zero =>
      cases queue with
      | nil => exact .pure trivial
      | cons r rest => exact .throw .unfinished
  | succ bound ih =>
      cases queue with
      | nil => exact .pure trivial
      | cons r rest =>
          obtain ⟨hr, hrest⟩ := List.forall_mem_cons.mp hqueue
          refine .bind (.view _) fun _ _ => ?_
          refine .bind (confines_serve moved hr) fun ⟨followUps, moved'⟩ hfollows => ?_
          have hnext : ∀ r' ∈ rest ++ followUps, n.DependsOn r'.node old :=
            List.forall_mem_append.mpr ⟨hrest, hfollows⟩
          refine .bind (.view _) fun _ _ => ?_
          exact .ite (ih _ hnext _) (hresume _ _ _ hnext)

lemma confines_serveAll (changes served : Nat) {queue : List Request}
    (hqueue : ∀ r ∈ queue, n.DependsOn r.node old) (moved : Renaming) :
    Confines n old (serveAll changes served queue moved) := by
  induction changes generalizing served queue moved with
  | zero => exact .ite (.pure trivial) (.throw .unfinished)
  | succ changes ih =>
      refine .bind (.view _) fun _ _ => ?_
      exact confines_serveQuietly (fun _ _ _ h => ih _ h _) _ _ hqueue _

end Edit

/-- **A substitution is confined to what depends on the replaced node**, in any network and however
it ends. -/
theorem substitute_confined (n : Network) (old : Nat) (new : Signal) :
    n.Confined old ((Edit.substitute old new).leaves n) := by
  have hstart : ∀ r ∈ [(⟨old, new⟩ : Request)], n.DependsOn r.node old :=
    List.forall_mem_singleton.mpr .refl
  have hguards : Confines n old (substitute old new) := by
    refine .bind (.query _) fun _ _ => ?_
    refine .bind (.query _) fun _ _ => ?_
    refine .bind (confines_raise _) fun _ _ => ?_
    refine .bind (.view _) fun _ _ => ?_
    exact confines_serveAll _ _ hstart _
  exact (hguards n (.refl n old)).1

/-- **What a substitution leaves as it is**, whether it ends well or with a fault: the positions,
the inputs, the number of outputs and all marks; the fan-ins of what is not above the replaced node,
so the whole cones of that node and of its replacement; the outputs that do not depend on it; and
the constant and the inputs live on. -/
theorem substitute_frame (hn : n.WellFormed) (hacyclic : n.Acyclic)
    (hcone : ¬ n.DependsOn new.node old) (hrun : (Edit.substitute old new).leaves n = m) :
    m.size = n.size ∧ m.inputs = n.inputs ∧ m.outputs.size = n.outputs.size ∧
      (∀ v, m.marks? v = n.marks? v) ∧
      (∀ v, ¬ TransGen n.Reads v old → m.kind? v = n.kind? v) ∧
      (∀ v, n.DependsOn old v ∨ n.DependsOn new.node v → m.kind? v = n.kind? v) ∧
      (∀ (i : Nat) (s : Signal), n.outputs[i]? = some s → ¬ n.DependsOn s.node old →
        m.outputs[i]? = some s) ∧
      m.isLive 0 = true ∧ ∀ v ∈ m.inputs, m.isLive v = true := by
  have h : n.Confined old m := hrun ▸ substitute_confined n old new
  have hcones : ∀ v, n.DependsOn old v ∨ n.DependsOn new.node v → ¬ TransGen n.Reads v old := by
    rintro v (hv | hv) habove
    · exact hacyclic old (.trans_right hv habove)
    · exact hcone (hv.trans habove.to_reflTransGen)
  have hsources : ∀ v, v = 0 ∨ v ∈ n.inputs → m.isLive v = true := by
    intro v hv
    obtain ⟨hlive, hgate⟩ := mem_sources.mp (hn.mem_sources_iff.mpr hv)
    exact h.permanent v hlive hgate
  exact ⟨h.size, h.inputs, h.outputs_size, congrFun h.marks, h.kind?,
    fun v hv => h.kind? v (hcones v hv), h.outputs, hsources 0 (.inl rfl),
    fun v hv => hsources v (.inr (h.inputs ▸ hv))⟩

/-- A gate is replaced, its consumer becomes the double of another gate and goes, too, and only the
output that it drove is another one. -/
theorem substitute_frame_of_merge : ∃ n m : Network, n.WellFormed ∧ n.Acyclic ∧
    ¬ n.DependsOn 5 4 ∧ (Edit.substitute 4 (.ofNode 5)).leaves n = m ∧ m.isDead 6 = true ∧
      m.size = n.size ∧ m.inputs = n.inputs ∧ m.outputs.size = n.outputs.size ∧
      (∀ v, m.marks? v = n.marks? v) ∧
      (∀ v, ¬ TransGen n.Reads v 4 → m.kind? v = n.kind? v) ∧
      (∀ v, n.DependsOn 4 v ∨ n.DependsOn 5 v → m.kind? v = n.kind? v) ∧
      (∀ (i : Nat) (s : Signal), n.outputs[i]? = some s → ¬ n.DependsOn s.node 4 →
        m.outputs[i]? = some s) ∧
      m.isLive 0 = true ∧ ∀ v ∈ m.inputs, m.isLive v = true := by
  let n := Network.empty.assemble [.input, .input, .input, .gate 2 4, .gate 3 6, .gate 8 6,
    .gate 10 6, .gate 4 6, .output 12, .output 14, .output 16]
  obtain ⟨hn, hacyclic⟩ : n.Sound := Network.Sound.assemble wellFormed_empty _
  have hcone : ¬ n.DependsOn 5 4 := fun hdep =>
    absurd (hdep.eq_of_level_le hacyclic (by decide +kernel)) (by decide)
  exact ⟨n, _, hn, hacyclic, hcone, rfl, by decide +kernel,
    substitute_frame hn hacyclic hcone rfl⟩

end AndInverter
