import AndInverter.Proofs.Network.Independence
import AndInverter.Proofs.Restructure.Progress
import AndInverter.Proofs.Restructure.Refusal

/-!
How an attempt ends, given what its law builds.

* `Restructuring.Places`: the replacement is put in place and what is unused is retired;
* `Proposes.noDeeper`: a replacement that was placed has no longer way down than it was built with;
* `apply_cases`: an attempt that ends well places what its law builds, or its law finds nothing;
* `apply_of_not_finds`: a law that finds nothing changes nothing;
* `apply_ne_ok_of_strands`: an attempt that strands a request does not end well.
-/

namespace AndInverter

open Network Relation Serving

variable {n m l : Network} {gate : Nat} {s : Signal} {law : Law} {view : DepthView}
  {fault : Fault}

/-- A law builds one thing at most. -/
lemma Law.Builds.unique {s' : Signal} {m' : Network} (h : law.Builds n view gate s m)
    (h' : law.Builds n view gate s' m') : s = s' ∧ m = m' := by
  cases law <;> obtain ⟨o, hsearch, hbuild⟩ := h <;> obtain ⟨o', hsearch', hbuild'⟩ := h' <;>
    rw [hsearch] at hsearch' <;> cases hsearch' <;> rw [hbuild] at hbuild' <;> cases hbuild' <;>
      exact ⟨rfl, rfl⟩

/-- **A law finds an opportunity** at a gate. -/
def Law.Finds (law : Law) (n : Network) (view : DepthView) (gate : Nat) : Prop :=
  match law with
  | .associativity => ∃ o, Associativity.search gate n view = .ok (.present o)
  | .distributivity => ∃ o, Distributivity.search gate n view = .ok (.present o)
  | .threeLevel => ∃ o, ThreeLevel.search gate n view = .ok (.present o)

/-- What a law builds is built from what it found. -/
lemma Law.Builds.finds (h : law.Builds n view gate s m) : law.Finds n view gate := by
  cases law <;> exact h.imp fun _ => And.left

/-! ### Replacements in place -/

/-- **A replacement is put in place**, and what is unused is retired from a position on. -/
def Restructuring.Places (first gate : Nat) (s : Signal) (n m : Network) : Prop :=
  ∃ k l, Edit.substitute gate s n = .ok k l ∧ Edit.retireUnused first l = .ok () m

namespace Restructuring

variable {first : Nat}

lemma Places.wellFormed (h : Places first gate s n m) (hn : n.WellFormed) :
    m.WellFormed ∧ n.Shrinks m := by
  obtain ⟨k, l, hsubstitute, hretire⟩ := h
  obtain ⟨hl, hshrinks⟩ := substitute_wellFormed hn hsubstitute
  obtain ⟨hm, hret, -⟩ := retireUnused_spec hl hretire
  exact ⟨hm, hshrinks.trans hret.shrinks⟩

/-- Where nothing was made for the purpose, there is nothing to clean up. -/
lemma Places.substitute (h : Places first gate s n m) (hn : n.WellFormed) (hsize : n.size ≤ first) :
    ∃ k, Edit.substitute gate s n = .ok k m := by
  obtain ⟨k, l, hsubstitute, hretire⟩ := h
  have hl : l.size - first = 0 := by
    rw [(substitute_wellFormed hn hsubstitute).2.size]
    omega
  simp only [Edit.retireUnused, bind_eq_ok, Edit.view_eq_ok] at hretire
  obtain ⟨_, _, ⟨rfl, rfl⟩, hloop⟩ := hretire
  rw [hl] at hloop
  obtain ⟨-, rfl⟩ := pure_eq_ok.mp hloop
  exact ⟨k, hsubstitute⟩

lemma Places.spares (h : Places first gate s n m) (hn : n.WellFormed) : n.Spares m gate := by
  obtain ⟨k, l, hsubstitute, hretire⟩ := h
  have hl := (substitute_wellFormed hn hsubstitute).1
  exact (substitute_spares hn hsubstitute).retires (retireUnused_spec hl hretire).2.1

/-- Values under which the gate and its replacement agree survive. -/
lemma Places.models {M : Type} {A : Connectives M} {α φ : Nat → M} (h : Places first gate s n m)
    (hn : n.WellFormed) (hA : A.Lawful) (hφ : A.Models α φ n) (heq : φ gate = A.read φ s) :
    A.Models α φ m := by
  obtain ⟨k, l, hsubstitute, hretire⟩ := h
  have hl := (substitute_wellFormed hn hsubstitute).1
  have hret := (retireUnused_spec hl hretire).2.1
  exact (substitute_models hn hsubstitute hA hφ heq).1.mono hret.inputs fun _ _ _ => hret.gate

end Restructuring

open Restructuring

/-- **A replacement that was placed has no longer way down** than it was built with. -/
theorem Network.Proposes.noDeeper {first : Nat} (h : n.Proposes m gate s) (hn : n.WellFormed)
    (hacyclic : n.Acyclic) (hne : s.node ≠ gate) (hplaces : Places first gate s m l) :
    l.NoDeeper s.node (m.level s.node) :=
  (hplaces.spares h.wellFormed).noDeeper (h.not_dependsOn hn hacyclic hne)
    (noDeeper_level (h.grows.acyclic hacyclic hn.fanIns_live))

/-- **A replacement computes what the gate did.** -/
theorem Network.Proposes.computes_iff (h : n.Proposes m gate s) (hn : n.WellFormed)
    (hacyclic : n.Acyclic) (f : (Nat → Bool) → Bool) :
    n.Computes (.ofNode gate) f ↔ m.Computes s f := by
  obtain ⟨a, b, hg⟩ := isLiveGate_iff.mp h.isLiveGate
  have hacyclic₁ := h.grows.acyclic hacyclic hn.fanIns_live
  rw [Network.computes_iff hn hacyclic (s := .ofNode gate) hg.isLive,
    Network.computes_iff h.wellFormed hacyclic₁ h.isLive]
  refine forall_congr' fun α => ?_
  rw [← h.value (models_interpret h.wellFormed hacyclic₁),
    show m.interpret .bool α gate = n.interpret .bool α gate from
      h.grows.interpret hn hacyclic h.wellFormed hg.isLive]
  rfl

/-- **A replacement that was placed computes what it did**, as long as it is live. -/
theorem Network.Proposes.computes_placed_iff {first : Nat} (h : n.Proposes m gate s)
    (hn : n.WellFormed) (hacyclic : n.Acyclic) (hne : s.node ≠ gate)
    (hplaces : Places first gate s m l) (hlive : l.isLive s.node = true)
    (f : (Nat → Bool) → Bool) : m.Computes s f ↔ l.Computes s f := by
  have hacyclic₁ := h.grows.acyclic hacyclic hn.fanIns_live
  have hmodels : ∀ α : Nat → Bool, Connectives.bool.Models α (m.interpret .bool α) l := by
    intro α
    have hφ := models_interpret (A := .bool) (α := α) h.wellFormed hacyclic₁
    exact hplaces.models h.wellFormed Connectives.bool_lawful hφ (h.value hφ)
  rw [Network.computes_iff h.wellFormed hacyclic₁ h.isLive]
  constructor
  · intro hf α
    have hvalue := (hplaces.spares h.wellFormed).evaluates hacyclic₁
      (hplaces.wellFormed h.wellFormed).1 (hmodels α) (h.not_dependsOn hn hacyclic hne) hlive
    rwa [← hf α, read_bool, Bool.xor_assoc, Bool.xor_self, Bool.xor_false]
  · exact fun hf α => hf.eq_of_models (hmodels α)

/-- A view of the result tells a level of the replacement that is within the bound of its ways
down. -/
lemma Restructuring.Places.levelOf_le {first d : Nat} {now : DepthView}
    (h : Places first gate s m l) (hm : m.WellFormed) (hlive : m.isLive s.node = true)
    (hd : l.NoDeeper s.node d) (hnow : DepthView.ofNetwork l = .ok now) :
    ∃ reached, now.levelOf l s.node = .ok reached ∧ reached ≤ d := by
  have hlt : s.node < l.size := (h.wellFormed hm).2.size ▸ lt_size_of_isLive hlive
  exact ⟨l.level s.node,
    (DepthView.describes_ofNetwork hnow).1.levelOf_eq_ok.mpr ⟨hlt, rfl⟩, hd.level_le⟩

/-! ### Attempts that end well -/

namespace Restructuring

variable {w w' : Workspace} {replaced : Bool}

/-- What was found is placed. -/
lemma act_cases {α : Type} {search : Network → DepthView → Except Fault (Search α)}
    {build : α → Edit Signal} {entry : α → Signal → LogEntry}
    (hne : ∀ o s n, search w.network w.depthView = .ok (.present o) →
      build o w.network = .ok s n → s.node ≠ gate)
    (h : (query search >>= act gate build entry) w = .ok replaced w') :
    (replaced = false ∧ w'.network = w.network ∧
      ∀ o, search w.network w.depthView ≠ .ok (.present o)) ∨
    (replaced = true ∧ ∃ o s n, search w.network w.depthView = .ok (.present o) ∧
      build o w.network = .ok s n ∧ Places w.network.size gate s n w'.network) := by
  obtain ⟨found, _, hquery, hact⟩ := bind_eq_ok.mp h
  obtain ⟨hfound, rfl⟩ := query_eq_ok.mp hquery
  cases found with
  | absent reason =>
      left
      have hnone : ∀ o, search w.network w.depthView ≠ .ok (.present o) := by
        intro o ho
        rw [hfound] at ho
        cases ho
      obtain ⟨hreplaced, hnetwork, -⟩ | ⟨o, s, n, hpresent, -⟩ := act_eq_ok hact
      · exact ⟨hreplaced, hnetwork, hnone⟩
      · cases hpresent
  | present o =>
      obtain ⟨s, n, hbuild, hcommits, -⟩ := replace_eq_ok hact
      obtain ⟨hgate, -⟩ | ⟨-, hreplaced, k, l, hsubstitute, hretire⟩ := hcommits
      · exact absurd hgate (hne o s n hfound hbuild)
      · exact .inr ⟨hreplaced, o, s, n, hfound, hbuild, k, l, hsubstitute, hretire⟩

/-- **An attempt that ends well** places what its law builds, or its law finds nothing. -/
theorem apply_cases (hw : Ready w) (h : apply law gate w = .ok replaced w') :
    (replaced = false ∧ w'.network = w.network ∧ ¬ law.Finds w.network w.depthView gate) ∨
    (replaced = true ∧ ∃ s n, law.Builds w.network w.depthView gate s n ∧
      Places w.network.size gate s n w'.network) := by
  have hne : ∀ s n, law.Builds w.network w.depthView gate s n → s.node ≠ gate := fun s n hbuilds =>
    (hbuilds.suggests hw.describes).ne_gate hw.wellFormed hw.acyclic
  cases law <;>
    exact (act_cases (fun o s n ho hs => hne s n ⟨o, ho, hs⟩) h).imp
      (fun ⟨hreplaced, hnetwork, hnone⟩ =>
        ⟨hreplaced, hnetwork, fun ⟨o, hsearch⟩ => hnone o hsearch⟩)
      fun ⟨hreplaced, o, s, n, hsearch, hbuild, hplaces⟩ =>
        ⟨hreplaced, s, n, ⟨o, hsearch, hbuild⟩, hplaces⟩

/-- **A law that finds nothing changes nothing.** -/
theorem apply_of_not_finds (hw : Ready w) (hgate : gate < w.network.size)
    (h : ¬ law.Finds w.network w.depthView gate) :
    ∃ w', apply law gate w = .ok false w' ∧ w'.network = w.network := by
  have hact : ∀ {α : Type} {search : Network → DepthView → Except Fault (Search α)}
      {build : α → Edit Signal} {entry : α → Signal → LogEntry},
      Succeeds (search w.network w.depthView) →
        (¬ ∃ o, search w.network w.depthView = .ok (.present o)) →
          ∃ w', (query search >>= act gate build entry) w = .ok false w' ∧
            w'.network = w.network := by
    intro α search build entry ⟨found, hfound⟩ hnone
    have hquery : query search w = .ok found w := query_eq_ok.mpr ⟨hfound, rfl⟩
    cases found with
    | absent reason =>
        cases reason with
        | none => exact ⟨w, bind_eq_ok.mpr ⟨_, w, hquery, rfl⟩, rfl⟩
        | some reason => exact ⟨_, bind_eq_ok.mpr ⟨_, w, hquery, rfl⟩, rfl⟩
    | present o => exact absurd ⟨o, hfound⟩ hnone
  have hn := hw.wellFormed
  have hview := hw.describes
  cases law with
  | associativity => exact hact (Associativity.succeeds_search hn hview hgate) h
  | distributivity => exact hact (Distributivity.succeeds_search hn hview hgate) h
  | threeLevel => exact hact (ThreeLevel.succeeds_search hn hview hgate) h

end Restructuring

/-! ### Attempts that fail -/

/-- A substitution that strands a request does not end well: the state that it comes to at the
end has no request left. -/
lemma Network.Reaches.substitute_ne_ok {k : Nat} {x : Serving} (h : n.Reaches gate s x)
    (hstrands : x.Strands fault) : Edit.substitute gate s n ≠ .ok k m := by
  intro hrun
  obtain ⟨uses, n₁, hraise, hx⟩ := h
  obtain ⟨moved, skipped, uses', n₁', hraise', hend⟩ := reaches_of_substitute hrun
  rw [hraise] at hraise'
  cases hraise'
  obtain rfl := eq_of_stuck hx hend hstrands.fails.stuck nofun
  obtain ⟨r, rest, hqueue, -⟩ := hstrands
  cases hqueue

namespace Restructuring

variable {w w' : Workspace} {replaced : Bool}

/-- **An attempt that strands a request does not end well.** -/
theorem apply_ne_ok_of_strands {x : Serving} (hw : Ready w)
    (hx : law.Reaches w.network w.depthView gate x) (hstrands : x.Strands fault) :
    apply law gate w ≠ .ok replaced w' := by
  intro h
  obtain ⟨s, n, hbuilds, hreached⟩ := hx
  obtain ⟨-, -, hnone⟩ | ⟨-, s', n', hbuilds', k, l, hsubstitute, -⟩ := apply_cases hw h
  · exact hnone hbuilds.finds
  obtain ⟨rfl, rfl⟩ := hbuilds.unique hbuilds'
  exact hreached.substitute_ne_ok hstrands hsubstitute

end Restructuring

end AndInverter
