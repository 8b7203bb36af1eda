import AndInverter.Restructure.Workspace
import AndInverter.Proofs.Network.Construction

/-!
Relations between networks that hold from one step of an edit to the next.  A reflexive and
transitive relation that the elementary changes respect holds between the network that an edit
starts from and the one it leads to.

* `Edit.Ensures`: an edit leads to networks that are related to where it started;
* `Edit.Gradual`: a relation that counting uses ensures;
* `Edit.Steady`: one that the elementary changes of the graph ensure, too;
* `Steady.substitute`, `Steady.retireUnused`, `Steady.addAnd`: then so do the edits.
-/

namespace AndInverter.Edit

open Network

variable {α β : Type} {R : Network → Network → Prop}

/-- **An edit ensures a relation** between the network that it starts from and its result. -/
def Ensures (R : Network → Network → Prop) (e : Edit α) : Prop := ∀ n a m, e n = .ok a m → R n m

/-- **A gradual relation** holds when nothing happens, from one step to the next, and when a use
is counted. -/
structure Gradual (R : Network → Network → Prop) : Prop where
  refl : ∀ n, R n n
  trans : ∀ {n l m}, R n l → R l m → R n m
  raise : ∀ v, Ensures R (raiseFanout v)
  lower : ∀ v, Ensures R (lowerFanout v)

/-- **A steady relation** holds when the graph changes at one place, too: only live gates are
retired or get other fan-ins. -/
structure Steady (R : Network → Network → Prop) : Prop extends Gradual R where
  retireOne : ∀ {n m g a b found}, n.Gate g a b → retireOne g a b n = .ok found m → R n m
  rewire : ∀ {n m g a b key old new},
    n.Gate g a b → rewire g a b key old new n = .ok () m → R n m
  replaceInOutputs : ∀ old new, Ensures R (replaceInOutputs old new)
  allocate : ∀ key, Ensures R (allocate key)

lemma Ensures.ite {c : Prop} [Decidable c] {e f : Edit α} (he : Ensures R e)
    (hf : Ensures R f) : Ensures R (if c then e else f) := by
  split_ifs
  · exact he
  · exact hf

lemma Ensures.update {f : Network → Network} (hf : ∀ n, R n (f n)) : Ensures R (update f) := by
  intro n _ m hrun
  rw [← update_eq_ok.mp hrun]
  exact hf n

lemma Ensures.modifySlot {v : Nat} {f : Slot → Slot} (hf : ∀ n, R n (n.modifySlot v f)) :
    Ensures R (modifySlot v f) := by
  intro n _ m hrun
  obtain ⟨-, rfl⟩ := modifySlot_eq_ok.mp hrun
  exact hf n

lemma Ensures.unhash {g : Nat} {key : AndKey} (hf : ∀ (n : Network) hash, R n { n with hash }) :
    Ensures R (unhash g key) := by
  intro n _ m hrun
  obtain ⟨hash, rfl, -⟩ := unhash_spec hrun
  exact hf n hash

/-! ### Sequences -/

namespace Gradual

variable (h : Gradual R)

include h

lemma bind {e : Edit α} {f : α → Edit β} (he : Ensures R e) (hf : ∀ a, Ensures R (f a)) :
    Ensures R (e >>= f) := by
  intro n b m hrun
  obtain ⟨a, l, hea, hfa⟩ := bind_eq_ok.mp hrun
  exact h.trans (he n a l hea) (hf a l b m hfa)

lemma pure (a : α) : Ensures R (Pure.pure a : Edit α) := by
  intro n b m hrun
  obtain ⟨-, rfl⟩ := pure_eq_ok.mp hrun
  exact h.refl n

omit h in
lemma throw (e : Fault) : Ensures R (MonadExcept.throw e : Edit α) :=
  fun _ _ _ hrun => (throw_eq_ok.mp hrun).elim

lemma query (f : Network → Except Fault α) : Ensures R (Edit.query f) := by
  intro n a m hrun
  obtain ⟨-, rfl⟩ := query_eq_ok.mp hrun
  exact h.refl n

lemma view (f : Network → α) : Ensures R (Edit.view f) := by
  intro n a m hrun
  obtain ⟨-, rfl⟩ := view_eq_ok.mp hrun
  exact h.refl n

lemma slot (v : Nat) : Ensures R (Edit.slot v) := h.query _

lemma forM {xs : List β} {f : β → Edit PUnit} (hf : ∀ x ∈ xs, Ensures R (f x)) :
    Ensures R (xs.forM f) := by
  intro n _ m hrun
  refine forM_induction (fun l => R n l) ?_ (h.refl n) hrun
  intro x hx s t hs hrun
  exact h.trans hs (hf x hx s ⟨⟩ t hrun)

lemma releaseFanIn (s : Signal) : Ensures R (releaseFanIn s) :=
  h.bind (h.lower s.node) fun _ => h.bind (h.view _) fun _ => (h.pure _).ite (h.pure _)

end Gradual

/-! ### Edits -/

namespace Steady

variable (h : Steady R)

include h

lemma retireAll (bound : Nat) (worklist : List Nat) : Ensures R (retireAll bound worklist) := by
  induction bound generalizing worklist with
  | zero =>
      cases worklist with
      | nil => exact h.pure ()
      | cons g rest => exact Gradual.throw .unfinished
  | succ bound ih =>
      cases worklist with
      | nil => exact h.pure ()
      | cons g rest =>
          intro n _ m hrun
          obtain ⟨a, b, found, n₁, hg, hone, hrest⟩ | ⟨-, hrest⟩ := retireAll_cons_eq_ok hrun
          · exact h.trans (h.retireOne hg hone) (ih _ n₁ () m hrest)
          · exact ih rest n () m hrest

lemma retire (g : Nat) : Ensures R (retire g) :=
  h.bind (h.slot g) fun _ => (h.bind (h.view _) fun _ => h.retireAll _ _).ite (h.pure ())

lemma release (g : Nat) : Ensures R (release g) :=
  h.bind (h.lower g) fun _ => (h.retire g).ite (h.pure ())

/-- A live gate may get another fan-in, which retires nothing. -/
lemma replaceInGate {n m : Network} {g old : Nat} {new : Signal} {result : Option Signal}
    (hl : n.isLive g = true) (hrun : replaceInGate g old new n = .ok result m) :
    R n m ∧ ∀ v, m.isLive v = n.isLive v := by
  obtain ⟨-, -, rfl⟩ | ⟨a, b, _, _, hswap, hcases⟩ := replaceInGate_cases hl hrun
  · exact ⟨h.refl m, fun _ => rfl⟩
  obtain ⟨_, -, -, rfl⟩ | ⟨_, _, -, -, -, -, rfl⟩ | ⟨_, -, -, -, hrewire⟩ := hcases
  · exact ⟨h.refl m, fun _ => rfl⟩
  · exact ⟨h.refl m, fun _ => rfl⟩
  · obtain ⟨hd, hg', -⟩ := rewire_effect hswap.gate hrewire
    exact ⟨h.rewire hswap.gate hrewire, hd.isLive_of_gate hswap.gate hg'⟩

lemma replaceInGates {n m : Network} {old : Nat} {new : Signal} {gates : List Nat}
    {requests : List Request} (hl : ∀ g ∈ gates, n.isLive g = true)
    (hrun : replaceInGates old new gates n = .ok requests m) : R n m := by
  induction gates generalizing n requests with
  | nil =>
      obtain ⟨-, rfl⟩ := pure_eq_ok.mp hrun
      exact h.refl n
  | cons g rest ih =>
      obtain ⟨result, n₁, hone, hrun⟩ := bind_eq_ok.mp hrun
      obtain ⟨hg, hrest⟩ := List.forall_mem_cons.mp hl
      obtain ⟨hfirst, hlive⟩ := h.replaceInGate hg hone
      cases result with
      | none => exact h.trans hfirst (ih (fun i hi => (hlive i).trans (hrest i hi)) hrun)
      | some target =>
          obtain ⟨_, n₂, hraise, hrun⟩ := bind_eq_ok.mp hrun
          obtain ⟨_, _, hloop, hend⟩ := bind_eq_ok.mp hrun
          obtain ⟨-, rfl⟩ := pure_eq_ok.mp hend
          have hsame := (raiseFanout_spec hraise).1
          have hlive₂ : ∀ i ∈ rest, n₂.isLive i = true :=
            fun i hi => (hsame.isLive i).trans ((hlive i).trans (hrest i hi))
          exact h.trans (h.trans hfirst (h.raise _ _ _ _ hraise)) (ih hlive₂ hloop)

lemma replaceUses (old : Nat) (new : Signal) : Ensures R (replaceUses old new) := by
  refine h.bind (h.slot new.node) fun s => .ite (Gradual.throw _) ?_
  intro n requests m hrun
  obtain ⟨gates, _, hview, hrun⟩ := bind_eq_ok.mp hrun
  obtain ⟨rfl, rfl⟩ := view_eq_ok.mp hview
  obtain ⟨followUps, n₁, hloop, hrun⟩ := bind_eq_ok.mp hrun
  have hconsumers : ∀ g ∈ n.consumers old, n.isLive g = true := by
    intro g hg
    obtain ⟨a, b, hgate⟩ := mem_gates.mp (List.mem_filter.mp hg).1
    exact hgate.isLive
  refine h.trans (h.replaceInGates hconsumers hloop) ?_
  refine h.bind (h.replaceInOutputs old new) (fun _ => ?_) n₁ requests m hrun
  exact h.bind (h.slot old) fun s => .ite (h.bind (h.retire old) fun _ => h.pure _) (h.pure _)

lemma serve (moved : Renaming) (r : Request) : Ensures R (serve moved r) := by
  refine h.bind (h.slot r.node) fun s => .ite ?_ ?_
  · exact h.bind (h.release _) fun _ => h.pure _
  · exact h.bind (h.replaceUses _ _) fun _ => h.bind (h.release _) fun _ => h.pure _

lemma serveQuietly {resume : Nat → List Request → Renaming → Edit Nat}
    (hresume : ∀ served queue moved, Ensures R (resume served queue moved))
    (bound served : Nat) (queue : List Request) (moved : Renaming) :
    Ensures R (serveQuietly resume bound served queue moved) := by
  induction bound generalizing served queue moved with
  | zero =>
      cases queue with
      | nil => exact h.pure served
      | cons r rest => exact Gradual.throw .unfinished
  | succ bound ih =>
      cases queue with
      | nil => exact h.pure served
      | cons r rest =>
          exact h.bind (h.view _) fun _ => h.bind (h.serve moved r) fun _ =>
            h.bind (h.view _) fun _ => (ih _ _ _).ite (hresume _ _ _)

lemma serveAll (changes served : Nat) (queue : List Request) (moved : Renaming) :
    Ensures R (serveAll changes served queue moved) := by
  induction changes generalizing served queue moved with
  | zero => exact .ite (h.pure served) (Gradual.throw .unfinished)
  | succ changes ih => exact h.bind (h.view _) fun _ => h.serveQuietly ih _ _ _ _

/-- **A substitution** goes by elementary changes. -/
theorem substitute (old : Nat) (new : Signal) : Ensures R (substitute old new) :=
  h.bind (h.query _) fun _ => h.bind (h.query _) fun _ => h.bind (h.raise _) fun _ =>
    h.bind (h.view _) fun _ => h.serveAll _ _ _ _

/-- **To retire what is not used** goes by elementary changes. -/
theorem retireUnused (first : Nat) : Ensures R (retireUnused first) := by
  refine h.bind (h.view _) fun _ => h.forM fun g _ => h.bind (h.view _) fun _ => ?_
  exact .ite (h.retire g) (h.pure _)

/-- **A conjunction** goes by elementary changes. -/
theorem addAnd (f g : Signal) : Ensures R (addAnd f g) := by
  refine h.bind (h.query _) fun _ => h.bind (h.query _) fun _ => ?_
  split
  · exact h.pure _
  · refine h.bind (h.view _) fun result => ?_
    split
    · exact h.pure _
    · exact h.allocate _

lemma addNand (f g : Signal) : Ensures R (addNand f g) :=
  h.bind (h.addAnd f g) fun _ => h.pure _

end Steady

end AndInverter.Edit
