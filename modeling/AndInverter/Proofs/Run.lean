import Mathlib.Tactic
import AndInverter.Network.Edit

/-!
Runs of edits.  A program in `EStateM` that ends with `.ok` or with `.error` is taken apart step
by step, so that later proofs never unfold the monad.

* `bind_eq_ok`, `pure_eq_ok`, `throw_eq_ok`: sequences, results and faults;
* `view_eq_ok`, `query_eq_ok`, `update_eq_ok`: the elementary edits;
* `raiseFanout_eq_ok`, `lowerFanout_eq_ok`: counting uses;
* `forM_induction`: what every step of a loop keeps, the loop keeps;
* `bind_eq_error` and its kin: where a run that ends with a fault came to it;
* `Edit.Guards`: an edit that keeps a property of networks, even where it fails.
-/

namespace AndInverter

section Runs

variable {ε σ α β : Type}

/-- A sequence ends well exactly when both of its parts do. -/
lemma bind_eq_ok {x : EStateM ε σ α} {f : α → EStateM ε σ β} {s t : σ} {b : β} :
    (x >>= f) s = .ok b t ↔ ∃ a u, x s = .ok a u ∧ f a u = .ok b t := by
  simp only [bind, EStateM.bind]
  cases h : x s with
  | ok a u => simp
  | error e u => simp

/-- Handing over a result leaves the state alone. -/
lemma pure_eq_ok {a b : α} {s t : σ} :
    (pure a : EStateM ε σ α) s = .ok b t ↔ a = b ∧ s = t := by
  simp [pure, EStateM.pure]

/-- A program that gives up does not end well. -/
lemma throw_eq_ok {e : ε} {s t : σ} {a : α} :
    (throw e : EStateM ε σ α) s = .ok a t ↔ False := by
  change EStateM.Result.error e s = .ok a t ↔ False
  simp

/-- A sequence of computations that may fail succeeds exactly when both of its parts do. -/
lemma bind_eq_except_ok {x : Except ε α} {f : α → Except ε β} {b : β} :
    (x >>= f) = .ok b ↔ ∃ a, x = .ok a ∧ f a = .ok b := by
  cases x <;> simp [bind, Except.bind]

/-- A sequence goes on where its first part succeeds. -/
lemma except_ok_bind {a : α} {f : α → Except ε β} : (Except.ok a >>= f) = f a := rfl

lemma pure_eq_except_ok {a b : α} : (pure a : Except ε α) = .ok b ↔ a = b := by
  simp [pure, Except.pure]

/-- A computation goes past a guard exactly when its condition does not hold. -/
lemma guard_eq_except_ok {c : Prop} [Decidable c] {e : ε} {f : α → Except ε β} {x : Except ε β}
    {b : β} : (if c then throw e >>= f else x) = .ok b ↔ ¬ c ∧ x = .ok b := by
  split
  · next hc => exact iff_of_false nofun fun h => h.1 hc
  · next hc => exact ⟨fun h => ⟨hc, h⟩, And.right⟩

/-- What follows a check is done exactly when the check passes. -/
lemma check_bind_eq_except_ok {x : Except ε Unit} {f : Unit → Except ε β} {b : β} :
    (x >>= f) = .ok b ↔ x = .ok () ∧ f () = .ok b :=
  bind_eq_except_ok.trans Unique.exists_iff

/-- A check that refuses one thing passes exactly when that is not the case. -/
lemma refuse_eq_except_ok {c : Prop} [Decidable c] {e : ε} :
    (if c then throw e else pure () : Except ε Unit) = .ok () ↔ ¬ c := by
  split
  · next hc => exact iff_of_false nofun fun h => h hc
  · next hc => exact iff_of_true rfl hc

/-- A loop over a list ends well exactly when its first step and its rest do. -/
lemma forM_cons_eq_ok {x : α} {xs : List α} {f : α → EStateM ε σ PUnit} {s t : σ} :
    (x :: xs).forM f s = .ok ⟨⟩ t ↔ ∃ u, f x s = .ok ⟨⟩ u ∧ xs.forM f u = .ok ⟨⟩ t := by
  rw [show (x :: xs).forM f = f x >>= fun _ => xs.forM f from rfl, bind_eq_ok]
  constructor
  · rintro ⟨⟨⟩, u, hx, hxs⟩
    exact ⟨u, hx, hxs⟩
  · rintro ⟨u, hx, hxs⟩
    exact ⟨⟨⟩, u, hx, hxs⟩

/-- What every step of a loop keeps, the loop keeps. -/
lemma forM_induction {f : α → EStateM ε σ PUnit} (P : σ → Prop) {xs : List α}
    (hstep : ∀ x ∈ xs, ∀ s t, P s → f x s = .ok ⟨⟩ t → P t) {s t : σ} (hs : P s)
    (hrun : xs.forM f s = .ok ⟨⟩ t) : P t := by
  induction xs generalizing s with
  | nil =>
      rw [show [].forM f = pure ⟨⟩ from rfl, pure_eq_ok] at hrun
      exact hrun.2 ▸ hs
  | cons x xs ih =>
      obtain ⟨u, hx, hxs⟩ := forM_cons_eq_ok.mp hrun
      refine ih (fun y hy => hstep y (List.mem_cons_of_mem x hy)) ?_ hxs
      exact hstep x List.mem_cons_self s u hs hx

/-- A check of all elements of a list succeeds exactly when each of them passes. -/
lemma forM_eq_except_ok {xs : List α} {f : α → Except ε Unit} :
    xs.forM f = .ok () ↔ ∀ x ∈ xs, f x = .ok () := by
  induction xs with
  | nil => exact ⟨fun _ _ hx => absurd hx List.not_mem_nil, fun _ => rfl⟩
  | cons x xs ih =>
      rw [show (x :: xs).forM f = f x >>= fun _ => xs.forM f from rfl, bind_eq_except_ok,
        List.forall_mem_cons, ← ih]
      exact ⟨fun ⟨_, hx, hxs⟩ => ⟨hx, hxs⟩, fun ⟨hx, hxs⟩ => ⟨(), hx, hxs⟩⟩

/-- A list whose elements can all be translated. -/
lemma mapM_eq_except_ok {xs : List α} {f : α → Except ε β} {g : α → β}
    (h : ∀ x ∈ xs, f x = .ok (g x)) : xs.mapM f = .ok (xs.map g) := by
  induction xs with
  | nil => rfl
  | cons x xs ih =>
      obtain ⟨hx, hxs⟩ := List.forall_mem_cons.mp h
      rw [List.mapM_cons, hx, except_ok_bind, ih hxs]
      rfl

/-! ### Runs that end with a fault -/

/-- A sequence ends with a fault of one of its parts. -/
lemma bind_eq_error {x : EStateM ε σ α} {f : α → EStateM ε σ β} {s t : σ} {e : ε} :
    (x >>= f) s = .error e t ↔
      x s = .error e t ∨ ∃ a u, x s = .ok a u ∧ f a u = .error e t := by
  simp only [bind, EStateM.bind]
  cases h : x s with
  | ok a u => simp
  | error e u => simp

lemma pure_ne_error {a : α} {s t : σ} {e : ε} : (pure a : EStateM ε σ α) s ≠ .error e t := by
  simp [pure, EStateM.pure]

lemma throw_eq_error {e e' : ε} {s t : σ} :
    (throw e : EStateM ε σ α) s = .error e' t ↔ e = e' ∧ s = t := by
  change EStateM.Result.error e s = .error e' t ↔ _
  simp

/-- A loop over a list ends with a fault of its first step or of its rest. -/
lemma forM_cons_eq_error {x : α} {xs : List α} {f : α → EStateM ε σ PUnit} {s t : σ} {e : ε} :
    (x :: xs).forM f s = .error e t ↔
      f x s = .error e t ∨ ∃ u, f x s = .ok ⟨⟩ u ∧ xs.forM f u = .error e t := by
  rw [show (x :: xs).forM f = f x >>= fun _ => xs.forM f from rfl, bind_eq_error]
  refine or_congr_right ⟨?_, ?_⟩
  · rintro ⟨⟨⟩, u, hx, hxs⟩
    exact ⟨u, hx, hxs⟩
  · rintro ⟨u, hx, hxs⟩
    exact ⟨⟨⟩, u, hx, hxs⟩

/-- A loop does not fail whose steps never do. -/
lemma forM_ne_error {xs : List α} {f : α → EStateM ε σ PUnit} {e : ε}
    (hstep : ∀ x ∈ xs, ∀ s t, f x s ≠ .error e t) {s t : σ} : xs.forM f s ≠ .error e t := by
  induction xs generalizing s with
  | nil => exact pure_ne_error
  | cons x xs ih =>
      obtain ⟨hx, hxs⟩ := List.forall_mem_cons.mp hstep
      intro h
      rcases forM_cons_eq_error.mp h with h | ⟨u, -, h⟩
      · exact hx s t h
      · exact ih hxs h

end Runs

namespace Edit

variable {α : Type} {n m : Network}

lemma view_eq_ok {f : Network → α} {a : α} : view f n = .ok a m ↔ f n = a ∧ n = m := by
  simp [view]

lemma query_eq_ok {f : Network → Except Fault α} {a : α} :
    query f n = .ok a m ↔ f n = .ok a ∧ n = m := by
  simp only [query]
  cases h : f n <;> simp

lemma update_eq_ok {f : Network → Network} {u : Unit} : update f n = .ok u m ↔ f n = m := by
  simp [update]

lemma slot_eq_ok {v : Nat} {s : Slot} : slot v n = .ok s m ↔ n.slot? v = some s ∧ n = m := by
  rw [slot, query_eq_ok, Network.read]
  cases h : n.slot? v <;> simp

lemma modifySlot_eq_ok {v : Nat} {f : Slot → Slot} {u : Unit} :
    modifySlot v f n = .ok u m ↔ v < n.size ∧ n.modifySlot v f = m := by
  simp only [modifySlot, bind_eq_ok, slot_eq_ok, update_eq_ok]
  constructor
  · rintro ⟨s, _, ⟨hs, rfl⟩, rfl⟩
    refine ⟨?_, rfl⟩
    by_contra hv
    rw [(n.slot?_eq_none_iff v).mpr (by omega)] at hs
    cases hs
  · rintro ⟨hv, rfl⟩
    exact ⟨n.nodes[v], n, ⟨Array.getElem?_eq_getElem hv, rfl⟩, rfl⟩

lemma raiseFanout_eq_ok {v k : Nat} : raiseFanout v n = .ok k m ↔ ∃ s, n.slot? v = some s ∧
    s.fanout < counterLimit ∧ s.fanout + 1 = k ∧
      n.modifySlot v ({ · with fanout := s.fanout + 1 }) = m := by
  simp only [raiseFanout, bind_eq_ok, slot_eq_ok]
  constructor
  · rintro ⟨s, _, ⟨hs, rfl⟩, hrun⟩
    split at hrun
    · simp only [bind_eq_ok, update_eq_ok, pure_eq_ok] at hrun
      obtain ⟨_, _, rfl, rfl, rfl⟩ := hrun
      exact ⟨s, hs, by assumption, rfl, rfl⟩
    · exact absurd hrun (by rw [throw_eq_ok]; exact id)
  · rintro ⟨s, hs, hlt, rfl, rfl⟩
    refine ⟨s, n, ⟨hs, rfl⟩, ?_⟩
    rw [if_pos hlt]
    rfl

lemma lowerFanout_eq_ok {v k : Nat} : lowerFanout v n = .ok k m ↔ ∃ s, n.slot? v = some s ∧
    s.fanout = k + 1 ∧ n.modifySlot v ({ · with fanout := k }) = m := by
  simp only [lowerFanout, bind_eq_ok, slot_eq_ok]
  constructor
  · rintro ⟨s, _, ⟨hs, rfl⟩, hrun⟩
    split at hrun
    · exact absurd hrun (by rw [throw_eq_ok]; exact id)
    · simp only [bind_eq_ok, update_eq_ok, pure_eq_ok] at hrun
      obtain ⟨_, _, rfl, rfl, rfl⟩ := hrun
      exact ⟨s, hs, by omega, rfl⟩
  · rintro ⟨s, hs, hk, rfl⟩
    refine ⟨s, n, ⟨hs, rfl⟩, ?_⟩
    rw [if_neg (by omega), show k = s.fanout - 1 by omega]
    rfl

/-- An operand that passed the check is live. -/
lemma requireLive_eq_ok {operation : Operation} {v : Nat} {u : Unit} :
    n.requireLive operation v = .ok u ↔ n.isLive v = true := by
  simp only [Network.requireLive, Network.isLive]
  cases h : n.slot? v with
  | none => simp
  | some s => cases hd : s.dead <;> simp

/-! ### Faults of the elementary edits -/

variable {f : Fault} {v : Nat}

lemma view_ne_error {g : Network → α} : view g n ≠ .error f m := by simp [view]

lemma update_ne_error {g : Network → Network} : update g n ≠ .error f m := by simp [update]

lemma query_eq_error {g : Network → Except Fault α} :
    query g n = .error f m ↔ g n = .error f ∧ n = m := by
  simp only [query]
  cases h : g n <;> simp

/-- The nodes of a network can be looked at. -/
lemma slot_ne_error (hv : v < n.size) : slot v n ≠ .error f m := by
  rw [slot, Ne, query_eq_error, Network.read]
  have hslot : n.slot? v = some n.nodes[v] := Array.getElem?_eq_getElem hv
  simp [hslot]

lemma modifySlot_ne_error {g : Slot → Slot} (hv : v < n.size) :
    modifySlot v g n ≠ .error f m := by
  simp only [modifySlot, Ne, bind_eq_error, not_or, not_exists, not_and]
  exact ⟨slot_ne_error hv, fun _ _ _ => update_ne_error⟩

/-- To count a use fails only when the counter is full. -/
lemma raiseFanout_eq_error (hv : v < n.size) (h : raiseFanout v n = .error f m) :
    f = .counterOverflow := by
  rcases bind_eq_error.mp h with h | ⟨s, _, -, h⟩
  · exact absurd h (slot_ne_error hv)
  · split_ifs at h
    · rcases bind_eq_error.mp h with h | ⟨_, _, -, h⟩
      · exact absurd h update_ne_error
      · exact absurd h pure_ne_error
    · exact (throw_eq_error.mp h).1.symm

/-- A node in use can lose a use. -/
lemma lowerFanout_ne_error (h0 : n.fanout v ≠ 0) : lowerFanout v n ≠ .error f m := by
  intro h
  rcases bind_eq_error.mp h with h | ⟨s, _, hslot, h⟩
  · refine slot_ne_error ?_ h
    by_contra hv
    exact h0 (by simp [Network.fanout, (n.slot?_eq_none_iff v).mpr (by omega)])
  · obtain ⟨hs, rfl⟩ := slot_eq_ok.mp hslot
    have hfanout : n.fanout v = s.fanout := by simp [Network.fanout, hs]
    rw [if_neg (hfanout ▸ h0)] at h
    rcases bind_eq_error.mp h with h | ⟨_, _, -, h⟩
    · exact update_ne_error h
    · exact pure_ne_error h

section Properties

variable {β : Type} {P : Network → Prop} {Q : α → Prop} {S : β → Prop}

/-! ### Edits that keep a property, also where they fail -/

/-- The network that an edit leaves behind, whether it ended well or with a fault. -/
def leaves (e : Edit α) (n : Network) : Network :=
  match e n with
  | .ok _ m => m
  | .error _ m => m

/-- **An edit guards a property** of networks when it keeps it, whether it ends well or with a
fault; where it ends well, its result has a property, too. -/
def Guards (P : Network → Prop) (Q : α → Prop) (e : Edit α) : Prop :=
  ∀ n, P n → P (e.leaves n) ∧ ∀ a m, e n = .ok a m → Q a

namespace Guards

lemma bind {e : Edit α} {f : α → Edit β} (he : Guards P Q e) (hf : ∀ a, Q a → Guards P S (f a)) :
    Guards P S (e >>= f) := by
  intro n hn
  obtain ⟨hP, hQ⟩ := he n hn
  cases hrun : e n with
  | ok a l =>
      rw [leaves, hrun] at hP
      have hsame : (e >>= f) n = f a l := by simp only [Bind.bind, EStateM.bind, hrun]
      rw [leaves, hsame]
      exact hf a (hQ a l hrun) l hP
  | error fault l =>
      rw [leaves, hrun] at hP
      have hsame : (e >>= f) n = .error fault l := by simp only [Bind.bind, EStateM.bind, hrun]
      rw [leaves, hsame]
      exact ⟨hP, nofun⟩

lemma pure {a : α} (ha : Q a) : Guards P Q (Pure.pure a : Edit α) :=
  fun _ hn => ⟨hn, fun _ _ hrun => (pure_eq_ok.mp hrun).1 ▸ ha⟩

lemma throw (fault : Fault) : Guards P Q (MonadExcept.throw fault : Edit α) :=
  fun _ hn => ⟨hn, fun _ _ hrun => (throw_eq_ok.mp hrun).elim⟩

lemma view_of {f : Network → α} (hf : ∀ n, P n → Q (f n)) : Guards P Q (Edit.view f) :=
  fun n hn => ⟨hn, fun _ _ hrun => (view_eq_ok.mp hrun).1 ▸ hf n hn⟩

lemma query_of {f : Network → Except Fault α} (hf : ∀ n a, P n → f n = .ok a → Q a) :
    Guards P Q (Edit.query f) := by
  intro n hn
  refine ⟨?_, fun a _ hrun => hf n a hn (query_eq_ok.mp hrun).1⟩
  rw [leaves, Edit.query]
  cases f n <;> exact hn

lemma slot_of {v : Nat} {Q : Slot → Prop} (hs : ∀ n s, P n → n.slot? v = some s → Q s) :
    Guards P Q (Edit.slot v) := by
  refine query_of fun n s hn hread => hs n s hn ?_
  exact (slot_eq_ok.mp (query_eq_ok.mpr ⟨hread, rfl⟩ : Edit.slot v n = .ok s n)).1

/-! To look at a network keeps everything. -/

lemma view (f : Network → α) : Guards P (fun _ => True) (Edit.view f) :=
  view_of fun _ _ => trivial

lemma query (f : Network → Except Fault α) : Guards P (fun _ => True) (Edit.query f) :=
  query_of fun _ _ _ _ => trivial

lemma slot (v : Nat) : Guards P (fun _ => True) (Edit.slot v) := query _

lemma update {f : Network → Network} (hf : ∀ n, P n → P (f n)) :
    Guards P (fun _ => True) (Edit.update f) :=
  fun n hn => ⟨hf n hn, fun _ _ _ => trivial⟩

lemma modifySlot {v : Nat} {f : Slot → Slot} (hf : ∀ n, P n → P (n.modifySlot v f)) :
    Guards P (fun _ => True) (Edit.modifySlot v f) :=
  bind (slot v) fun _ _ => update hf

lemma ite {c : Prop} [Decidable c] {e f : Edit α} (he : Guards P Q e) (hf : Guards P Q f) :
    Guards P Q (if c then e else f) := by
  split_ifs
  · exact he
  · exact hf

lemma forM {xs : List β} {f : β → Edit PUnit} (hf : ∀ x ∈ xs, Guards P (fun _ => True) (f x)) :
    Guards P (fun _ => True) (xs.forM f) := by
  induction xs with
  | nil => exact pure trivial
  | cons x xs ih =>
      obtain ⟨hx, hxs⟩ := List.forall_mem_cons.mp hf
      exact bind hx fun _ _ => ih hxs

end Guards

end Properties

end Edit

end AndInverter
