import AndInverter.Network.Substitute
import AndInverter.Proofs.Interpretation

/-!
Renamings that grow by replaced nodes.  An entry leads to a node that had not been replaced
when the entry was made, so a way along entries leads to ever later ones and ends.

* `Renaming.Settled`: the nodes in the order of their last replacement, the latest first;
* `Renaming.resolve_notMem`: the end of the way from a signal was not replaced, and
  `SettledBy.resolves`: the way leads there also when no bound is set to it;
* `SettledBy.acyclic`: no way along entries comes back to where it began;
* `Renaming.exists_entry_of_resolve`: an entry leads there, unless it is the signal itself;
* `Renaming.read_resolve`: it has the value of the signal.
-/

namespace AndInverter.Renaming

open Relation

variable {r : Renaming} {keys : List Nat} {v w : Nat} {s t u : Signal}

/-- Each entry leads to a node that is no key or a later one. -/
def Settled (r : Renaming) : List Nat → Prop
  | [] => True
  | v :: earlier => (∃ t, r[v]? = some t ∧ t.node ∉ v :: earlier) ∧ v ∉ earlier ∧
    r.Settled earlier

/-- **A settled renaming**, with its keys in the order of their last entry. -/
structure SettledBy (r : Renaming) (keys : List Nat) : Prop where
  settled : r.Settled keys
  mem_iff : ∀ v, v ∈ keys ↔ v ∈ r
  length_eq : keys.length = r.size

lemma settledBy_empty : SettledBy ∅ [] := ⟨trivial, fun v => by simp, by simp⟩

/-- The entry of a key that stands at some place of the order. -/
lemma Settled.entry {later earlier : List Nat} (h : r.Settled (later ++ v :: earlier)) :
    ∃ t, r[v]? = some t ∧ t.node ∉ v :: earlier := by
  induction later with
  | nil => exact h.1
  | cons w later ih => exact ih h.2.2

/-- A new entry does not disturb the others. -/
lemma Settled.insert_erase (h : r.Settled keys) (v : Nat) (t : Signal) :
    Settled (r.insert v t) (keys.erase v) := by
  induction keys with
  | nil => exact trivial
  | cons w earlier ih =>
      obtain ⟨⟨u, hu, hnot⟩, hw, hrest⟩ := h
      by_cases hwv : w = v
      · subst hwv
        rw [List.erase_cons_head]
        have := ih hrest
        rwa [List.erase_of_not_mem hw] at this
      · rw [List.erase_cons_tail (by simpa using hwv)]
        refine ⟨⟨u, ?_, fun hmem => hnot ?_⟩, fun hmem => hw (List.mem_of_mem_erase hmem), ih hrest⟩
        · rw [Std.ExtTreeMap.getElem?_insert]
          simpa [Ne.symm hwv] using hu
        · rcases List.mem_cons.mp hmem with heq | hmem
          · exact heq ▸ List.mem_cons_self
          · exact List.mem_cons_of_mem w (List.mem_of_mem_erase hmem)

lemma SettledBy.nodup (h : r.SettledBy keys) : keys.Nodup := by
  have key : ∀ l, r.Settled l → l.Nodup := by
    intro l
    induction l with
    | nil => exact fun _ => List.nodup_nil
    | cons w l ih => exact fun hl => List.nodup_cons.mpr ⟨hl.2.1, ih hl.2.2⟩
  exact key keys h.settled

/-- **An entry for a node** may lead to any node that is no key, except to itself. -/
lemma SettledBy.insert (h : r.SettledBy keys) (hne : t.node ≠ v) (ht : t.node ∉ r) :
    SettledBy (r.insert v t) (v :: keys.erase v) := by
  have hnodup := h.nodup
  refine ⟨⟨⟨t, by simp, ?_⟩, hnodup.not_mem_erase, h.settled.insert_erase v t⟩, ?_, ?_⟩
  · refine List.not_mem_cons_of_ne_of_not_mem hne fun hmem => ht ?_
    exact (h.mem_iff _).mp (List.mem_of_mem_erase hmem)
  · intro w
    rw [List.mem_cons, hnodup.mem_erase_iff, h.mem_iff, Std.ExtTreeMap.mem_insert,
      Std.LawfulEqCmp.compare_eq_iff_eq]
    by_cases hwv : w = v
    · simp [hwv]
    · simp [hwv, Ne.symm hwv]
  · rw [List.length_cons, Std.ExtTreeMap.size_insert, List.length_erase, h.length_eq]
    by_cases hv : v ∈ keys
    · have hpos := List.length_pos_of_mem hv
      rw [h.length_eq] at hpos
      rw [if_pos hv, if_pos (Std.ExtTreeMap.contains_iff_mem.mpr ((h.mem_iff v).mp hv))]
      omega
    · rw [if_neg hv, if_neg fun hmem =>
        hv ((h.mem_iff v).mpr (Std.ExtTreeMap.contains_iff_mem.mp hmem))]

/-- From a key with so many later ones, the way is not longer than that. -/
lemma follow_notMem (h : r.SettledBy keys) (bound : Nat) (s : Signal)
    (hs : s.node ∉ r ∨ ∃ later earlier, keys = later ++ s.node :: earlier ∧
      later.length < bound) : (r.follow bound s).node ∉ r := by
  induction bound generalizing s with
  | zero =>
      rcases hs with hs | ⟨_, _, _, hlt⟩
      · exact hs
      · exact absurd hlt (Nat.not_lt_zero _)
  | succ bound ih =>
      rw [follow]
      cases hentry : r[s.node]? with
      | none =>
          simpa using hentry
      | some t =>
          have hmem : s.node ∈ r := by
            rw [Std.ExtTreeMap.mem_iff_isSome_getElem?, hentry]
            rfl
          refine ih (t.complementIf s.complemented) ?_
          rw [Signal.node_complementIf]
          obtain ⟨later, earlier, hkeys, hlt⟩ := hs.resolve_left (absurd hmem)
          obtain ⟨t', ht', hnot⟩ := (hkeys ▸ h.settled).entry
          obtain rfl := Option.some.inj (hentry.symm.trans ht')
          by_cases ht : t.node ∈ r
          · have hin := (h.mem_iff t.node).mpr ht
            rw [hkeys, List.mem_append] at hin
            obtain ⟨front, back, hlater⟩ := List.append_of_mem (hin.resolve_right hnot)
            refine .inr ⟨front, back ++ s.node :: earlier, ?_, ?_⟩
            · rw [hkeys, hlater, List.append_assoc, List.cons_append]
            · rw [hlater, List.length_append, List.length_cons] at hlt
              omega
          · exact .inl ht

lemma resolve_empty (s : Signal) : Renaming.resolve ∅ s = s := by
  rw [resolve, Std.ExtTreeMap.size_empty, follow]

/-- **The end of the way** from a signal was not replaced. -/
theorem resolve_notMem (h : r.SettledBy keys) (s : Signal) : (r.resolve s).node ∉ r := by
  refine follow_notMem h r.size s ?_
  by_cases hs : s.node ∈ r
  · obtain ⟨later, earlier, hkeys⟩ := List.append_of_mem ((h.mem_iff s.node).mpr hs)
    refine .inr ⟨later, earlier, hkeys, ?_⟩
    rw [← h.length_eq, hkeys, List.length_append, List.length_cons]
    omega
  · exact .inl hs

/-- **An entry that sends a node to the end of a way**, unless that is the node itself. -/
lemma SettledBy.insert_resolve (h : r.SettledBy keys) (hne : (r.resolve s).node ≠ v) :
    SettledBy (r.insert v (r.resolve s)) (v :: keys.erase v) :=
  h.insert hne (resolve_notMem h s)

/-! ### Ways without a bound -/

/-- An entry sends a node to another one. -/
def Sends (r : Renaming) (v w : Nat) : Prop := ∃ t, r[v]? = some t ∧ t.node = w

/-- **An acyclic renaming**: no way along its entries comes back to where it began. -/
def Acyclic (r : Renaming) : Prop := ∀ v, ¬ TransGen r.Sends v v

/-- **The way of a signal** along the entries, for as long as there is one. -/
inductive Resolves (r : Renaming) : Signal → Signal → Prop
  | done {s : Signal} (h : s.node ∉ r) : r.Resolves s s
  | pass {s t u : Signal} (h : r[s.node]? = some t)
      (rest : r.Resolves (t.complementIf s.complemented) u) : r.Resolves s u

lemma Sends.mem (h : r.Sends v w) : v ∈ r := by
  obtain ⟨t, ht, -⟩ := h
  rw [Std.ExtTreeMap.mem_iff_isSome_getElem?, ht]
  rfl

/-- Where the bound is not felt, the way without a bound is the same. -/
lemma resolves_follow {bound : Nat} (h : (r.follow bound s).node ∉ r) :
    r.Resolves s (r.follow bound s) := by
  induction bound generalizing s with
  | zero => exact .done h
  | succ bound ih =>
      rw [follow] at h ⊢
      cases hentry : r[s.node]? with
      | none =>
          simp only [hentry] at h
          exact .done h
      | some t =>
          simp only [hentry] at h
          exact .pass hentry (ih h)

/-- **Every way ends**, on a node that was not replaced. -/
theorem SettledBy.resolves (h : r.SettledBy keys) (s : Signal) : r.Resolves s (r.resolve s) :=
  resolves_follow (resolve_notMem h s)

/-- An entry leads to a later key, if to a key at all. -/
lemma SettledBy.idxOf_lt_of_sends (h : r.SettledBy keys) (hsend : r.Sends v w) (hw : w ∈ r) :
    keys.idxOf w < keys.idxOf v := by
  obtain ⟨later, earlier, hkeys⟩ := List.append_of_mem ((h.mem_iff v).mpr hsend.mem)
  obtain ⟨t, ht, rfl⟩ := hsend
  obtain ⟨t', ht', hnot⟩ := (hkeys ▸ h.settled).entry
  obtain rfl := Option.some.inj (ht.symm.trans ht')
  have hnodup := h.nodup
  have hin := (h.mem_iff t.node).mpr hw
  rw [hkeys] at hnodup hin ⊢
  have hlater := (List.mem_append.mp hin).resolve_right hnot
  have hv : v ∉ later := fun hmem =>
    (List.nodup_append.mp hnodup).2.2 v hmem v List.mem_cons_self rfl
  rw [List.idxOf_append_of_mem hlater, List.idxOf_append_of_notMem hv, List.idxOf_cons_self]
  exact List.idxOf_lt_length_of_mem hlater

/-- **A settled renaming is acyclic**: a way along its entries passes ever later keys. -/
theorem SettledBy.acyclic (h : r.SettledBy keys) : r.Acyclic := by
  have hlater : ∀ {v w}, TransGen r.Sends v w → w ∈ r → keys.idxOf w < keys.idxOf v := by
    intro v w hway
    induction hway with
    | single hsend => exact h.idxOf_lt_of_sends hsend
    | tail _ hsend ih =>
        intro hw
        exact (h.idxOf_lt_of_sends hsend hw).trans (ih hsend.mem)
  intro v hway
  obtain ⟨w, hsend, -⟩ := TransGen.head'_iff.mp hway
  exact lt_irrefl _ (hlater hway hsend.mem)

/-! ### What a resolved signal is -/

/-- What was not replaced is left as it is. -/
lemma resolve_of_notMem (hs : s.node ∉ r) : r.resolve s = s := by
  rw [resolve]
  cases r.size with
  | zero => rfl
  | succ bound => rw [follow, Std.ExtTreeMap.getElem?_eq_none hs]

/-- Where the way from a signal ends on another node, an entry leads to that node. -/
lemma exists_entry_of_resolve (r : Renaming) (s : Signal) :
    (r.resolve s).node = s.node ∨
      ∃ (v : Nat) (t : Signal), r[v]? = some t ∧ t.node = (r.resolve s).node := by
  have key : ∀ bound s, (r.follow bound s).node = s.node ∨
      ∃ (v : Nat) (t : Signal), r[v]? = some t ∧ t.node = (r.follow bound s).node := by
    intro bound
    induction bound with
    | zero => exact fun _ => .inl rfl
    | succ bound ih =>
        intro s
        rw [follow]
        cases hentry : r[s.node]? with
        | none => exact .inl rfl
        | some t =>
            refine .inr ((ih (t.complementIf s.complemented)).elim (fun hend => ?_) id)
            exact ⟨s.node, t, hentry, hend.symm⟩
  exact key r.size s

/-- The end of the way has the value of the signal it began with. -/
lemma read_resolve {M : Type} {A : Connectives M} {φ : Nat → M} (hA : A.Lawful)
    (h : ∀ v t, r[v]? = some t → φ v = A.read φ t) (s : Signal) :
    A.read φ (r.resolve s) = A.read φ s := by
  have key : ∀ bound s, A.read φ (r.follow bound s) = A.read φ s := by
    intro bound
    induction bound with
    | zero => exact fun _ => rfl
    | succ bound ih =>
        intro s
        rw [follow]
        cases hentry : r[s.node]? with
        | none => rfl
        | some t => rw [ih, ← Connectives.read_of_eq hA (h s.node t hentry)]
  exact key r.size s

end AndInverter.Renaming
