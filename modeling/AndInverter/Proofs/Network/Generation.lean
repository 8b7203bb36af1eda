import AndInverter.Proofs.Network.Steady

/-!
The generation counts the changes of the graph: an edit that leaves the generation alone
leaves the graph alone.

* `Network.Paces` relates a network to a later one, and `steady_paces`: it is steady;
* `Edit.KeepsPace`: an edit that leads to later networks;
* `keepsPace_replaceInGate`, `keepsPace_substitute`, `keepsPace_retireUnused`: the edits do.
-/

namespace AndInverter

open Network

variable {α : Type} {n m l : Network} {v k : Nat}

/-- **Pace**: no generation is passed twice, and one generation has one graph. -/
structure Network.Paces (n m : Network) : Prop where
  le : n.generation ≤ m.generation
  same : m.generation = n.generation → SameGraph n m

lemma Network.Paces.refl (n : Network) : n.Paces n := ⟨le_rfl, fun _ => .refl n⟩

lemma Network.Paces.trans (h : n.Paces m) (h' : m.Paces l) : n.Paces l where
  le := h.le.trans h'.le
  same heq := by
    have h₁ := h.le
    have h₂ := h'.le
    exact (h.same (by omega)).trans (h'.same (by omega))

lemma Network.Paces.of_lt (h : n.generation < m.generation) : n.Paces m :=
  ⟨h.le, fun heq => absurd heq (Nat.ne_of_gt h)⟩

namespace Edit

/-- **An edit that keeps pace**: its result is a later network. -/
def KeepsPace (e : Edit α) : Prop := ∀ n a m, e n = .ok a m → n.Paces m

/-! ### Counting uses -/

lemma generation_of_raise (hrun : raiseFanout v n = .ok k m) : m.generation = n.generation := by
  obtain ⟨_, _, _, _, rfl⟩ := raiseFanout_eq_ok.mp hrun
  rfl

lemma generation_of_lower (hrun : lowerFanout v n = .ok k m) : m.generation = n.generation := by
  obtain ⟨_, _, _, rfl⟩ := lowerFanout_eq_ok.mp hrun
  rfl

lemma gradual_sameGeneration : Gradual fun n m => m.generation = n.generation where
  refl _ := rfl
  trans h h' := h'.trans h
  raise _ _ _ _ hrun := generation_of_raise hrun
  lower _ _ _ _ hrun := generation_of_lower hrun

lemma gradual_paces : Gradual Paces where
  refl := .refl
  trans := .trans
  raise _ _ _ _ hrun := ⟨(generation_of_raise hrun).ge, fun _ => (raiseFanout_spec hrun).1⟩
  lower _ _ _ _ hrun := ⟨(generation_of_lower hrun).ge, fun _ => (lowerFanout_spec hrun).1⟩

/-! ### Changes of the graph -/

lemma generation_of_unhash {g : Nat} {key : AndKey} (hrun : unhash g key n = .ok () m) :
    m.generation = n.generation := by
  obtain ⟨_, rfl, -⟩ := unhash_spec hrun
  rfl

/-- The death of a gate is one step of the generation. -/
lemma generation_of_retireOne {g : Nat} {a b : Signal} {found : List Nat}
    (hrun : retireOne g a b n = .ok found m) : m.generation = n.generation + 1 := by
  simp only [retireOne, bind_eq_ok, modifySlot_eq_ok, update_eq_ok, pure_eq_ok] at hrun
  obtain ⟨_, n₁, ⟨-, hn₁⟩, _, n₂, hunhash, _, n₃, hn₃, _, n₄, hA, _, n₅, hB, -, rfl⟩ := hrun
  calc n₅.generation = n₄.generation := gradual_sameGeneration.releaseFanIn b n₄ _ n₅ hB
    _ = n₃.generation := gradual_sameGeneration.releaseFanIn a n₃ _ n₄ hA
    _ = n₂.generation + 1 := by rw [← hn₃]; rfl
    _ = n₁.generation + 1 := by rw [generation_of_unhash hunhash]
    _ = n.generation + 1 := by rw [← hn₁]; rfl

lemma keepsPace_retireOne (g : Nat) (a b : Signal) : KeepsPace (retireOne g a b) := by
  intro n found m hrun
  exact .of_lt (by rw [generation_of_retireOne hrun]; omega)

/-- Other fan-ins for a gate are one step of the generation. -/
lemma generation_of_rewire {g old new : Nat} {a b : Signal} {key : AndKey}
    (hrun : rewire g a b key old new n = .ok () m) : m.generation = n.generation + 1 := by
  simp only [rewire, bind_eq_ok, modifySlot_eq_ok, update_eq_ok] at hrun
  obtain ⟨_, n₁, hunhash, _, n₂, ⟨-, hn₂⟩, _, n₃, hn₃, _, n₄, hlow, _, n₅, hraise, hm⟩ := hrun
  calc m.generation = n₅.generation + 1 := by rw [← hm]; rfl
    _ = n₄.generation + 1 := by rw [generation_of_raise hraise]
    _ = n₃.generation + 1 := by rw [generation_of_lower hlow]
    _ = n₂.generation + 1 := by rw [← hn₃]
    _ = n₁.generation + 1 := by rw [← hn₂]; rfl
    _ = n.generation + 1 := by rw [generation_of_unhash hunhash]

lemma keepsPace_rewire (g : Nat) (a b : Signal) (key : AndKey) (old new : Nat) :
    KeepsPace (rewire g a b key old new) := by
  intro n _ m hrun
  exact .of_lt (by rw [generation_of_rewire hrun]; omega)

/-- A gate need not be live to get another fan-in. -/
lemma keepsPace_replaceInGate (g old : Nat) (new : Signal) :
    KeepsPace (replaceInGate g old new) := by
  have hswap : ∀ a b kept moved, KeepsPace (replaceFanIn g a b kept old moved) := by
    intro a b kept moved n result m hrun
    obtain ⟨_, -, -, rfl⟩ | ⟨_, _, -, -, -, -, rfl⟩ | ⟨_, -, -, -, hrewire⟩ :=
      replaceFanIn_cases hrun
    · exact .refl m
    · exact .refl m
    · exact keepsPace_rewire _ _ _ _ _ _ n () m hrewire
  refine gradual_paces.bind (gradual_paces.slot g) fun s => ?_
  split
  · exact gradual_paces.pure none
  · exact Ensures.ite (hswap _ _ _ _) (Ensures.ite (hswap _ _ _ _) (gradual_paces.pure none))

/-- One output may change without a step of the generation, which follows after the last. -/
lemma generation_of_redirectOutput {old index : Nat} {new s : Signal}
    (hrun : redirectOutput old new index s n = .ok () m) : m.generation = n.generation := by
  simp only [redirectOutput, bind_eq_ok, update_eq_ok] at hrun
  obtain ⟨_, n₁, hn₁, _, n₂, hlow, _, n₃, hraise, hm⟩ := hrun
  have h₁ : n₁.generation = n.generation := by rw [← hn₁]
  have h₂ := generation_of_lower hlow
  have h₃ := generation_of_raise hraise
  have h₄ : m.generation = n₃.generation := by rw [← hm]; rfl
  omega

lemma keepsPace_replaceInOutputs (old : Nat) (new : Signal) :
    KeepsPace (replaceInOutputs old new) := by
  intro n count m hrun
  simp only [replaceInOutputs, bind_eq_ok, view_eq_ok] at hrun
  obtain ⟨_, _, ⟨rfl, rfl⟩, _, n₁, hloop, hrun⟩ := hrun
  have hgen : n₁.generation = n.generation := by
    refine forM_induction (fun l => l.generation = n.generation) ?_ rfl hloop
    intro x _ s t hs hone
    exact (generation_of_redirectOutput hone).trans hs
  split_ifs at hrun with hdriven
  · obtain ⟨-, rfl⟩ := pure_eq_ok.mp hrun
    refine .of_lt ?_
    rw [← hgen]
    exact Nat.lt_succ_self _
  · obtain ⟨-, rfl⟩ := pure_eq_ok.mp hrun
    rw [not_not] at hdriven
    rw [hdriven] at hloop
    obtain ⟨-, rfl⟩ := pure_eq_ok.mp hloop
    exact .refl n

lemma keepsPace_allocate (key : AndKey) : KeepsPace (allocate key) := by
  intro n s m hrun
  simp only [allocate, bind_eq_ok, view_eq_ok, update_eq_ok, pure_eq_ok] at hrun
  obtain ⟨_, _, ⟨rfl, rfl⟩, _, n₁, hn₁, _, n₂, hraise₁, _, n₃, hraise₂, _, n₄, hn₄, -, rfl⟩ :=
    hrun
  have h₁ : n₁.generation = n.generation := by rw [← hn₁]; rfl
  have h₂ := generation_of_raise hraise₁
  have h₃ := generation_of_raise hraise₂
  have h₄ : n₄.generation = n₃.generation + 1 := by rw [← hn₄]; rfl
  exact .of_lt (by omega)

lemma keepsPace_addInput : KeepsPace addInput := by
  intro n s m hrun
  simp only [addInput, bind_eq_ok, view_eq_ok, update_eq_ok, pure_eq_ok] at hrun
  obtain ⟨_, _, ⟨rfl, rfl⟩, _, _, ⟨rfl, rfl⟩, _, _, rfl, _, _, rfl, -, rfl⟩ := hrun
  exact .of_lt (Nat.lt_succ_self _)

lemma keepsPace_addOutput (s : Signal) : KeepsPace (addOutput s) := by
  intro n k m hrun
  simp only [addOutput, bind_eq_ok, query_eq_ok, view_eq_ok, update_eq_ok, pure_eq_ok] at hrun
  obtain ⟨_, _, ⟨-, rfl⟩, _, n₁, hraise, _, _, ⟨rfl, rfl⟩, _, n₂, hn₂, -, rfl⟩ := hrun
  have h₁ := generation_of_raise hraise
  have h₂ : n₂.generation = n₁.generation + 1 := by rw [← hn₂]; rfl
  exact .of_lt (by omega)

/-! ### The edits as a whole -/

/-- **Pace is steady**: every change of the graph is a step of the generation. -/
theorem steady_paces : Steady Paces where
  toGradual := gradual_paces
  retireOne _ hrun := keepsPace_retireOne _ _ _ _ _ _ hrun
  rewire _ hrun := keepsPace_rewire _ _ _ _ _ _ _ _ _ hrun
  replaceInOutputs := keepsPace_replaceInOutputs
  allocate := keepsPace_allocate

lemma keepsPace_serve (moved : Renaming) (r : Request) : KeepsPace (serve moved r) :=
  steady_paces.serve moved r

/-- **A substitution keeps pace.** -/
theorem keepsPace_substitute (old : Nat) (new : Signal) : KeepsPace (substitute old new) :=
  steady_paces.substitute old new

/-- **To retire what is not used keeps pace.** -/
theorem keepsPace_retireUnused (first : Nat) : KeepsPace (retireUnused first) :=
  steady_paces.retireUnused first

end Edit

end AndInverter
