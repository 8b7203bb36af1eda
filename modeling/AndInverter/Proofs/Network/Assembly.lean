import AndInverter.Proofs.Network.Construction

/-!
Networks assembled from a list of parts.

* `Edit.Keeps`: an edit that keeps a property of networks, closed under sequences;
* `Network.assemble`: a network with a list of parts added to it;
* `Network.Sound.assemble`: it is well-formed and acyclic, whatever the parts are;
* `Network.crowd`: a network with so many outputs on a node that its counter is full.
-/

namespace AndInverter

open Network

/-- A network that is well-formed and acyclic. -/
def Network.Sound (n : Network) : Prop := n.WellFormed ∧ n.Acyclic

namespace Edit

variable {α β : Type} {P : Network → Prop}

/-- **An edit that keeps a property** of networks. -/
def Keeps (P : Network → Prop) (e : Edit α) : Prop := ∀ n a m, P n → e n = .ok a m → P m

lemma Keeps.bind {e : Edit α} {f : α → Edit β} (he : Keeps P e) (hf : ∀ a, Keeps P (f a)) :
    Keeps P (e >>= f) := by
  intro n b m hn hrun
  obtain ⟨a, l, hea, hfa⟩ := bind_eq_ok.mp hrun
  exact hf a l b m (he n a l hn hea) hfa

lemma keeps_pure (a : α) : Keeps P (pure a : Edit α) := by
  intro n b m hn hrun
  obtain ⟨-, rfl⟩ := pure_eq_ok.mp hrun
  exact hn

lemma keeps_wellFormed_addAnd (f g : Signal) : Keeps WellFormed (addAnd f g) :=
  fun _ _ _ hn hrun => (addAnd_spec hn hrun).2.2.1

lemma keeps_sound_addInput : Keeps Sound addInput := by
  rintro n s m ⟨hn, hacyclic⟩ hrun
  obtain ⟨hm, hkeeps, -⟩ := addInput_spec hn hrun
  exact ⟨hm, hkeeps hacyclic⟩

lemma keeps_sound_addOutput (s : Signal) : Keeps Sound (addOutput s) := by
  rintro n k m ⟨hn, hacyclic⟩ hrun
  obtain ⟨hm, hsame, -⟩ := addOutput_spec hn hrun
  exact ⟨hm, hacyclic.mono fun _ _ hread => hsame.reads.mp hread⟩

lemma keeps_sound_addAnd (f g : Signal) : Keeps Sound (addAnd f g) := by
  rintro n s m ⟨hn, hacyclic⟩ hrun
  obtain ⟨-, -, hm, hext, -⟩ := addAnd_spec hn hrun
  exact ⟨hm, hext.acyclic hacyclic hn.fanIns_live⟩

end Edit

/-- A part of a network; operands are given by their literals. -/
inductive Part where
  | input
  | gate (f g : Nat)
  | output (s : Nat)

/-- Adds a part. -/
def Part.add : Part → Edit Unit
  | input => do let _ ← Edit.addInput
  | gate f g => do let _ ← Edit.addAnd (.ofLiteral f) (.ofLiteral g)
  | output s => do let _ ← Edit.addOutput (.ofLiteral s)

/-- **A network with more parts**, up to the first one that does not fit. -/
def Network.assemble (n : Network) : List Part → Network
  | [] => n
  | part :: parts =>
    match part.add n with
    | .ok () m => m.assemble parts
    | .error _ _ => n

lemma Part.keeps_sound (part : Part) : Edit.Keeps Sound part.add := by
  cases part with
  | input => exact Edit.keeps_sound_addInput.bind fun _ => Edit.keeps_pure _
  | gate f g => exact (Edit.keeps_sound_addAnd _ _).bind fun _ => Edit.keeps_pure _
  | output s => exact (Edit.keeps_sound_addOutput _).bind fun _ => Edit.keeps_pure _

/-- **More parts leave a network well-formed and acyclic.** -/
theorem Network.Sound.assemble {n : Network} (h : n.Sound) (parts : List Part) :
    (n.assemble parts).Sound := by
  induction parts generalizing n with
  | nil => exact h
  | cons part parts ih =>
      rw [Network.assemble]
      cases hadd : part.add n with
      | ok u m => exact ih (part.keeps_sound n u m h hadd)
      | error => exact h

/-! ### Full counters -/

namespace Network

variable {n : Network} {v : Nat}

/-- **Outputs on one node**, no more than its counter has room for, are all made. -/
lemma assemble_outputs {k l : Nat} (hlive : n.isLive (l / 2) = true)
    (hroom : n.fanout (l / 2) + k ≤ counterLimit) :
    SameGates n (n.assemble (List.replicate k (.output l))) ∧
      (n.assemble (List.replicate k (.output l))).fanout (l / 2) = n.fanout (l / 2) + k := by
  induction k generalizing n with
  | zero => exact ⟨.refl n, rfl⟩
  | succ k ih =>
      have hfree : n.fanout (Signal.ofLiteral l).node < counterLimit :=
        Nat.lt_of_lt_of_le (Nat.lt_add_of_pos_right k.succ_pos) hroom
      obtain ⟨i, m, hrun⟩ := exists_addOutput (s := .ofLiteral l) hlive hfree
      obtain ⟨-, -, hsame, -, -⟩ := addOutput_effect hrun
      have hcount : m.fanout (l / 2) = n.fanout (l / 2) + 1 := (addOutput_fanout hrun).2
      have hadd : (Part.output l).add n = .ok () m := bind_eq_ok.mpr ⟨i, m, hrun, rfl⟩
      obtain ⟨hrest, hcounts⟩ := ih ((hsame.isLive _).trans hlive) (by omega)
      rw [List.replicate_succ, assemble, hadd]
      exact ⟨hsame.trans hrest, by rw [hcounts, hcount, Nat.add_assoc, Nat.add_comm 1]⟩

/-- **A crowded network**: a node is made an output as often as its counter has room for. -/
def crowd (n : Network) (v : Nat) : Network :=
  n.assemble (List.replicate (counterLimit - n.fanout v) (.output (2 * v)))

/-- It has the gates that it had, and the counter is full. -/
lemma crowd_spec (hlive : n.isLive v = true) (hle : n.fanout v ≤ counterLimit) :
    SameGates n (n.crowd v) ∧ (n.crowd v).fanout v = counterLimit := by
  have hhalf : 2 * v / 2 = v := Nat.mul_div_cancel_left v Nat.two_pos
  have hspec := assemble_outputs (n := n) (k := counterLimit - n.fanout v) (l := 2 * v)
  rw [hhalf, Nat.add_sub_cancel' hle] at hspec
  exact hspec hlive le_rfl

lemma Sound.crowd (h : n.Sound) (v : Nat) : (n.crowd v).Sound := h.assemble _

end Network

end AndInverter
