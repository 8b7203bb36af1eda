import AndInverter.Proofs.Aiger.Listing
import AndInverter.Proofs.History

/-!
A network is loaded back from its file with other positions, and is written as the same file
again.

* `Document.Describes.topology`: in a loaded network the positions are in breadth-first order;
* `Document.Describes.listing`: so it is written as the file from which it was loaded;
* `Document.Describes.isomorphicBy`: the network of a file and the one that was written;
* `aiger_roundtrip`: both, for every network that is small enough, and `history_roundtrip`: for
  those with a history.
-/

namespace AndInverter

open Aiger Network

variable {d : Document} {n m : Network} {g u v : Nat} {a b : Signal} {e : Definition}

/-! ### Loaded networks -/

lemma idxOf_range {k : Nat} (hv : v < k) : (List.range k).idxOf v = v := by
  have hget := List.nodup_range.idxOf_getElem v (show v < (List.range k).length by simpa)
  rwa [List.getElem_range] at hget

/-- Of two definitions the one with the lower variable comes first. -/
lemma Aiger.Document.Dense.rhs₀_mono {e' : Definition} (hd : d.Dense)
    (hpairwise : d.definitions.Pairwise fun e e' => e.rhs₀ / 2 ≤ e'.rhs₀ / 2)
    (he : e ∈ d.definitions) (he' : e' ∈ d.definitions) (hlt : e.var < e'.var) :
    e.rhs₀ / 2 ≤ e'.rhs₀ / 2 := by
  have hvars : (d.definitions.map (·.var)).Pairwise (· < ·) := by
    rw [hd.vars_eq]
    exact List.pairwise_lt_range'
  rw [List.pairwise_map] at hvars
  obtain ⟨i, hi, rfl⟩ := List.mem_iff_getElem.mp he
  obtain ⟨j, hj, rfl⟩ := List.mem_iff_getElem.mp he'
  rcases Nat.lt_trichotomy i j with hij | rfl | hji
  · exact List.pairwise_iff_getElem.mp hpairwise i j hi hj hij
  · exact le_rfl
  · exact absurd hlt (Nat.lt_asymm (List.pairwise_iff_getElem.mp hvars j i hj hi hji))

namespace Aiger.Document.Describes

variable (h : d.Describes n) (hd : d.Dense)

include h

lemma gate (he : e ∈ d.definitions) : n.Gate e.var e.key.lhs e.key.rhs :=
  (h.gate_iff _ _ _).mpr ⟨e, he, rfl, rfl⟩

lemma isLive_iff : n.isLive v = true ↔ v < n.size := ⟨lt_size_of_isLive, h.isLive v⟩

include hd

/-- The gates stand above the constant and the inputs. -/
lemma isLiveGate_iff : n.isLiveGate v = true ↔ 1 + d.inputs.length ≤ v ∧ v < n.size := by
  have hvars : v ∈ d.definitions.map (·.var) ↔ 1 + d.inputs.length ≤ v ∧ v < n.size := by
    rw [hd.vars_eq, List.mem_range'_1, h.size]
  rw [← hvars, Network.isLiveGate_iff, List.mem_map]
  constructor
  · rintro ⟨a, b, hg⟩
    obtain ⟨e, he, rfl, -⟩ := (h.gate_iff _ _ _).mp hg
    exact ⟨e, he, rfl⟩
  · rintro ⟨e, he, rfl⟩
    exact ⟨_, _, h.gate he⟩

lemma lt_of_reads (hread : n.Reads g v) : v < g := by
  obtain ⟨a, b, hg, hv⟩ := hread
  obtain ⟨e, he, rfl, hkey⟩ := (h.gate_iff _ _ _).mp hg
  obtain ⟨-, hlt, hvar⟩ := hd.operands e he
  cases hkey
  simp only [Signal.ofLiteral] at hv
  omega

lemma acyclic : n.Acyclic := acyclic_of_rank id fun _ _ hread _ => h.lt_of_reads hd hread

lemma inputs_pairwise : n.inputs.toList.Pairwise (· < ·) := by
  rw [h.inputs, hd.inputs_eq]
  exact List.pairwise_lt_range'

/-- A gate waits for the fan-in of its larger literal. -/
lemma readyAt_var (he : e ∈ d.definitions) :
    n.readyAt (List.range n.size) e.var = e.rhs₀ / 2 + 1 := by
  have hg := h.gate he
  obtain ⟨-, hlt, hvar⟩ := hd.operands e he
  have hsize : e.var < n.size := hg.lt_size
  have hlhs : (List.range n.size).idxOf e.key.lhs.node = e.rhs₁ / 2 :=
    idxOf_range (show e.rhs₁ / 2 < n.size by omega)
  have hrhs : (List.range n.size).idxOf e.key.rhs.node = e.rhs₀ / 2 :=
    idxOf_range (show e.rhs₀ / 2 < n.size by omega)
  rw [hg.readyAt, hlhs, hrhs]
  omega

variable (hpairwise : d.definitions.Pairwise fun e e' => e.rhs₀ / 2 ≤ e'.rhs₀ / 2)

include hpairwise

lemma breadthFirst : n.BreadthFirst (List.range n.size) := by
  refine List.pairwise_lt_range.imp_of_mem ?_
  intro u v hu hv huv
  rw [List.mem_range] at hu hv
  by_cases hgv : n.isLiveGate v = true
  · obtain ⟨a, b, hg⟩ := Network.isLiveGate_iff.mp hgv
    obtain ⟨e', he', rfl, -⟩ := (h.gate_iff _ _ _).mp hg
    by_cases hgu : n.isLiveGate u = true
    · obtain ⟨a, b, hg⟩ := Network.isLiveGate_iff.mp hgu
      obtain ⟨e, he, rfl, -⟩ := (h.gate_iff _ _ _).mp hg
      have hle := hd.rhs₀_mono hpairwise he he' huv
      rw [Precedes, h.readyAt_var hd he, h.readyAt_var hd he']
      omega
    · rw [Precedes, readyAt_eq_zero hgu, h.readyAt_var hd he']
      exact .inl (Nat.succ_pos _)
  · have hgu : ¬ n.isLiveGate u = true := by
      rw [h.isLiveGate_iff hd] at hgv ⊢
      omega
    rw [Precedes, readyAt_eq_zero hgu, readyAt_eq_zero hgv]
    exact .inr ⟨rfl, huv⟩

/-- **The positions of a loaded network** are in breadth-first order. -/
theorem topology : n.topology.order.toList = List.range n.size := by
  obtain ⟨horder, -⟩ := n.topology_spec
  have hfirst : n.FanInsFirst (List.range n.size) := by
    intro before g after heq v hread
    have hlt := h.lt_of_reads hd hread
    have hsorted : (before ++ g :: after).Pairwise (· < ·) := heq ▸ List.pairwise_lt_range
    have hmem : v ∈ before ++ g :: after := by
      rw [← heq, List.mem_range]
      exact hlt.trans hread.lt_size
    rcases List.mem_append.mp hmem with hmem | hmem
    · exact hmem
    rcases List.mem_cons.mp hmem with rfl | hmem
    · exact absurd hlt (Nat.lt_irrefl v)
    · have hgv := List.rel_of_pairwise_cons (List.pairwise_append.mp hsorted).2.1 hmem
      exact absurd hlt (Nat.lt_asymm hgv)
  refine eq_of_breadthFirst (n := n) (fun v => ?_) horder.nodup List.nodup_range
    horder.fanInsFirst hfirst n.topology_breadthFirst.1 (h.breadthFirst hd hpairwise)
  rw [mem_topology h.wellFormed (h.acyclic hd), List.mem_range, h.isLive_iff]

lemma place_eq (hv : v < n.size) : n.place v = v := by
  rw [place, h.topology hd hpairwise, idxOf_range hv]

lemma code_ofLiteral_renumber {l : Nat} (hl : l / 2 < n.size) :
    ((Signal.ofLiteral l).renumber n.place).code = l := by
  have hnode : n.place (Signal.ofLiteral l).node = (Signal.ofLiteral l).node :=
    h.place_eq hd hpairwise hl
  rw [Signal.renumber, hnode]
  exact code_ofLiteral l

/-- The gates of a loaded network are listed as they were defined. -/
lemma listedGates : n.listedGates = d.definitions.map fun e => (e.var, e.key.lhs, e.key.rhs) := by
  have hrange : List.range n.size
      = List.range (1 + d.inputs.length) ++ d.definitions.map (·.var) := by
    rw [hd.vars_eq, List.range_eq_range', List.range_eq_range', h.size]
    have happend := List.range'_append_1 (s := 0) (m := 1 + d.inputs.length)
      (n := d.definitions.length)
    rw [Nat.zero_add] at happend
    exact happend.symm
  have hnone : ∀ v ∈ List.range (1 + d.inputs.length),
      (n.fanIns? v).map (fun p => (v, p)) = none := by
    intro v hv
    rw [List.mem_range] at hv
    rw [Option.map_eq_none_iff, ← Option.not_isSome_iff_eq_none, Option.isSome_iff_exists]
    rintro ⟨p, hp⟩
    have hlive := h.isLive v (by rw [h.size]; omega)
    have hgate := (h.isLiveGate_iff hd).mp
      (Network.isLiveGate_iff.mpr ⟨p.1, p.2, gate_of_fanIns? hp hlive⟩)
    omega
  rw [Network.listedGates, gatesInOrder, h.topology hd hpairwise, hrange, List.filterMap_append,
    List.filterMap_eq_nil_iff.mpr hnone, List.nil_append, List.filterMap_map]
  refine (List.filterMap_congr fun e he => ?_).trans (congrFun List.filterMap_eq_map _)
  rw [Function.comp_apply, (h.gate he).fanIns?]
  rfl

/-- **A loaded network is written as the file** from which it was loaded. -/
theorem listing : n.listing = d := by
  have hgates := h.listedGates hd hpairwise
  have hacyclic := h.acyclic hd
  have hinputs : n.inputs.size = d.inputs.length := by
    rw [← Array.length_toList, h.inputs]
  have hcount : n.liveGates = d.definitions.length := by
    rw [← length_listedGates h.wellFormed hacyclic, hgates, List.length_map]
  have houtputs : n.outputs.toList.map (fun s => (s.renumber n.place).code) = d.outputs := by
    rw [h.outputs, List.map_map]
    refine (List.map_congr_left fun l hl => ?_).trans (List.map_id _)
    have hle := hd.outputs l hl
    have hmax := hd.maxVar_eq
    exact h.code_ofLiteral_renumber hd hpairwise (by rw [h.size]; omega)
  have hdefinitions : n.listedGates.map n.gateDefinition = d.definitions := by
    rw [hgates, List.map_map]
    refine (List.map_congr_left fun e he => ?_).trans (List.map_id _)
    obtain ⟨-, hlt, hvar⟩ := hd.operands e he
    have hsize : e.var < n.size := (h.gate he).lt_size
    have hlhs := h.code_ofLiteral_renumber hd hpairwise (show e.rhs₁ / 2 < n.size by omega)
    have hrhs := h.code_ofLiteral_renumber hd hpairwise (show e.rhs₀ / 2 < n.size by omega)
    rw [Function.comp_apply, gateDefinition, h.place_eq hd hpairwise hsize, Definition.key]
    simp only [hlhs, hrhs]
    rw [max_eq_right (by omega), min_eq_left (by omega)]
    rfl
  rw [Network.listing, hinputs, hcount, houtputs, hdefinitions, ← hd.inputs_eq,
    ← hd.maxVar_eq]

end Aiger.Document.Describes

/-! ### The round trip -/

/-- **The network of a file** is the one that was written, by the places of its nodes. -/
theorem Aiger.Document.Describes.isomorphicBy (h : n.listing.Describes m) (hn : n.WellFormed)
    (hacyclic : n.Acyclic) (hregular : n.Regular) : n.IsomorphicBy m n.place := by
  have hinputs := hregular.inputs
  have hdense := listing_dense hn hacyclic hinputs hregular.fanout_le
  have hsize : m.size = 1 + n.inputs.size + n.liveGates := by
    rw [h.size]
    simp only [Network.listing, List.length_range', List.length_map,
      length_listedGates hn hacyclic]
  constructor
  case bijOn =>
    refine ⟨fun v hv => ?_, fun u hu v _ heq => place_injOn hn hacyclic hu heq, fun w hw => ?_⟩
    · change n.place v < m.size
      rw [hsize]
      exact place_lt hn hacyclic hinputs hv
    · have hlt : w < n.topology.order.toList.length := by
        rw [length_topology hn hacyclic hinputs, ← hsize]
        exact hw
      exact ⟨_, (mem_topology hn hacyclic).mp (List.getElem_mem hlt),
        n.topology_spec.1.nodup.idxOf_getElem w hlt⟩
  case zero => exact place_zero hn hinputs
  case inputs => exact h.inputs.trans (map_place_inputs hn hacyclic hinputs).symm
  case isLiveGate_iff =>
    intro v hv
    have hlt := place_lt hn hacyclic hinputs hv
    have hlength : n.listing.inputs.length = n.inputs.size := List.length_range'
    rw [h.isLiveGate_iff hdense, isLiveGate_iff_place hn hacyclic hinputs hv, hlength]
    omega
  case gate =>
    intro g a b hg
    have hgate := h.gate ((mem_listing hn hacyclic).mpr ⟨g, a, b, hg, rfl⟩)
    rw [Definition.key, gateDefinition] at hgate
    simp only at hgate
    rcases le_total (a.renumber n.place).code (b.renumber n.place).code with hle | hle
    · rw [min_eq_left hle, max_eq_right hle, Signal.ofLiteral_code, Signal.ofLiteral_code] at hgate
      exact .inl hgate
    · rw [min_eq_right hle, max_eq_left hle, Signal.ofLiteral_code, Signal.ofLiteral_code] at hgate
      exact .inr hgate
  case outputs =>
    rw [h.outputs, Network.listing, List.map_map]
    exact List.map_congr_left fun s _ => Signal.ofLiteral_code _

/-- **What is written and read back**: the listing of a network that is small enough. -/
lemma Network.listing_roundtrip (hn : n.WellFormed) (hacyclic : n.Acyclic)
    (hregular : n.Regular) (hnodes : n.inputs.size + n.liveGates ≤ 2 ^ 31 - 1)
    (houtputs : n.outputs.size ≤ 2 ^ 32 - 1) :
    n.aiger = .ok n.listing.text ∧ ∃ m, Aiger.load n.listing.text = .ok m ∧
      n.IsomorphicBy m n.place ∧ m.aiger = .ok n.listing.text := by
  have hinputs := hregular.inputs
  have hdense := listing_dense hn hacyclic hinputs hregular.fanout_le
  have hpairwise := listing_pairwise hn hacyclic hinputs
  have hlegible : n.listing.Legible := by
    refine hdense.legible ?_ ?_
    · change 2 * (n.inputs.size + n.liveGates) + 1 ≤ 0xFFFFFFFF
      omega
    · change (n.outputs.toList.map _).length ≤ 0xFFFFFFFF
      rw [List.length_map, Array.length_toList]
      omega
  obtain ⟨m, hload, hm⟩ := hdense.toNetwork
  have hwritten : n.aiger = .ok n.listing.text := by
    rw [Network.aiger, document_eq_ok hn hacyclic hinputs]
    rfl
  have hrewritten : m.aiger = .ok n.listing.text := by
    rw [Network.aiger, document_eq_ok hm.wellFormed (hm.acyclic hdense)
      (hm.inputs_pairwise hdense), hm.listing hdense hpairwise]
    rfl
  refine ⟨hwritten, m, ?_, hm.isomorphicBy hn hacyclic hregular, hrewritten⟩
  rw [Aiger.load, loadWithLog, Document.parse_text hlegible, except_ok_bind, hload]
  rfl

/-- **The round trip.**  A well-formed acyclic network that is small enough for a file is
written; its file is loaded, as the network that it was, with nothing folded and nothing merged;
and what was loaded is written as the same text again.  That the network is regular is part of
its history (`history_regular`). -/
theorem aiger_roundtrip (hn : n.WellFormed) (hacyclic : n.Acyclic) (hregular : n.Regular)
    (hnodes : n.inputs.size + n.liveGates ≤ 2 ^ 31 - 1) (houtputs : n.outputs.size ≤ 2 ^ 32 - 1) :
    ∃ text m, n.aiger = .ok text ∧ Aiger.load text = .ok m ∧ (∃ f, n.IsomorphicBy m f) ∧
      m.aiger = .ok text := by
  obtain ⟨hwritten, m, hload, hm, hrewritten⟩ :=
    listing_roundtrip hn hacyclic hregular hnodes houtputs
  exact ⟨_, m, hwritten, hload, ⟨_, hm⟩, hrewritten⟩

/-- **The round trip of a network with a history**, which need only be acyclic and small enough:
the other conditions are a part of its history. -/
theorem history_roundtrip {steps : List Transition} (h : History .empty steps n)
    (hacyclic : n.Acyclic) (hnodes : n.inputs.size + n.liveGates ≤ 2 ^ 31 - 1)
    (houtputs : n.outputs.size ≤ 2 ^ 32 - 1) :
    ∃ m, n.aiger = .ok n.listing.text ∧ Aiger.load n.listing.text = .ok m ∧
      n.IsomorphicBy m n.place ∧ m.aiger = .ok n.listing.text := by
  obtain ⟨hn, hregular⟩ := history_regular h
  obtain ⟨hwritten, m, hm⟩ := listing_roundtrip hn hacyclic hregular hnodes houtputs
  exact ⟨m, hwritten, hm⟩

/-- A network with gates 4 to 7, the last of which is not used. -/
def assembled : Network := Network.empty.assemble [.input, .input, .input, .gate 2 4, .gate 8 6,
  .gate 2 7, .gate 2 5, .output 10, .output 11]

/-- The same network with gate 6 in the place of gate 4, below gate 5. -/
def rewired : Network :=
  match Edit.substitute 4 (.ofNode 6) assembled with
  | .ok _ n => n
  | .error _ _ => .empty

/-- A network with a dead node, a gate that is not used, and a fan-in above its gate. -/
theorem aiger_roundtrip_of_rewired :
    (rewired.isDead 4 = true ∧ rewired.fanout 7 = 0 ∧ rewired.reads 5 6 = true) ∧
      (rewired.WellFormed ∧ rewired.Acyclic ∧ rewired.Regular) ∧
        (rewired.inputs.size + rewired.liveGates ≤ 2 ^ 31 - 1 ∧
          rewired.outputs.size ≤ 2 ^ 32 - 1) ∧
          ∃ text m, rewired.aiger = .ok text ∧ Aiger.load text = .ok m ∧
            (∃ f, rewired.IsomorphicBy m f) ∧ m.aiger = .ok text := by
  obtain ⟨steps, hsteps⟩ : ∃ steps, History .empty steps assembled :=
    exists_history_assemble wellFormed_empty.1 _
  obtain ⟨hn, hregular⟩ : rewired.WellFormed ∧ rewired.Regular := by
    obtain ⟨hn, hregular⟩ := history_regular hsteps
    rw [rewired]
    split
    · next hrun =>
        exact ⟨(substitute_wellFormed hn hrun).1,
          Edit.steady_staysRegular.substitute _ _ _ _ _ hrun hregular⟩
    · exact ⟨wellFormed_empty.1, regular_empty⟩
  have hacyclic : rewired.Acyclic := (checkAcyclic_iff hn.fanIns_live).mp
    (show rewired.checkAcyclic "" = .ok () by decide +kernel)
  have hbounds : rewired.inputs.size + rewired.liveGates ≤ 2 ^ 31 - 1 ∧
      rewired.outputs.size ≤ 2 ^ 32 - 1 := by decide +kernel
  exact ⟨by decide +kernel, ⟨hn, hacyclic, hregular⟩, hbounds,
    aiger_roundtrip hn hacyclic hregular hbounds.1 hbounds.2⟩

end AndInverter
