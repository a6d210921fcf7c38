import ScriptMachine.Proofs.Heap.Prototypes
import ScriptMachine.Proofs.Safety.Property
import ScriptMachine.Proofs.Tandem.Run

/-! # Reads of two runs

Each link of a chain leads to older pairs (`Heap.Twins.link`), so that chains of twin heaps end. The
lineages of values that match are lists of pairs (`Heap.Twins.lineage`). A lookup therefore ends in
twin heaps, and finds values that match (`Heap.Twins.lookupProperty?`), although walks take as much fuel
as the heap has slots and the two heaps may have different numbers of them. -/

namespace ScriptMachine

namespace Heap

variable {ρ older : Pairing} {h h' : Heap} {a b : Handle} {c c' : Cell} {v w : Value} {name : Atom}

/-! ### Chains -/

/-- The fuel is enough for a chain among these handles. -/
def Enough (h : Heap) (ids : List Handle) (fuel : Nat) : Prop := ids.countP h.isLive ≤ fuel

theorem Registered.enough {ids : List Handle} (hr : h.Registered ids) {fuel : Nat}
    (hf : h.slots.size ≤ fuel) : h.Enough ids fuel := by
  unfold Enough
  rw [List.countP_eq_length_filter]
  refine Nat.le_trans (length_le_size (hr.nodup.filter _) fun id hid => ?_) hf
  exact (List.mem_filter.mp hid).2

/-- A link of the chain uses up some fuel. -/
theorem Enough.step {newer rest : List Handle} {fuel : Nat} (hn : h.Enough (newer ++ a :: rest) fuel)
    (ha : h.isLive a = true) : ∃ n, fuel = n + 1 ∧ h.Enough rest n := by
  unfold Enough at *
  rw [List.countP_append, List.countP_cons, if_pos ha] at hn
  exact ⟨fuel - 1, by omega, by omega⟩

namespace Twins

/-- **A link of a chain** leads to older pairs, and there is fuel left for them. -/
theorem link (ht : Twins ρ h h') (hs : older <:+ ρ) (hp : older.Pairs a b) (hc : h.cell? a = some c)
    (hc' : h'.cell? b = some c') : ∃ rest : Pairing, rest <:+ ρ ∧ rest.length < older.length ∧
      c.Twins ρ rest h.shapes h'.shapes c' ∧
      (∀ {fuel}, h.Enough (older.map Prod.fst) fuel →
        ∃ n, fuel = n + 1 ∧ h.Enough (rest.map Prod.fst) n) ∧
      ∀ {fuel}, h'.Enough (older.map Prod.snd) fuel →
        ∃ n, fuel = n + 1 ∧ h'.Enough (rest.map Prod.snd) n := by
  obtain ⟨newest, rfl⟩ := hs
  obtain ⟨newer, rest, rfl⟩ := List.append_of_mem hp
  refine ⟨rest, ⟨newest ++ newer ++ [(a, b)], by simp⟩, by simp; omega,
    ht.cells (List.append_assoc newest newer ((a, b) :: rest)).symm hc hc', fun hn => ?_, fun hn => ?_⟩
  · rw [List.map_append, List.map_cons] at hn
    exact hn.step (isLive_of_cell? hc)
  · rw [List.map_append, List.map_cons] at hn
    exact hn.step (isLive_of_cell? hc')

theorem enough (ht : Twins ρ h h') {fuel fuel' : Nat} (hf : h.slots.size ≤ fuel)
    (hf' : h'.slots.size ≤ fuel') :
    h.Enough (ρ.map Prod.fst) fuel ∧ h'.Enough (ρ.map Prod.snd) fuel' :=
  ⟨ht.registered.enough hf, ht.registered'.enough hf'⟩

/-- The prototypes of twin cells. -/
theorem prototype (hcl : h.Closed) (hcl' : h'.Closed) (hcell : c.Twins ρ older h.shapes h'.shapes c')
    (hc : h.cell? a = some c) (hc' : h'.cell? b = some c') :
    Both older h h' (h.shapes.get c.shape).prototype (h'.shapes.get c'.shape).prototype :=
  ⟨hcell.prototype, hcl.prototype a c hc, hcl'.prototype b c' hc'⟩

/-- What a cell holds, at the same place in both. -/
theorem held (hcl : h.Closed) (hcl' : h'.Closed) (hc : h.cell? a = some c) (hc' : h'.cell? b = some c')
    (hv : c.Holds v ∨ v.cell? = none) (hw : c'.Holds w ∨ w.cell? = none) (hs : ρ.Matches v w) :
    Both ρ h h' v w := by
  have live {h : Heap} (hcl : h.Closed) {a : Handle} {c : Cell} {v : Value} (hc : h.cell? a = some c)
      (hv : c.Holds v ∨ v.cell? = none) : v.Live h := by
    rcases hv with hv | hv
    · exact hcl.held a c v hc hv
    · intro id hid
      rw [hv] at hid
      cases hid
  exact ⟨hs, live hcl hc hv, live hcl' hc' hw⟩

theorem holds_slot (c : Cell) (offset : Nat) : c.Holds (c.slot offset) ∨ (c.slot offset).cell? = none := by
  unfold Cell.slot Cell.Holds
  rw [Array.getD_eq_getD_getElem?]
  cases hs : c.slots[offset]? with
  | none => exact .inr (by simp)
  | some v => exact .inl (.inl (Array.mem_of_getElem? hs))

theorem holds_synthesized {h : Heap} (hv : h.synthesized? c name = some v) :
    c.Holds v ∨ v.cell? = none := by
  unfold Heap.synthesized? at hv
  unfold Cell.Holds
  split at hv
  case h_1 elements hp =>
    split at hv
    · split at hv
      case h_1 value hitem =>
        split at hv
        · cases hv
        · obtain rfl := Option.some.inj hv
          have hmem := Array.mem_of_getElem? hitem
          exact .inl (.inr (by simp [hp, Payload.references, hmem]))
      case h_2 => cases hv
    · split at hv
      · rw [← Option.some.inj hv]
        exact .inr (Value.cell?_number _)
      · cases hv
  case h_2 =>
    split at hv
    · rw [← Option.some.inj hv]
      exact .inr (Value.cell?_number _)
    · cases hv
  case h_3 => cases hv

/-- What a cell has itself. -/
theorem found_synthesized (ht : Twins ρ h h') (hcl : h.Closed) (hcl' : h'.Closed)
    (hcell : c.Twins ρ older h.shapes h'.shapes c') (hc : h.cell? a = some c)
    (hc' : h'.cell? b = some c') (name : Atom) :
    Option.Rel (Both ρ h h') (h.synthesized? c name) (h'.synthesized? c' name) := by
  rcases Option.rel_iff.mp (ht.synthesized? hcell name) with ⟨hx, hy⟩ | ⟨x, y, hx, hy, hs⟩
  · rw [hx, hy]
    exact .none
  · rw [hx, hy]
    exact .some (held hcl hcl' hc hc' (holds_synthesized hx) (holds_synthesized hy) hs)

/-- What a cell has itself, or what its shape lists. -/
theorem found_here (ht : Twins ρ h h') (hcl : h.Closed) (hcl' : h'.Closed) (hp : ρ.Pairs a b)
    (hc : h.cell? a = some c) (hc' : h'.cell? b = some c') (name : Atom) :
    Option.Rel (Both ρ h h') (h.here? c name) (h'.here? c' name) := by
  obtain ⟨rest, -, -, hcell, -⟩ := ht.link (List.suffix_refl ρ) hp hc hc'
  unfold Heap.here?
  rcases Option.rel_iff.mp (ht.found_synthesized hcl hcl' hcell hc hc' name) with
    ⟨hx, hy⟩ | ⟨x, y, hx, hy, hxy⟩
  · rw [hx, hy, hcell.lookup?]
    cases h.shapes.lookup? c.shape name with
    | none => exact .none
    | some p => exact .some (held hcl hcl' hc hc' (holds_slot c _) (holds_slot c' _) (hcell.slot p.offset))
  · rw [hx, hy]
    exact .some hxy

/-! ### Lineages -/

/-- A pair of live cells. -/
def Coupled (ρ : Pairing) (h h' : Heap) (a b : Handle) : Prop :=
  ρ.Pairs a b ∧ h.isLive a = true ∧ h'.isLive b = true

/-- **The lineages of values that match** are lists of pairs. -/
theorem lineage (ht : Twins ρ h h') (hcl : h.Closed) (hcl' : h'.Closed) {older : Pairing}
    (hs : older <:+ ρ) {v w : Value} (hb : Both older h h' v w) : ∃ ids ids', h.Lineage ids v ∧
      h'.Lineage ids' w ∧ List.Forall₂ (Coupled ρ h h') ids ids' := by
  cases hv : v.cell? with
  | none =>
    obtain rfl : w = v := hb.same.eq_of_left hv
    exact ⟨[], [], hv, hv, .nil⟩
  | some a =>
    obtain ⟨b, c, c', rfl, rfl, hp, hc, hc'⟩ := hb.cell hv
    obtain ⟨rest, hs', hlt, hcell, -⟩ := ht.link hs hp hc hc'
    obtain ⟨ids, ids', hl, hl', hall⟩ := ht.lineage hcl hcl' hs' (prototype hcl hcl' hcell hc hc')
    refine ⟨a :: ids, b :: ids', ⟨Value.cell?_cell a, ?_⟩, ⟨Value.cell?_cell b, ?_⟩,
      .cons ⟨hp.mono hs.subset, isLive_of_cell? hc, isLive_of_cell? hc'⟩ hall⟩
    · rwa [prototypeOf_of_cell hc]
    · rwa [prototypeOf_of_cell hc']
termination_by older.length

/-- They are no longer than the heaps have slots. -/
theorem length_lineage {ids ids' : List Handle} (hall : List.Forall₂ (Coupled ρ h h') ids ids')
    {v w : Value} (hl : h.Lineage ids v) (hl' : h'.Lineage ids' w) :
    ids.length ≤ h.slots.size ∧ ids'.length ≤ h'.slots.size := by
  refine ⟨length_le_size hl.nodup fun a ha => ?_, length_le_size hl'.nodup fun b hb => ?_⟩
  · obtain ⟨i, hi, rfl⟩ := List.getElem_of_mem ha
    exact (hall.get hi (hall.length_eq ▸ hi)).2.1
  · obtain ⟨i, hi, rfl⟩ := List.getElem_of_mem hb
    exact (hall.get (hall.length_eq ▸ hi) hi).2.2

/-! ### Lookups -/

/-- **What two lookups found**: values that match, or nothing in either. -/
structure Found (ρ : Pairing) (h h' : Heap) (l l' : PropertyLookup) : Prop where
  value : Both ρ h h' l.value l'.value
  missing : l = .missing ↔ l' = .missing

theorem found_of_rel {l l' : PropertyLookup} (hr : Option.Rel (Both ρ h h') l.found? l'.found?) :
    Found ρ h h' l l' := by
  have hmissing (l : PropertyLookup) : l = .missing ↔ l.found? = none := by
    cases l <;> simp [PropertyLookup.found?]
  rcases Option.rel_iff.mp hr with ⟨hx, hy⟩ | ⟨x, y, hx, hy, hxy⟩
  · refine ⟨?_, by rw [hmissing, hmissing, hx, hy]⟩
    rw [l.value_eq, l'.value_eq, hx, hy]
    exact .word (by simp)
  · refine ⟨?_, by simp [hmissing, hx, hy]⟩
    rw [l.value_eq, l'.value_eq, hx, hy]
    exact hxy

/-- **A lookup** ends in twin heaps, and finds the same. -/
theorem lookupProperty? (ht : Twins ρ h h') (hcl : h.Closed) (hcl' : h'.Closed) (hp : ρ.Pairs a b)
    (hc : h.cell? a = some c) (hc' : h'.cell? b = some c') (name : Atom) :
    ∃ l l', h.lookupProperty? a name = some l ∧ h'.lookupProperty? b name = some l' ∧ Found ρ h h' l l' := by
  have hb : Both ρ h h' (.cell a) (.cell b) :=
    ⟨.cell hp, live_cell.mpr (isLive_of_cell? hc), live_cell.mpr (isLive_of_cell? hc')⟩
  obtain ⟨ids, ids', hl, hl', hall⟩ := ht.lineage hcl hcl' (List.suffix_refl ρ) hb
  obtain ⟨l, hlookup, hfound⟩ := Option.map_eq_some_iff.mp (lookupProperty?_eq_some.mpr (hl.ends name))
  obtain ⟨l', hlookup', hfound'⟩ := Option.map_eq_some_iff.mp (lookupProperty?_eq_some.mpr (hl'.ends name))
  refine ⟨l, l', hlookup, hlookup', found_of_rel ?_⟩
  rw [hfound, hfound']
  clear hl hl' hfound hfound'
  induction hall with
  | nil => exact .none
  | @cons x y _ _ hcoupled _ ih =>
    obtain ⟨hp, hlive, hlive'⟩ := hcoupled
    obtain ⟨d, hd⟩ := isLive_iff.mp hlive
    obtain ⟨d', hd'⟩ := isLive_iff.mp hlive'
    simp only [List.findSome?_cons, hd, hd', Option.bind_some]
    rcases Option.rel_iff.mp (ht.found_here hcl hcl' hp hd hd' name) with ⟨hx, hy⟩ | ⟨x, y, hx, hy, hxy⟩
    · rw [hx, hy]
      exact ih
    · rw [hx, hy]
      exact .some hxy

theorem getProperty? (ht : Twins ρ h h') (hcl : h.Closed) (hcl' : h'.Closed) (hp : ρ.Pairs a b)
    (hc : h.cell? a = some c) (hc' : h'.cell? b = some c') (name : Atom) :
    ∃ v w, h.getProperty? a name = some v ∧ h'.getProperty? b name = some w ∧ Both ρ h h' v w := by
  obtain ⟨l, l', hl, hl', hfound⟩ := ht.lookupProperty? hcl hcl' hp hc hc' name
  exact ⟨l.value, l'.value, by rw [Heap.getProperty?, hl]; rfl, by rw [Heap.getProperty?, hl']; rfl,
    hfound.value⟩

theorem hasProperty? (ht : Twins ρ h h') (hcl : h.Closed) (hcl' : h'.Closed) (hp : ρ.Pairs a b)
    (hc : h.cell? a = some c) (hc' : h'.cell? b = some c') (name : Atom) :
    ∃ found, h.hasProperty? a name = some found ∧ h'.hasProperty? b name = some found := by
  obtain ⟨l, l', hl, hl', -, hm⟩ := ht.lookupProperty? hcl hcl' hp hc hc' name
  refine ⟨l.isFound, by rw [Heap.hasProperty?, hl]; rfl, ?_⟩
  rw [Heap.hasProperty?, hl', Option.map_some]
  cases l <;> cases l' <;> simp_all [PropertyLookup.isFound]

/-! ### Prototypes -/

/-- **Whether a cell inherits from another one.** -/
theorem inherits (ht : Twins ρ h h') (hcl : h.Closed) (hcl' : h'.Closed) {a b x y : Handle}
    {c c' : Cell} (hp : ρ.Pairs a b) (hq : ρ.Pairs x y) (hc : h.cell? x = some c)
    (hc' : h'.cell? y = some c') : ∃ found,
      h.chainMeets? a h.chainFuel (h.prototypeOf x) = some found ∧
      h'.chainMeets? b h'.chainFuel (h'.prototypeOf y) = some found := by
  obtain ⟨rest, hs, -, hcell, -⟩ := ht.link (List.suffix_refl ρ) hq hc hc'
  obtain ⟨ids, ids', hl, hl', hall⟩ := ht.lineage hcl hcl' hs (prototype hcl hcl' hcell hc hc')
  rw [prototypeOf_of_cell hc, prototypeOf_of_cell hc']
  obtain ⟨hlength, hlength'⟩ := length_lineage hall hl hl'
  refine ⟨_, hl.meets (Nat.le_succ_of_le hlength), (hl'.meets (Nat.le_succ_of_le hlength')).trans ?_⟩
  have hmem : b ∈ ids' ↔ a ∈ ids := by
    clear hl hl' hlength hlength'
    induction hall with
    | nil => simp
    | cons hcoupled _ ih => rw [List.mem_cons, List.mem_cons, ih, eq_comm, ← ht.pair_iff hcoupled.1 hp, eq_comm]
  simp only [hmem]

end Twins

end Heap

end ScriptMachine
