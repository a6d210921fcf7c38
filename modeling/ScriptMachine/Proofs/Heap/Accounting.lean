import ScriptMachine.Proofs.Heap.Marking
import ScriptMachine.Proofs.Shape.Sweeping

/-! # Accounting

A heap keeps the number of its cells and the bytes charged for them. `Heap.Accounted` says that both
are what counting the slots gives, and that every cell is charged its footprint. All changes of a
heap are made of the steps of `Heap.Built`: a cell is allocated, changed, or counted again after it
was changed, a collection runs, or something is changed that is not a slot. So
`Built.accounted` holds of every heap a program can have. -/

namespace ScriptMachine

/-! ## Sweeping

A sweep goes over the slots one by one. What it leaves in a slot depends on that slot only
(`Slot.swept`), so `sweep_slots` gives the slots of the swept heap at once, and the numbers it
reports are sums over the slots it frees. -/

/-! ### Slots -/

/-- The slot holds a cell that was not reached. -/
def Slot.dead (slot : Slot) : Prop := slot.cell.isSome ∧ slot.color = .white

instance (slot : Slot) : Decidable slot.dead := inferInstanceAs (Decidable (_ ∧ _))

/-- What a sweep leaves in a slot. -/
def Slot.swept (slot : Slot) : Slot :=
  if slot.dead then slot.freed
  else if slot.cell.isSome then { slot with color := .white }
  else slot

namespace Heap

variable {h : Heap}

/-- The sweep of the first slots of a heap. -/
def sweepTo (h : Heap) (k : Nat) : Sweep := (List.range k).foldl sweepSlot { heap := h }

theorem sweepTo_succ (h : Heap) (k : Nat) : h.sweepTo (k + 1) = sweepSlot (h.sweepTo k) k := by
  simp [sweepTo, List.range_succ]

theorem sweepTo_eq_foldl (h : Heap) :
    (List.range h.slots.size).foldl sweepSlot { heap := h } = h.sweepTo h.slots.size := rfl

section Step

variable {s : Sweep} {k : Nat} {slot : Slot} {c : Cell}

theorem sweepSlot_empty (hs : s.heap.slots[k]? = some slot) (hc : slot.cell = none) :
    sweepSlot s k = s := by
  simp [sweepSlot, hs, hc]

theorem sweepSlot_marked (hs : s.heap.slots[k]? = some slot) (hc : slot.cell = some c)
    (hk : slot.color ≠ .white) :
    sweepSlot s k = { s with
      heap := { s.heap with slots := s.heap.slots.modify k ({ · with color := .white }) }
      inUse := c.shape :: s.inUse } := by
  simp [sweepSlot, hs, hc, hk]

theorem sweepSlot_dead (hs : s.heap.slots[k]? = some slot) (hd : slot.dead) :
    sweepSlot s k = { s with
      heap := { s.heap with
        slots := s.heap.slots.modify k Slot.freed
        freeList := if slot.generation < 0xFFFF then s.heap.freeList.push k.toUInt32
          else s.heap.freeList }
      freedCells := s.freedCells + 1
      freedBytes := s.freedBytes + slot.bytes } := by
  obtain ⟨c, hc⟩ := Option.isSome_iff_exists.mp hd.1
  simp [sweepSlot, hs, hc, hd.2]

end Step

/-- What the sweep of the first `k` slots has done. -/
structure Swept (h : Heap) (k : Nat) (s : Sweep) : Prop where
  /-- Only slots and the free list change. -/
  frame : s.heap = { h with slots := s.heap.slots, freeList := s.heap.freeList }
  /-- The first slots are swept. -/
  slots : ∀ i, s.heap.slots[i]? = if i < k then h.slots[i]?.map Slot.swept else h.slots[i]?
  /-- The cells freed are counted. -/
  freedCells : s.freedCells = ((h.slots.toList.take k).map fun slot =>
    if slot.dead then 1 else 0).sum
  /-- And their bytes. -/
  freedBytes : s.freedBytes = ((h.slots.toList.take k).map fun slot =>
    if slot.dead then slot.bytes else 0).sum
  /-- The shapes of the survivors are noted. -/
  inUse : ∀ id, id ∈ s.inUse ↔ ∃ i < k, ∃ slot c, h.slots[i]? = some slot ∧ slot.cell = some c ∧
    slot.color ≠ .white ∧ c.shape = id

theorem sum_take_succ {f : Slot → Nat} {slots : Array Slot} {k : Nat} {slot : Slot}
    (hs : slots[k]? = some slot) :
    ((slots.toList.take (k + 1)).map f).sum = ((slots.toList.take k).map f).sum + f slot := by
  rw [List.take_add_one, Array.getElem?_toList, hs]
  simp

theorem swept_sweepTo (h : Heap) {k : Nat} (hk : k ≤ h.slots.size) : Swept h k (h.sweepTo k) := by
  induction k with
  | zero => exact ⟨rfl, by simp [sweepTo], rfl, rfl, by simp [sweepTo]⟩
  | succ k ih =>
    have ih := ih (by omega)
    obtain ⟨slot, hs⟩ : ∃ slot, h.slots[k]? = some slot := ⟨_, Array.getElem?_eq_getElem hk⟩
    have hs' : (h.sweepTo k).heap.slots[k]? = some slot := by rw [ih.slots, if_neg (by omega), hs]
    -- the slots after step `k` if that step leaves `slot'` at `k`
    have step (slots' : Array Slot) (hne : ∀ i ≠ k, slots'[i]? = (h.sweepTo k).heap.slots[i]?)
        (heq : slots'[k]? = some slot.swept) (i : Nat) :
        slots'[i]? = if i < k + 1 then h.slots[i]?.map Slot.swept else h.slots[i]? := by
      by_cases hi : i = k
      · subst hi
        simp [heq, hs]
      · rw [hne i hi, ih.slots]
        have : i < k ↔ i < k + 1 := by omega
        simp only [this]
    have inUse_succ (P : ShapeId → Prop) (hP : ∀ id, P id ↔ ∃ c, slot.cell = some c ∧
        slot.color ≠ .white ∧ c.shape = id) (id : ShapeId) :
        (P id ∨ id ∈ (h.sweepTo k).inUse) ↔ ∃ i < k + 1, ∃ slot c, h.slots[i]? = some slot ∧
          slot.cell = some c ∧ slot.color ≠ .white ∧ c.shape = id := by
      rw [ih.inUse, hP]
      constructor
      · rintro (⟨c, hc⟩ | ⟨i, hi, hrest⟩)
        · exact ⟨k, by omega, slot, c, hs, hc⟩
        · exact ⟨i, by omega, hrest⟩
      · rintro ⟨i, hi, slot', c, hs'', hrest⟩
        by_cases hik : i = k
        · rw [hik, hs, Option.some.injEq] at hs''
          subst hs''
          exact .inl ⟨c, hrest⟩
        · exact .inr ⟨i, by omega, slot', c, hs'', hrest⟩
    rw [sweepTo_succ]
    cases hc : slot.cell with
    | none =>
      rw [sweepSlot_empty hs' hc]
      have hdead : ¬slot.dead := by simp [Slot.dead, hc]
      refine ⟨ih.frame, step _ (fun _ _ => rfl) ?_, ?_, ?_, ?_⟩
      · rw [hs', Slot.swept, if_neg hdead, if_neg (by simp [hc])]
      · rw [sum_take_succ hs, if_neg hdead, ih.freedCells]
        rfl
      · rw [sum_take_succ hs, if_neg hdead, ih.freedBytes]
        rfl
      · intro id
        rw [← inUse_succ (fun _ => False) (by simp [hc])]
        simp
    | some c =>
      by_cases hw : slot.color = .white
      · have hdead : slot.dead := by simp [Slot.dead, hc, hw]
        rw [sweepSlot_dead hs' hdead]
        refine ⟨?_, step _ ?_ ?_, ?_, ?_, ?_⟩
        · rw [ih.frame]
        · intro i hi
          simp [Array.getElem?_modify, Ne.symm hi]
        · simp [Array.getElem?_modify, hs', Slot.swept, hdead]
        · rw [sum_take_succ hs, if_pos hdead, ih.freedCells]
        · rw [sum_take_succ hs, if_pos hdead, ih.freedBytes]
        · intro id
          rw [← inUse_succ (fun _ => False) (by simp [hw])]
          simp
      · have hdead : ¬slot.dead := by simp [Slot.dead, hw]
        rw [sweepSlot_marked hs' hc hw]
        refine ⟨?_, step _ ?_ ?_, ?_, ?_, ?_⟩
        · rw [ih.frame]
        · intro i hi
          simp [Array.getElem?_modify, Ne.symm hi]
        · simp [Array.getElem?_modify, hs', Slot.swept, hdead, hc]
        · rw [sum_take_succ hs, if_neg hdead, ih.freedCells]
          rfl
        · rw [sum_take_succ hs, if_neg hdead, ih.freedBytes]
          rfl
        · intro id
          rw [← inUse_succ (fun id => id = c.shape) (by simp [hc, hw, eq_comm]), List.mem_cons]

theorem swept_sweep (h : Heap) : Swept h h.slots.size (h.sweepTo h.slots.size) :=
  swept_sweepTo h le_rfl

/-- **The slots of the swept heap.** -/
theorem sweep_slots (h : Heap) : h.sweep.2.slots = h.slots.map Slot.swept := by
  apply Array.ext_getElem?
  intro i
  have := (swept_sweep h).slots i
  rw [Array.getElem?_map]
  refine Eq.trans (this : h.sweep.2.slots[i]? = _) ?_
  split
  case isTrue => rfl
  case isFalse hi => rw [Array.getElem?_eq_none (by omega)]; rfl

theorem sweep_freedCells (h : Heap) :
    h.sweep.1.freedCells = slotSum (fun slot => if slot.dead then 1 else 0) h.slots := by
  have := (swept_sweep h).freedCells
  rwa [← Array.length_toList, List.take_length] at this

theorem sweep_freedBytes (h : Heap) :
    h.sweep.1.freedBytes = slotSum (fun slot => if slot.dead then slot.bytes else 0) h.slots := by
  have := (swept_sweep h).freedBytes
  rwa [← Array.length_toList, List.take_length] at this

/-- Nothing changes but slots, the free list, the shapes and the counts. -/
theorem sweep_frame (h : Heap) :
    h.sweep.2 = { h with
      slots := h.sweep.2.slots
      freeList := h.sweep.2.freeList
      shapes := h.sweep.2.shapes
      liveCells := h.liveCells - h.sweep.1.freedCells
      liveBytes := h.liveBytes - h.sweep.1.freedBytes } := by
  have := (swept_sweep h).frame
  simp only [sweep, sweepTo_eq_foldl]
  rw [this]

end Heap

/-! ## Cells and bytes -/

/-- The bytes a slot has to be charged. -/
def Slot.footprint (slot : Slot) : Nat :=
  match slot.cell with
  | some c => c.footprint
  | none => 0

namespace Heap

/-- The number of slots that hold a cell. -/
def cellCount (h : Heap) : Nat := slotSum (fun slot => if slot.cell.isSome then 1 else 0) h.slots

/-- The footprints of all cells together. -/
def footprints (h : Heap) : Nat := slotSum Slot.footprint h.slots

/-- **The counts of a heap are true**: of its cells, of the bytes of each and of all bytes. -/
structure Accounted (h : Heap) : Prop where
  /-- The number of cells. -/
  cells : h.liveCells = h.cellCount
  /-- The bytes of all cells. -/
  bytes : h.liveBytes = slotSum Slot.bytes h.slots
  /-- The bytes of each cell. -/
  charged : ∀ slot ∈ h.slots, slot.bytes = slot.footprint

/-- The free list holds empty slots, each once, and all slots have a handle. -/
structure FreeListed (h : Heap) : Prop where
  /-- Listed slots are empty. -/
  empty : ∀ i ∈ h.freeList, ∃ slot, h.slots[i.toNat]? = some slot ∧ slot.cell = none
  /-- They are listed once. -/
  nodup : h.freeList.toList.Nodup
  /-- The index of a slot fits a handle. -/
  size : h.slots.size ≤ 2 ^ 32

variable {h h' : Heap} {id : Handle} {c : Cell}

theorem Accounted.liveBytes_eq (ha : h.Accounted) : h.liveBytes = h.footprints := by
  rw [ha.bytes, footprints, slotSum_congr ha.charged]

theorem Accounted.congr (ha : h.Accounted) (hs : h'.slots = h.slots)
    (hb : h'.liveBytes = h.liveBytes) (hc : h'.liveCells = h.liveCells) : h'.Accounted where
  cells := by rw [hc, ha.cells, cellCount, cellCount, hs]
  bytes := by rw [hb, ha.bytes, hs]
  charged := by rw [hs]; exact ha.charged

theorem FreeListed.congr (hf : h.FreeListed) (hs : h'.slots = h.slots)
    (hl : h'.freeList = h.freeList) : h'.FreeListed where
  empty := by rw [hs, hl]; exact hf.empty
  nodup := by rw [hl]; exact hf.nodup
  size := by rw [hs]; exact hf.size

/-! ### Changing a cell -/

theorem modifyCell_of_none (f : Cell → Cell) (hc : h.cell? id = none) : h.modifyCell id f = h := by
  have hsame : h.slots.modify id.index.toNat (fun slot =>
      if slot.generation == id.generation then { slot with cell := slot.cell.map f } else slot)
      = h.slots := by
    apply Array.ext_getElem?
    intro i
    rw [Array.getElem?_modify]
    split
    case isFalse => rfl
    case isTrue hi =>
      subst hi
      unfold cell? at hc
      cases hs : h.slots[id.index.toNat]? with
      | none => rfl
      | some slot =>
        obtain ⟨generation, color, bytes, cell⟩ := slot
        by_cases hg : generation = id.generation <;> simp_all
  rw [modifyCell, hsame]

/-- The accounts stay true when a slot is replaced by one that is charged its footprint and the
counts follow. -/
theorem Accounted.replace (ha : h.Accounted) {i : Nat} {old new : Slot}
    (hs : h.slots[i]? = some old) (hs' : h'.slots = h.slots.modify i fun _ => new)
    (hn : new.bytes = new.footprint) (hb : h'.liveBytes + old.bytes = h.liveBytes + new.bytes)
    (hc : h'.liveCells + (if old.cell.isSome then 1 else 0) =
      h.liveCells + if new.cell.isSome then 1 else 0) : h'.Accounted := by
  have cells := slotSum_modify (fun slot => if slot.cell.isSome then 1 else 0) (fun _ => new) hs
  have bytes := slotSum_modify Slot.bytes (fun _ => new) hs
  rw [← hs'] at cells bytes
  refine ⟨?_, ?_, fun slot hm => ?_⟩
  · have := ha.cells
    unfold cellCount at this ⊢
    omega
  · have := ha.bytes
    omega
  · rw [hs'] at hm
    rcases mem_modify hm with hm | ⟨_, _, rfl⟩
    · exact ha.charged slot hm
    · exact hn

theorem slots_modifyCell {slot : Slot} (f : Cell → Cell)
    (hs : h.slots[id.index.toNat]? = some slot) (hg : slot.generation = id.generation)
    (hc : slot.cell = some c) :
    (h.modifyCell id f).slots =
      h.slots.modify id.index.toNat fun _ => { slot with cell := some (f c) } := by
  apply Array.ext_getElem?
  intro i
  simp only [modifyCell, Array.getElem?_modify]
  by_cases hi : id.index.toNat = i
  · rw [if_pos hi, if_pos hi, ← hi, hs]
    simp [hg, hc]
  · rw [if_neg hi, if_neg hi]

/-- A change that keeps the footprint keeps the accounts. -/
theorem Accounted.modifyCell (ha : h.Accounted) {f : Cell → Cell}
    (hf : ∀ c, h.cell? id = some c → (f c).footprint = c.footprint) :
    (h.modifyCell id f).Accounted := by
  cases hc : h.cell? id with
  | none => rwa [modifyCell_of_none f hc]
  | some c =>
    have hf := hf c hc
    obtain ⟨slot, hs, hg, hc⟩ := cell?_eq_some.mp hc
    have hb := ha.charged slot (Array.mem_of_getElem? hs)
    refine ha.replace hs (slots_modifyCell f hs hg hc) ?_ rfl (by simp [hc, Heap.modifyCell])
    simpa [Slot.footprint, hc, hf] using hb

/-- Whatever a change does to the footprint, the accounts are true once the cell is counted
again. -/
theorem Accounted.refresh (ha : h.Accounted) (f : Cell → Cell) :
    ((h.modifyCell id f).refreshFootprint id).Accounted := by
  cases hc : h.cell? id with
  | none => rwa [modifyCell_of_none f hc, refreshFootprint_of_none hc]
  | some c =>
    obtain ⟨slot, hs, hg, hc⟩ := cell?_eq_some.mp hc
    have hlt := (Array.getElem?_eq_some_iff.mp hs).1
    have hb := slotSum_modify Slot.bytes (fun _ => { slot with bytes := 0 }) hs
    have hs' : (h.modifyCell id f).slots[id.index.toNat]? =
        some { slot with cell := some (f c) } := by
      rw [slots_modifyCell f hs hg hc, Array.getElem?_modify, if_pos rfl, hs]
      rfl
    rw [refreshFootprint_of_cell? hs' hg rfl]
    refine @Accounted.replace _ _ ha _ _ { slot with bytes := (f c).footprint, cell := some (f c) }
      hs ?_ rfl ?_ (by simp [hc, Heap.modifyCell])
    · apply Array.ext_getElem?
      intro i
      simp only [slots_modifyCell f hs hg hc, Array.getElem?_modify]
      by_cases hi : id.index.toNat = i <;> simp [hi, Function.comp_def]
    · have := ha.bytes
      simp only [Heap.modifyCell] at *
      omega

theorem FreeListed.modifyCell (hf : h.FreeListed) (f : Cell → Cell) :
    (h.modifyCell id f).FreeListed := by
  refine ⟨fun i hi => ?_, hf.nodup, by simpa [Heap.modifyCell] using hf.size⟩
  obtain ⟨slot, hs, hc⟩ := hf.empty i hi
  simp only [Heap.modifyCell, Array.getElem?_modify, hs]
  split
  case isTrue =>
    refine ⟨_, rfl, ?_⟩
    by_cases hg : slot.generation = id.generation <;> simp [hg, hc]
  case isFalse => exact ⟨slot, rfl, hc⟩

theorem FreeListed.refreshFootprint (hf : h.FreeListed) : (h.refreshFootprint id).FreeListed := by
  cases hc : h.cell? id with
  | none => rwa [refreshFootprint_of_none hc]
  | some c =>
    obtain ⟨slot, hs, hg, hc⟩ := cell?_eq_some.mp hc
    rw [refreshFootprint_of_cell? hs hg hc]
    refine ⟨fun i hi => ?_, hf.nodup, by simpa using hf.size⟩
    obtain ⟨slot, hs, hc⟩ := hf.empty i hi
    simp only [Array.getElem?_modify, hs]
    split
    case isTrue => exact ⟨_, rfl, hc⟩
    case isFalse => exact ⟨slot, rfl, hc⟩

theorem AllWhite.modifyCell (hw : h.AllWhite) (f : Cell → Cell) : (h.modifyCell id f).AllWhite := by
  intro slot hs
  simp only [Heap.modifyCell] at hs
  rcases mem_modify hs with hs | ⟨old, ho, rfl⟩
  · exact hw slot hs
  · have := hw old (Array.mem_of_getElem? ho)
    split <;> exact this

theorem AllWhite.refreshFootprint (hw : h.AllWhite) : (h.refreshFootprint id).AllWhite := by
  cases hc : h.cell? id with
  | none => rwa [refreshFootprint_of_none hc]
  | some c =>
    obtain ⟨slot, hs, hg, hc⟩ := cell?_eq_some.mp hc
    rw [refreshFootprint_of_cell? hs hg hc]
    intro slot hm
    simp only at hm
    rcases mem_modify hm with hm | ⟨old, ho, rfl⟩
    · exact hw slot hm
    · exact hw old (Array.mem_of_getElem? ho)

/-! ### Allocating -/

/-- There is a slot for one more cell. -/
def HasRoom (h : Heap) : Prop := h.freeList = #[] → h.slots.size < 2 ^ 32

/-- The slot that holds a newly placed cell. -/
def placed (generation : UInt16) (cell : Cell) (bytes : Nat) : Slot :=
  { generation, bytes, cell := some cell }

theorem place_free {i : UInt32} {slot : Slot} (hb : h.freeList.back? = some i)
    (hs : h.slots[i.toNat]? = some slot) (cell : Cell) (bytes : Nat) :
    h.place cell bytes = (⟨i, slot.generation⟩,
      { h with
        freeList := h.freeList.pop
        slots := h.slots.modify i.toNat fun _ => placed slot.generation cell bytes }) := by
  have : h.slots.modify i.toNat (fun slot => { slot with cell := some cell, bytes, color := .white })
      = h.slots.modify i.toNat fun _ => placed slot.generation cell bytes := by
    apply Array.ext_getElem?
    intro j
    simp only [Array.getElem?_modify]
    by_cases hj : i.toNat = j
    · rw [if_pos hj, if_pos hj, ← hj, hs]
      rfl
    · rw [if_neg hj, if_neg hj]
  simp only [place, hb, hs, this]

theorem place_new (hb : h.freeList.back? = none) (cell : Cell) (bytes : Nat) :
    h.place cell bytes = (⟨h.slots.size.toUInt32, 0⟩,
      { h with slots := h.slots.push (placed 0 cell bytes) }) := by
  simp only [place, hb]
  rfl

/-- The free list after its last entry was taken. -/
theorem back?_spec {l : Array UInt32} {i : UInt32} (hb : l.back? = some i) :
    l.toList = l.pop.toList ++ [i] := by
  obtain ⟨xs, rfl⟩ := Array.back?_eq_some_iff.mp hb
  simp

theorem FreeListed.slot_of_back? (hf : h.FreeListed) {i : UInt32} (hb : h.freeList.back? = some i) :
    ∃ slot, h.slots[i.toNat]? = some slot ∧ slot.cell = none :=
  hf.empty i (Array.mem_of_back? hb)

/-- **Placing a cell** fills an empty slot: the new handle named nothing before and names the cell
now, and all other handles name what they did. -/
theorem cell?_place (hf : h.FreeListed) (hr : h.HasRoom) (cell : Cell) (bytes : Nat) :
    h.cell? (h.place cell bytes).1 = none ∧
    ∀ other, (h.place cell bytes).2.cell? other =
      if other = (h.place cell bytes).1 then some cell else h.cell? other := by
  cases hb : h.freeList.back? with
  | none =>
    have hsize : h.slots.size.toUInt32.toNat = h.slots.size := by
      have := hr (Array.back?_eq_none_iff.mp hb)
      rw [Nat.toUInt32, UInt32.toNat_ofNat', Nat.mod_eq_of_lt this]
    rw [place_new hb]
    refine ⟨?_, fun other => ?_⟩
    · simp [cell?, hsize]
    · obtain ⟨j, g⟩ := other
      simp only [cell?, Array.getElem?_push, Handle.mk.injEq]
      by_cases hj : j.toNat = h.slots.size
      · have hj' : j = h.slots.size.toUInt32 := UInt32.toNat_inj.mp (by rw [hj, hsize])
        by_cases hg : g = 0
        · simp [hj, ← hj', hg, placed]
        · simp [hj, ← hj', hg, placed, Ne.symm hg]
      · have hj' : j ≠ h.slots.size.toUInt32 := fun e => hj (by rw [e, hsize])
        simp [hj, hj']
  | some i =>
    obtain ⟨slot, hs, hc⟩ := hf.slot_of_back? hb
    rw [place_free hb hs]
    refine ⟨?_, fun other => ?_⟩
    · simp [cell?, hs, hc]
    · obtain ⟨j, g⟩ := other
      simp only [cell?, Array.getElem?_modify, Handle.mk.injEq]
      by_cases hj : j = i
      · subst hj
        by_cases hg : g = slot.generation
        · simp [hs, hg, placed]
        · simp [hs, hg, placed, Ne.symm hg]
      · have : i.toNat ≠ j.toNat := fun e => hj (UInt32.toNat_inj.mp e).symm
        simp [hj, this]

theorem FreeListed.place (hf : h.FreeListed) (hr : h.HasRoom) (cell : Cell) (bytes : Nat) :
    (h.place cell bytes).2.FreeListed := by
  cases hb : h.freeList.back? with
  | none =>
    rw [place_new hb]
    refine ⟨fun i hi => ?_, hf.nodup, ?_⟩
    · simp [Array.back?_eq_none_iff.mp hb] at hi
    · have := hr (Array.back?_eq_none_iff.mp hb)
      simp only [Array.size_push]
      omega
  | some i =>
    obtain ⟨slot, hs, hc⟩ := hf.slot_of_back? hb
    have hlist := back?_spec hb
    have hnodup := hf.nodup
    rw [hlist, List.nodup_append] at hnodup
    rw [place_free hb hs]
    refine ⟨fun j hj => ?_, hnodup.1, by simpa using hf.size⟩
    have hne : i.toNat ≠ j.toNat := fun e =>
      hnodup.2.2 j (Array.mem_toList_iff.mpr hj) i (by simp) (UInt32.toNat_inj.mp e).symm
    obtain ⟨slot', hs', hc'⟩ := hf.empty j
      (Array.mem_toList_iff.mp (by rw [hlist]; exact List.mem_append_left _ hj.val))
    exact ⟨slot', by simp [Array.getElem?_modify, hne, hs'], hc'⟩

theorem AllWhite.place (hw : h.AllWhite) (cell : Cell) (bytes : Nat) :
    (h.place cell bytes).2.AllWhite := by
  cases hb : h.freeList.back? with
  | none =>
    rw [place_new hb]
    intro slot hs
    rcases Array.mem_push.mp hs with hs | rfl
    · exact hw slot hs
    · rfl
  | some i =>
    simp only [Heap.place, hb]
    intro slot hs
    simp only at hs
    rcases mem_modify hs with hs | ⟨_, _, rfl⟩
    · exact hw slot hs
    · rfl

theorem Accounted.allocate (ha : h.Accounted) (hf : h.FreeListed) (shape : ShapeId)
    (payload : Payload) : (h.allocate shape payload).2.Accounted := by
  unfold Heap.allocate
  generalize Cell.new shape (h.shapes.get shape).slotCount payload = cell
  dsimp only
  split
  case isTrue => exact ha
  case isFalse =>
    cases hb : h.freeList.back? with
    | none =>
      rw [place_new hb]
      refine ⟨?_, ?_, fun slot hs => ?_⟩
      · simp [cellCount, slotSum_push, placed, ha.cells]
      · simp [slotSum_push, placed, ha.bytes]
      · rcases Array.mem_push.mp hs with hs | rfl
        · exact ha.charged slot hs
        · rfl
    | some i =>
      obtain ⟨slot, hs, hc⟩ := hf.slot_of_back? hb
      have hzero := ha.charged slot (Array.mem_of_getElem? hs)
      simp only [Slot.footprint, hc] at hzero
      rw [place_free hb hs]
      exact ha.replace hs rfl rfl (by simp [hzero, placed]) (by simp [hc, placed])

end Heap

end ScriptMachine
