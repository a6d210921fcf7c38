import ScriptMachine.Proofs.Heap.Retention

/-! # The life of a handle

A handle that has lost its cell to a collection never names a cell again (`Heap.Spent`): its slot has
moved on to a later generation, or has run out of generations and stays empty. Every handle that a
collection takes the cell from is spent (`spent_of_collect`), and a spent handle stays spent, whatever
is done to the heap. -/

namespace ScriptMachine

namespace Heap

/-- **A spent handle**: its slot is past its generation, or empty and never used again. -/
def Spent (h : Heap) (id : Handle) : Prop :=
  ∃ slot, h.slots[id.index.toNat]? = some slot ∧ (id.generation < slot.generation ∨
    id.generation = slot.generation ∧ slot.cell = none ∧ id.index ∉ h.freeList)

variable {h h' : Heap} {id : Handle}

/-- A spent handle names nothing. -/
theorem Spent.cell? (hs : h.Spent id) : h.cell? id = none := by
  obtain ⟨slot, hslot, hlt | ⟨hg, hempty, -⟩⟩ := hs
  · have hne : slot.generation ≠ id.generation := fun h => UInt16.lt_irrefl _ (h ▸ hlt)
    simp [Heap.cell?, hslot, hne]
  · simp [Heap.cell?, hslot, hg, hempty]

/-- A change of cells in their slots. -/
theorem Spent.outline (hs : h.Spent id)
    (ho : h'.slots.map Slot.outline = h.slots.map Slot.outline) (hf : h'.freeList = h.freeList) :
    h'.Spent id := by
  obtain ⟨slot, hslot, hcases⟩ := hs
  obtain ⟨slot', hslot', hg, hempty⟩ := outline_getElem? ho hslot
  refine ⟨slot', hslot', ?_⟩
  rwa [hg, hempty, hf]

/-- **A new cell** never goes into the slot of a spent handle at its generation. -/
theorem Spent.place (hs : h.Spent id) (cell : Cell) (bytes : Nat) :
    (h.place cell bytes).2.Spent id := by
  obtain ⟨slot, hslot, hcases⟩ := hs
  have hlt := (Array.getElem?_eq_some_iff.mp hslot).1
  cases hb : h.freeList.back? with
  | none =>
    rw [place_new hb]
    refine ⟨slot, ?_, hcases⟩
    rw [Array.getElem?_push, if_neg (Nat.ne_of_lt hlt), hslot]
  | some i =>
    have hlist := back?_spec hb
    have hpop {j : UInt32} (hj : j ∈ h.freeList.pop) : j ∈ h.freeList := by
      rw [← Array.mem_toList_iff, hlist]
      exact List.mem_append_left _ (Array.mem_toList_iff.mpr hj)
    simp only [Heap.place, hb]
    by_cases hi : i.toNat = id.index.toNat
    · -- the slot of the handle is on the free list, so it is past its generation
      rw [UInt32.toNat_inj.mp hi] at hb ⊢
      have hpast : id.generation < slot.generation := by
        refine hcases.resolve_right fun hretired => hretired.2.2 ?_
        exact Array.mem_of_back? hb
      refine ⟨{ slot with cell := some cell, bytes, color := .white }, ?_, .inl hpast⟩
      rw [Array.getElem?_modify, if_pos rfl, hslot]
      rfl
    · refine ⟨slot, ?_, hcases.imp_right fun hretired => ⟨hretired.1, hretired.2.1, ?_⟩⟩
      · rw [Array.getElem?_modify, if_neg hi, hslot]
      · exact fun hmem => hretired.2.2 (hpop hmem)

theorem Spent.allocate (hs : h.Spent id) (shape : ShapeId) (payload : Payload) :
    (h.allocate shape payload).2.Spent id := by
  rcases allocate_cases h shape payload with ⟨_, heq⟩ | ⟨bytes, -, heq⟩
  · rw [heq]
    exact hs
  · rw [heq]
    exact hs.place _ bytes

/-! ### Collections -/

/-- A sweep lists the slots it empties, but for those that have run out of generations. -/
theorem mem_freeList_sweepTo {k : Nat} {i : UInt32} (hk : k ≤ h.slots.size)
    (hi : i ∈ (h.sweepTo k).heap.freeList) : i ∈ h.freeList ∨
      ∃ j < k, ∃ slot, h.slots[j]? = some slot ∧ slot.dead ∧ slot.generation < 0xFFFF ∧
        i = j.toUInt32 := by
  induction k with
  | zero => exact .inl hi
  | succ k ih =>
    have hold (hmem : i ∈ (h.sweepTo k).heap.freeList) : i ∈ h.freeList ∨
        ∃ j < k + 1, ∃ slot, h.slots[j]? = some slot ∧ slot.dead ∧ slot.generation < 0xFFFF ∧
          i = j.toUInt32 :=
      (ih (by omega) hmem).imp_right fun ⟨j, hj, hrest⟩ => ⟨j, Nat.lt_succ_of_lt hj, hrest⟩
    obtain ⟨slot, hs⟩ : ∃ slot, h.slots[k]? = some slot := ⟨_, Array.getElem?_eq_getElem hk⟩
    have hs' : (h.sweepTo k).heap.slots[k]? = some slot := by
      rw [(swept_sweepTo h (by omega)).slots, if_neg (Nat.lt_irrefl k), hs]
    rw [sweepTo_succ] at hi
    cases hc : slot.cell with
    | none => exact hold (by rwa [sweepSlot_empty hs' hc] at hi)
    | some c =>
      by_cases hw : slot.color = .white
      · have hdead : slot.dead := ⟨by simp [hc], hw⟩
        rw [sweepSlot_dead hs' hdead] at hi
        simp only at hi
        split at hi
        case isFalse => exact hold hi
        case isTrue hg =>
          rcases Array.mem_push.mp hi with hi | rfl
          · exact hold hi
          · exact .inr ⟨k, Nat.lt_succ_self k, slot, hs, hdead, hg, rfl⟩
      · exact hold (by rwa [sweepSlot_marked hs' hc hw] at hi)

/-- What a collection leaves in a slot, and whether it lists the slot. -/
theorem collect_getElem? (hw : h.AllWhite) (hsize : h.slots.size ≤ 2 ^ 32) (values : List Value)
    (words : List UInt64) {i : UInt32} {slot : Slot} (hs : h.slots[i.toNat]? = some slot) :
    let after := (h.collect values words).2
    (after.slots[i.toNat]? = some slot ∧ (i ∈ after.freeList → i ∈ h.freeList)) ∨
      slot.cell.isSome ∧ after.slots[i.toNat]? = some slot.freed ∧
        (i ∈ after.freeList → i ∈ h.freeList ∨ slot.generation < 0xFFFF) := by
  let marked := h.mark (h.allRoots values words)
  have hm : Heap.Marking h _ [] (marked, []) := mark_marking hw (h.allRoots values words)
  have hslots : (h.collect values words).2.slots = marked.slots.map Slot.swept := sweep_slots marked
  have hfree : marked.freeList = h.freeList := (congrArg Heap.freeList hm.frame :)
  have hmarked : marked.slots.size = h.slots.size := by rw [← hm.slots, Array.size_map]
  -- the slot after marking differs in its color only
  obtain ⟨s, hs', rfl⟩ : ∃ s, marked.slots[i.toNat]? = some s ∧ { s with color := .white } = slot := by
    rw [← hm.slots, Array.getElem?_map] at hs
    exact Option.map_eq_some_iff.mp hs
  have hlisted (hi : i ∈ (h.collect values words).2.freeList) :
      i ∈ h.freeList ∨ s.dead ∧ s.generation < 0xFFFF := by
    rcases mem_freeList_sweepTo (h := marked) (Nat.le_refl _) hi with hi | ⟨j, hj, s', hj', hdead, hg, rfl⟩
    · exact .inl (hfree ▸ hi)
    · have hsame : j.toUInt32.toNat = j := Nat.mod_eq_of_lt (by omega)
      rw [hsame, hj'] at hs'
      obtain rfl := Option.some.inj hs'
      exact .inr ⟨hdead, hg⟩
  dsimp only
  rw [hslots, Array.getElem?_map, hs', Option.map_some]
  by_cases hdead : s.dead
  · refine .inr ⟨hdead.1, ?_, fun hi => (hlisted hi).imp_right And.right⟩
    rw [swept_of_dead hdead, Slot.freed, Slot.freed, hdead.2]
  · refine .inl ⟨?_, fun hi => (hlisted hi).resolve_right fun h => hdead h.1⟩
    rw [swept_of_not_dead hdead]
    cases hc : s.cell with
    | none => simp [hm.empty s (Array.mem_of_getElem? hs') hc]
    | some c => simp

theorem freed_generation (slot : Slot) : slot.generation ≤ slot.freed.generation ∧
    (slot.generation < 0xFFFF → slot.generation < slot.freed.generation) := by
  unfold Slot.freed
  dsimp only
  split
  case isTrue hg =>
    have hg' : slot.generation.toNat < 0xFFFF := UInt16.lt_iff_toNat_lt.mp hg
    have hnext : (slot.generation + 1).toNat = slot.generation.toNat + 1 := by
      rw [UInt16.toNat_add]
      exact Nat.mod_eq_of_lt (by simp; omega)
    rw [UInt16.le_iff_toNat_le, UInt16.lt_iff_toNat_lt (b := slot.generation + 1), hnext]
    exact ⟨Nat.le_succ _, fun _ => Nat.lt_succ_self _⟩
  case isFalse hg => exact ⟨UInt16.le_refl _, fun h => absurd h hg⟩

/-- **A collection gives no cell to a spent handle.** -/
theorem Spent.collect (hs : h.Spent id) (hw : h.AllWhite) (hsize : h.slots.size ≤ 2 ^ 32)
    (values : List Value) (words : List UInt64) : (h.collect values words).2.Spent id := by
  obtain ⟨slot, hslot, hcases⟩ := hs
  rcases collect_getElem? hw hsize values words hslot with ⟨hsame, hlisted⟩ | ⟨hsome, hfreed, -⟩
  · refine ⟨slot, hsame, hcases.imp_right fun hretired => ⟨hretired.1, hretired.2.1, ?_⟩⟩
    exact fun hi => hretired.2.2 (hlisted hi)
  · have hpast : id.generation < slot.generation := by
      refine hcases.resolve_right fun hretired => ?_
      rw [hretired.2.1] at hsome
      cases hsome
    refine ⟨slot.freed, hfreed, .inl ?_⟩
    have hle := (freed_generation slot).1
    rw [UInt16.lt_iff_toNat_lt] at hpast ⊢
    exact Nat.lt_of_lt_of_le hpast (UInt16.le_iff_toNat_le.mp hle)

/-- **A handle that loses its cell to a collection is spent.** -/
theorem spent_of_collect (hw : h.AllWhite) (hl : h.FreeListed) (values : List Value)
    (words : List UInt64) (hlive : h.isLive id) (hdead : (h.collect values words).2.cell? id = none) :
    (h.collect values words).2.Spent id := by
  obtain ⟨c, hc⟩ := isLive_iff.mp hlive
  obtain ⟨slot, hslot, hg, hcell⟩ := cell?_eq_some.mp hc
  rcases collect_getElem? hw hl.size values words hslot with ⟨hsame, -⟩ | ⟨-, hfreed, hlisted⟩
  · rw [cell?_eq_some.mpr ⟨slot, hsame, hg, hcell⟩] at hdead
    cases hdead
  · -- a slot that held a cell is not on the free list
    have hunlisted : id.index ∉ h.freeList := fun hi => by
      obtain ⟨slot', hslot', hempty⟩ := hl.empty _ hi
      obtain rfl := Option.some.inj (hslot.symm.trans hslot')
      rw [hcell] at hempty
      cases hempty
    refine ⟨slot.freed, hfreed, ?_⟩
    rw [← hg]
    by_cases hlast : slot.generation < 0xFFFF
    · exact .inl ((freed_generation slot).2 hlast)
    · refine .inr ⟨?_, rfl, fun hi => (hlisted hi).elim hunlisted hlast⟩
      simp [Slot.freed, hlast]

end Heap

end ScriptMachine
