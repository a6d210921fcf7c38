import ScriptMachine.Heap.Collection
import ScriptMachine.Proofs.Value
import Mathlib.Algebra.BigOperators.Group.List.Basic
import Mathlib.Algebra.Order.BigOperators.Group.List
import Mathlib.Algebra.Order.Group.Nat

/-! # Heaps with one slot changed

What the handles of a heap name after one of its slots was changed, and what becomes of quantities that
slots contribute to. A handle resolves to a cell through the slot and its generation, so a change of one
cell leaves the other handles alone (`cell?_modifyCell`), and counting bytes again changes no cell
(`cell?_refreshFootprint`). -/

namespace ScriptMachine

namespace Heap

variable {h : Heap} {id other : Handle} {c : Cell}

theorem cell?_eq_some :
    h.cell? id = some c ↔ ∃ slot, h.slots[id.index.toNat]? = some slot ∧
      slot.generation = id.generation ∧ slot.cell = some c := by
  unfold cell?
  cases h.slots[id.index.toNat]? with
  | none => simp
  | some slot =>
    by_cases hg : slot.generation = id.generation <;> simp [hg]

theorem isLive_iff : h.isLive id = true ↔ ∃ c, h.cell? id = some c := Option.isSome_iff_exists

theorem isLive_of_cell? (hc : h.cell? id = some c) : h.isLive id = true := isLive_iff.mpr ⟨c, hc⟩

theorem cell?_congr {h' : Heap} (hs : h'.slots = h.slots) : h'.cell? = h.cell? := by
  funext id
  unfold cell?
  rw [hs]

theorem isLive_congr {h' : Heap} (hc : h'.cell? = h.cell?) : h'.isLive = h.isLive := by
  funext id
  unfold isLive
  rw [hc]

/-- Two live handles with the same slot are the same handle. -/
theorem eq_of_index_eq (ha : h.isLive id) (hb : h.isLive other) (hi : id.index = other.index) :
    id = other := by
  obtain ⟨_, ha⟩ := isLive_iff.mp ha
  obtain ⟨_, hb⟩ := isLive_iff.mp hb
  obtain ⟨_, hs, hg, -⟩ := cell?_eq_some.mp ha
  obtain ⟨_, hs', hg', -⟩ := cell?_eq_some.mp hb
  rw [hi, hs', Option.some.injEq] at hs
  subst hs
  obtain ⟨i, g⟩ := id
  obtain ⟨i', g'⟩ := other
  simp only at hi hg hg'
  rw [hi, ← hg, ← hg']

theorem cell?_modifyCell (h : Heap) (id other : Handle) (f : Cell → Cell) :
    (h.modifyCell id f).cell? other =
      if other = id then (h.cell? id).map f else h.cell? other := by
  obtain ⟨i, g⟩ := id
  obtain ⟨j, g'⟩ := other
  simp only [cell?, modifyCell, Array.getElem?_modify, Handle.mk.injEq]
  by_cases hj : j = i
  · subst hj
    cases h.slots[j.toNat]? with
    | none => simp
    | some slot =>
      by_cases hg : slot.generation = g <;> by_cases hg' : g' = g <;> grind
  · have : i.toNat ≠ j.toNat := fun e => hj (UInt32.toNat_inj.mp e).symm
    simp [hj, this]

theorem cell?_modifyCell_self (h : Heap) (id : Handle) (f : Cell → Cell) :
    (h.modifyCell id f).cell? id = (h.cell? id).map f := by
  rw [cell?_modifyCell, if_pos rfl]

theorem isLive_modifyCell (h : Heap) (id other : Handle) (f : Cell → Cell) :
    (h.modifyCell id f).isLive other = h.isLive other := by
  unfold isLive
  rw [cell?_modifyCell]
  split <;> simp_all

theorem refreshFootprint_of_cell? {slot : Slot} (hs : h.slots[id.index.toNat]? = some slot)
    (hg : slot.generation = id.generation) (hc : slot.cell = some c) :
    h.refreshFootprint id =
      { h with
        liveBytes := h.liveBytes - slot.bytes + c.footprint
        slots := h.slots.modify id.index.toNat fun slot => { slot with bytes := c.footprint } } := by
  simp [refreshFootprint, hs, hg, hc]

theorem refreshFootprint_of_none (hc : h.cell? id = none) : h.refreshFootprint id = h := by
  unfold cell? at hc
  unfold refreshFootprint
  cases hs : h.slots[id.index.toNat]? with
  | none => rfl
  | some slot =>
    rw [hs] at hc
    by_cases hg : slot.generation = id.generation <;> simp_all

theorem cell?_refreshFootprint (h : Heap) (id : Handle) :
    (h.refreshFootprint id).cell? = h.cell? := by
  cases hc : h.cell? id with
  | none => rw [refreshFootprint_of_none hc]
  | some c =>
    obtain ⟨slot, hs, hg, hc⟩ := cell?_eq_some.mp hc
    rw [refreshFootprint_of_cell? hs hg hc]
    funext other
    simp only [cell?, Array.getElem?_modify]
    by_cases hi : id.index.toNat = other.index.toNat
    · simp [← hi, hs]
    · rw [if_neg hi]

end Heap

/-! ## Sums over slots

A quantity may be a number of cells or of bytes. Changing one slot
changes the sum by what the slot contributed before and after (`slotSum_modify`). -/

/-- The sum of a quantity over slots. -/
def slotSum (f : Slot → Nat) (slots : Array Slot) : Nat := (slots.toList.map f).sum

variable {f : Slot → Nat} {slots : Array Slot}

theorem slotSum_push (slot : Slot) : slotSum f (slots.push slot) = slotSum f slots + f slot := by
  simp [slotSum]

theorem slotSum_congr {g : Slot → Nat} (hfg : ∀ slot ∈ slots, f slot = g slot) :
    slotSum f slots = slotSum g slots := by
  unfold slotSum
  rw [List.map_congr_left fun slot hs => hfg slot (Array.mem_toList_iff.mp hs)]

theorem slotSum_map (g : Slot → Slot) :
    slotSum f (slots.map g) = slotSum (fun slot => f (g slot)) slots := by
  simp [slotSum, Function.comp_def]

theorem slotSum_add (f g : Slot → Nat) (slots : Array Slot) :
    slotSum f slots + slotSum g slots = slotSum (fun slot => f slot + g slot) slots :=
  List.sum_map_add.symm

/-- A slot contributes no more than all do. -/
theorem le_slotSum (f : Slot → Nat) {slot : Slot} (hs : slot ∈ slots) : f slot ≤ slotSum f slots :=
  List.single_le_sum (fun _ _ => Nat.zero_le _) _
    (List.mem_map_of_mem (Array.mem_toList_iff.mpr hs))

theorem slotSum_eq_zero (hf : ∀ slot ∈ slots, f slot = 0) : slotSum f slots = 0 := by
  refine List.sum_eq_zero fun n hn => ?_
  obtain ⟨slot, hs, rfl⟩ := List.mem_map.mp hn
  exact hf slot (Array.mem_toList_iff.mp hs)

theorem slotSum_le_size (hf : ∀ slot, f slot ≤ 1) : slotSum f slots ≤ slots.size := by
  have : ∀ l : List Slot, (l.map f).sum ≤ l.length := by
    intro l
    induction l with
    | nil => simp
    | cons slot l ih =>
      have := hf slot
      simp only [List.map_cons, List.sum_cons, List.length_cons]
      omega
  simpa [slotSum] using this slots.toList

theorem sum_map_modify (f : Slot → Nat) (g : Slot → Slot) {slot : Slot} :
    ∀ {l : List Slot} {i : Nat}, l[i]? = some slot →
      ((l.modify i g).map f).sum + f slot = (l.map f).sum + f (g slot)
  | [], _, hs => by simp at hs
  | _ :: l, 0, hs => by
    simp only [List.getElem?_cons_zero, Option.some.injEq] at hs
    subst hs
    simp only [List.modify_zero_cons, List.map_cons, List.sum_cons]
    omega
  | _ :: l, i + 1, hs => by
    have := sum_map_modify f g (l := l) (i := i) (by simpa using hs)
    simp only [List.modify_succ_cons, List.map_cons, List.sum_cons]
    omega

/-- A changed slot contributes what it does now in place of what it did before. -/
theorem slotSum_modify (f : Slot → Nat) (g : Slot → Slot) {i : Nat} {slot : Slot}
    (hs : slots[i]? = some slot) :
    slotSum f (slots.modify i g) + f slot = slotSum f slots + f (g slot) := by
  have := sum_map_modify f g (l := slots.toList) (i := i) (by simpa using hs)
  simpa [slotSum] using this

theorem mem_modify {α : Type} {xs : Array α} {i : Nat} {g : α → α} {x : α} (hm : x ∈ xs.modify i g) :
    x ∈ xs ∨ ∃ old, xs[i]? = some old ∧ x = g old := by
  obtain ⟨j, hj⟩ := Array.mem_iff_getElem?.mp hm
  rw [Array.getElem?_modify] at hj
  split at hj
  case isTrue hi =>
    subst hi
    obtain ⟨old, ho, rfl⟩ := Option.map_eq_some_iff.mp hj
    exact .inr ⟨old, ho, rfl⟩
  case isFalse => exact .inl (Array.mem_of_getElem? hj)

end ScriptMachine
