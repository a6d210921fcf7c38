import ScriptMachine.Proofs.Heap.Ledger
import ScriptMachine.Proofs.Heap.Lifetime

/-! # Handles are issued once

Whatever is done with a heap, an allocation never issues a handle that was issued before, however
often the slot was used again (`handles_issued_once`). A heap is registered under the handles issued so
far (`Heap.Registered`) when each of them is live or spent and all live handles are among them. Every
action keeps that: a cell is only ever placed under a handle that named nothing, and a spent handle
stays spent. No action has to be allowed for this, be it on a shape or a name of another heap. -/

namespace ScriptMachine

namespace Heap

/-- The handle that an action issues. -/
def Action.issued (s : Ledger) : Action → List Handle
  | .allocate shape payload =>
    match (s.heap.allocate shape payload).1 with
    | .ok id => [id]
    | .error _ => []
  | _ => []

/-- **The ledgers that actions of any kind lead to**, with the handles issued on the way, the latest
first. -/
inductive Ledger.Issued : Ledger → List Handle → Prop
  /-- A new heap. -/
  | new (limits : HeapLimits) : Issued { heap := .new limits } []
  /-- One more action. -/
  | step {s : Ledger} {ids : List Handle} (a : Action) :
      Issued s ids → Issued (a.run s) (a.issued s ++ ids)

/-- A ledger that actions of any kind lead to from another one. -/
inductive Ledger.Leads (s : Ledger) : Ledger → Prop
  /-- No action. -/
  | refl : Leads s s
  /-- One more action. -/
  | step {later : Ledger} (a : Action) : Leads s later → Leads s (a.run later)

/-- A slot is retired when the last handle it has was issued and its cell is gone. -/
def Retired (h : Heap) (ids : List Handle) (index : UInt32) : Prop :=
  ⟨index, 0xFFFF⟩ ∈ ids ∧ h.isLive ⟨index, 0xFFFF⟩ = false

/-- **The register of a heap**: the handles that were issued. -/
structure Registered (h : Heap) (ids : List Handle) : Prop where
  /-- No slot is colored. -/
  white : h.AllWhite
  /-- The free list is in order. -/
  listed : h.FreeListed
  /-- No handle was issued twice. -/
  nodup : ids.Nodup
  /-- Issued handles are live or spent. -/
  spent : ∀ id ∈ ids, h.isLive id = true ∨ h.Spent id
  /-- Live handles were issued. -/
  issued : ∀ id, h.isLive id = true → id ∈ ids

variable {h h' : Heap} {s later : Ledger} {ids : List Handle} {id : Handle}

theorem Spent.not_live (hs : h.Spent id) : h.isLive id = false := by
  rw [isLive, hs.cell?]
  rfl

/-! ### Actions and slots -/

/-- What an action leaves alone if it neither allocates nor collects: which slots hold a cell, all
generations and the free list. -/
theorem Action.outline (s : Ledger) (a : Action) :
    (∃ shape payload, a = .allocate shape payload) ∨ (∃ values words, a = .collect values words) ∨
      (a.run s).heap.slots.map Slot.outline = s.heap.slots.map Slot.outline ∧
        (a.run s).heap.freeList = s.heap.freeList ∧
        (s.heap.AllWhite → (a.run s).heap.AllWhite) ∧ a.issued s = [] := by
  have of_retains {a : Action} (hi : a.issued s = []) (hr : s.heap.Retains (a.run s).heap) :
      (a.run s).heap.slots.map Slot.outline = s.heap.slots.map Slot.outline ∧
        (a.run s).heap.freeList = s.heap.freeList ∧
        (s.heap.AllWhite → (a.run s).heap.AllWhite) ∧ a.issued s = [] :=
    ⟨hr.outline, hr.free, hr.white, hi⟩
  cases a with
  | allocate shape payload => exact .inl ⟨shape, payload, rfl⟩
  | collect values words => exact .inr (.inl ⟨values, words, rfl⟩)
  | intern name => exact .inr (.inr (of_retains rfl (.of_slots rfl rfl)))
  | rootShape kind prototype => exact .inr (.inr (of_retains rfl (.of_slots rfl rfl)))
  | setProperty id name value =>
    refine .inr (.inr (of_retains rfl ?_))
    rw [Action.run, Ledger.heap_write]
    exact Retaining.setProperty id name value s.heap
  | setIndex id index value =>
    refine .inr (.inr (of_retains rfl ?_))
    rw [Action.run, Ledger.heap_write]
    exact Retaining.setIndex id index value s.heap
  | setArrayLength id length =>
    exact .inr (.inr (of_retains rfl (Retaining.setArrayLength id length s.heap)))
  | defineProperty id name value attributes =>
    exact .inr (.inr (of_retains rfl (Retaining.defineProperty id name value attributes s.heap)))
  | deleteProperty id name =>
    exact .inr (.inr (of_retains rfl (Retaining.deleteProperty id name s.heap)))
  | setPrototype id prototype =>
    exact .inr (.inr (of_retains rfl (Retaining.setPrototype id prototype s.heap)))
  | replay id report value =>
    exact .inr (.inr (of_retains rfl (retains_writeSlot s.heap id report.target report.offset value)))
  | setVariable id index value =>
    exact .inr (.inr ⟨outline_modifyCell s.heap id _, rfl, fun hw => hw.modifyCell _, rfl⟩)
  | anchor change =>
    obtain ⟨hslots, hfree, -, -⟩ := anchor_frame s.heap change
    exact .inr (.inr (of_retains rfl (.of_slots hslots hfree)))

theorem isLive_outline (ho : h'.slots.map Slot.outline = h.slots.map Slot.outline) (id : Handle) :
    h'.isLive id = h.isLive id := by
  have hkeep {h h' : Heap} (ho : h'.slots.map Slot.outline = h.slots.map Slot.outline)
      (hl : h.isLive id = true) : h'.isLive id = true := by
    obtain ⟨c, hc⟩ := isLive_iff.mp hl
    obtain ⟨slot, hslot, hg, hcell⟩ := cell?_eq_some.mp hc
    obtain ⟨slot', hslot', hg', hempty⟩ := outline_getElem? ho hslot
    obtain ⟨c', hcell'⟩ := Option.ne_none_iff_exists'.mp fun hnone => by
      rw [hempty.mp hnone] at hcell
      cases hcell
    exact isLive_of_cell? (cell?_eq_some.mpr ⟨slot', hslot', hg'.trans hg, hcell'⟩)
  rw [Bool.eq_iff_iff]
  exact ⟨hkeep ho.symm, hkeep ho⟩

/-- No action takes slots away from a heap that is not being collected. -/
theorem size_le_action (hw : s.heap.AllWhite) (a : Action) :
    s.heap.slots.size ≤ (a.run s).heap.slots.size ∧ (a.run s).heap.AllWhite := by
  rcases Action.outline s a with ⟨shape, payload, rfl⟩ | ⟨values, words, rfl⟩ | ⟨ho, -, hwhite, -⟩
  · exact ⟨size_le_allocated s.heap shape payload, hw.allocate shape payload⟩
  · exact ⟨(size_collect hw values words).ge, hw.collect values words⟩
  · have hsize := congrArg Array.size ho
    simp only [Array.size_map] at hsize
    exact ⟨hsize.ge, hwhite hw⟩

/-! ### The register -/

theorem Registered.new (limits : HeapLimits) : (Heap.new limits).Registered [] where
  white := (Regular.new limits).white
  listed := (Regular.new limits).listed
  nodup := .nil
  spent := fun _ hid => by cases hid
  issued := fun id hl => by simp [Heap.new, isLive, cell?] at hl

/-- **An allocation** issues a handle that was not issued before. -/
theorem Registered.allocate (hr : h.Registered ids) {shape : ShapeId} {payload : Payload}
    (hok : (h.allocate shape payload).1 = .ok id)
    (hsize : (h.allocate shape payload).2.slots.size ≤ 2 ^ 32) :
    (h.allocate shape payload).2.Registered (id :: ids) := by
  obtain ⟨hnone, hcell⟩ := cell?_allocate hr.listed hok hsize
  have hlive (other : Handle) : (h.allocate shape payload).2.isLive other = true ↔
      other = id ∨ h.isLive other = true := by
    rw [isLive, isLive, hcell]
    by_cases ho : other = id <;> simp [ho]
  refine ⟨hr.white.allocate shape payload, hr.listed.allocate hsize,
    List.nodup_cons.mpr ⟨fun hold => ?_, hr.nodup⟩, fun other ho => ?_, fun other hl => ?_⟩
  · -- the new handle named nothing, so if it was issued it is spent, and stays so
    rcases hr.spent id hold with hl | hspent
    · rw [isLive, hnone] at hl
      cases hl
    · have := (hspent.allocate shape payload).not_live
      rw [(hlive id).mpr (.inl rfl)] at this
      cases this
  · rcases List.mem_cons.mp ho with rfl | ho
    · exact .inl ((hlive other).mpr (.inl rfl))
    · exact (hr.spent other ho).imp (fun hl => (hlive other).mpr (.inr hl))
        fun hspent => hspent.allocate shape payload
  · rcases (hlive other).mp hl with rfl | hl
    · exact List.mem_cons_self
    · exact List.mem_cons_of_mem _ (hr.issued other hl)

/-- **A collection** turns live handles into spent ones. -/
theorem Registered.collect (hr : h.Registered ids) (values : List Value) (words : List UInt64) :
    (h.collect values words).2.Registered ids := by
  refine ⟨hr.white.collect values words, hr.listed.collect hr.white values words, hr.nodup,
    fun id hid => ?_, fun id hl => ?_⟩
  · rcases hr.spent id hid with hl | hspent
    · cases hc : (h.collect values words).2.cell? id with
      | some c => exact .inl (isLive_of_cell? hc)
      | none => exact .inr (spent_of_collect hr.white hr.listed values words hl hc)
    · exact .inr (hspent.collect hr.white hr.listed.size values words)
  · obtain ⟨c, hc⟩ := isLive_iff.mp hl
    exact hr.issued id (isLive_of_cell? ((cell?_collect hr.white values words).mp hc).1)

/-- **Every action** keeps the register. -/
theorem Registered.run (hr : s.heap.Registered ids) (a : Action)
    (hsize : (a.run s).heap.slots.size ≤ 2 ^ 32) :
    (a.run s).heap.Registered (a.issued s ++ ids) := by
  rcases Action.outline s a with ⟨shape, payload, rfl⟩ | ⟨values, words, rfl⟩ |
    ⟨ho, hfree, hwhite, hnone⟩
  · rcases allocate_cases s.heap shape payload with ⟨_, heq⟩ | ⟨_, hok, -⟩
    · simp only [Action.issued, Action.run, heq]
      exact hr
    · simp only [Action.issued, hok]
      exact hr.allocate hok hsize
  · exact hr.collect values words
  · rw [hnone]
    refine ⟨hwhite hr.white, ⟨fun i hi => ?_, hfree ▸ hr.listed.nodup, hsize⟩, hr.nodup,
      fun id hid => ?_, fun id hl => hr.issued id ?_⟩
    · rw [hfree] at hi
      obtain ⟨slot, hslot, hempty⟩ := hr.listed.empty i hi
      obtain ⟨slot', hslot', -, hiff⟩ := outline_getElem? ho hslot
      exact ⟨slot', hslot', hiff.mpr hempty⟩
    · rw [isLive_outline ho]
      exact (hr.spent id hid).imp_right fun hspent => hspent.outline ho hfree
    · rwa [isLive_outline ho] at hl

/-- **The register is true** as long as every slot has a handle. -/
theorem Ledger.Issued.registered (hi : s.Issued ids) :
    s.heap.AllWhite ∧ (s.heap.slots.size ≤ 2 ^ 32 → s.heap.Registered ids) := by
  induction hi with
  | new limits => exact ⟨(Registered.new limits).white, fun _ => .new limits⟩
  | step a _ ih =>
    obtain ⟨hle, hwhite⟩ := size_le_action ih.1 a
    exact ⟨hwhite, fun hsize => (ih.2 (hle.trans hsize)).run a hsize⟩

/-- The register of a later ledger holds the handles of the earlier one, and those that are spent stay
so. -/
theorem Ledger.Leads.registered (hl : s.Leads later) (hw : s.heap.AllWhite)
    (hr : s.heap.slots.size ≤ 2 ^ 32 → s.heap.Registered ids) :
    later.heap.AllWhite ∧ (later.heap.slots.size ≤ 2 ^ 32 →
      ∃ more, later.heap.Registered (more ++ ids) ∧
        ∀ id, s.heap.Spent id → later.heap.Spent id) := by
  induction hl with
  | refl => exact ⟨hw, fun hsize => ⟨[], hr hsize, fun _ h => h⟩⟩
  | @step later a _ ih =>
    obtain ⟨hle, hwhite⟩ := size_le_action ih.1 a
    refine ⟨hwhite, fun hsize => ?_⟩
    obtain ⟨more, hmore, hspent⟩ := ih.2 (hle.trans hsize)
    refine ⟨a.issued later ++ more, ?_, fun id hid => ?_⟩
    · rw [List.append_assoc]
      exact hmore.run a hsize
    · have hold := hspent id hid
      rcases Action.outline later a with ⟨shape, payload, rfl⟩ | ⟨values, words, rfl⟩ |
        ⟨ho, hfree, -, -⟩
      · exact hold.allocate shape payload
      · exact hold.collect hmore.white hmore.listed.size values words
      · exact hold.outline ho hfree

/-- **A handle is issued once.** Whatever was done with a heap, as long as every slot has a handle:

* no two allocations issued one handle;
* a handle that is live was issued, and its slot is at its generation;
* a handle that was issued and is not live any more is never live again;
* the free list names empty slots, none of them retired and none of them twice. -/
theorem handles_issued_once (hi : s.Issued ids) (hsize : s.heap.slots.size ≤ 2 ^ 32) :
    ids.Nodup ∧
    (∀ id, s.heap.isLive id = true → id ∈ ids ∧
      ∃ slot, s.heap.slots[id.index.toNat]? = some slot ∧ slot.generation = id.generation) ∧
    (∀ id ∈ ids, s.heap.isLive id = false → ∀ later, s.Leads later →
      later.heap.slots.size ≤ 2 ^ 32 → later.heap.isLive id = false) ∧
    s.heap.freeList.toList.Nodup ∧
    ∀ i ∈ s.heap.freeList, (∃ slot, s.heap.slots[i.toNat]? = some slot ∧ slot.cell = none) ∧
      ¬s.heap.Retired ids i := by
  obtain ⟨hwhite, hreg⟩ := hi.registered
  have hr := hreg hsize
  have hspent {id : Handle} (hid : id ∈ ids) (hdead : s.heap.isLive id = false) :
      s.heap.Spent id := (hr.spent id hid).resolve_left (by simp [hdead])
  refine ⟨hr.nodup, fun id hl => ⟨hr.issued id hl, ?_⟩, fun id hid hdead later hleads hlater => ?_,
    hr.listed.nodup, fun i hfree => ⟨hr.listed.empty i hfree, fun ⟨hissued, hdead⟩ => ?_⟩⟩
  · obtain ⟨c, hc⟩ := isLive_iff.mp hl
    obtain ⟨slot, hslot, hg, -⟩ := cell?_eq_some.mp hc
    exact ⟨slot, hslot, hg⟩
  · obtain ⟨_, -, hkept⟩ := (hleads.registered hwhite hreg).2 hlater
    exact (hkept id (hspent hid hdead)).not_live
  · -- no generation is past the greatest one, so the slot is empty for good and not on the list
    obtain ⟨slot, -, hpast | ⟨-, -, hunlisted⟩⟩ := hspent hissued hdead
    · rw [UInt16.lt_iff_toNat_lt] at hpast
      have := slot.generation.toNat_lt
      simp at hpast
      omega
    · exact hunlisted hfree

/-- A slot that is used again. -/
def reused : Ledger :=
  (Action.allocate ⟨0⟩ .plain).run
    ((Action.collect [] []).run
      ((Action.anchor .clearTemporaries).run
        ((Action.allocate ⟨0⟩ .plain).run { heap := .new {} })))

theorem reused_issued : reused.Issued [⟨0, 1⟩, ⟨0, 0⟩] := by
  have := (((Ledger.Issued.new {}).step (.allocate ⟨0⟩ .plain)).step
    (.anchor .clearTemporaries)).step (.collect [] []) |>.step (.allocate ⟨0⟩ .plain)
  exact this

/-- The second cell of a slot has another handle than the first, which stays dead. -/
theorem handles_issued_once_reused : reused.Issued [⟨0, 1⟩, ⟨0, 0⟩] ∧
    reused.heap.isLive ⟨0, 1⟩ = true ∧ reused.heap.isLive ⟨0, 0⟩ = false ∧
    ∀ later, reused.Leads later → later.heap.slots.size ≤ 2 ^ 32 →
      later.heap.isLive ⟨0, 0⟩ = false := by
  have hdead : reused.heap.isLive ⟨0, 0⟩ = false := by decide +kernel
  exact ⟨reused_issued, by decide +kernel, hdead,
    (handles_issued_once reused_issued (by decide +kernel)).2.2.1 _ (by simp) hdead⟩

end Heap

end ScriptMachine
