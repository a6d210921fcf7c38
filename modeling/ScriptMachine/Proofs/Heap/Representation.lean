import ScriptMachine.Proofs.Heap.Balance
import ScriptMachine.Proofs.Shape.History

/-! # How shapes represent layouts

A live shape is consistent (`Shape.Consistent`): its index finds each property at its position, no two
properties share a name or an offset, and the offsets in use and the freed ones divide the slots among
them. A shared shape has freed nothing and stores its properties in their order.

The main statement is `shapes_are_consistent`: shapes are consistent in every table that transitions
lead to and in every heap, and each cell of a heap has a slot for every offset of its shape. -/

namespace ScriptMachine

/-- **A consistent shape.** -/
structure Shape.Consistent (s : Shape) : Prop where
  /-- The index lists the name of each property at its position, and nothing else. -/
  index : ∀ name position, s.index[name]? = some position ↔
    ∃ p : Property, s.properties[position]? = some p ∧ p.name = name
  /-- No two properties share a name. -/
  names : (s.properties.toList.map (·.name)).Nodup
  /-- No two properties share an offset. -/
  offsets : s.offsets.Nodup
  /-- No offset is free twice. -/
  free : s.freeOffsets.Nodup
  /-- No offset is both in use and free. -/
  disjoint : s.offsets.Disjoint s.freeOffsets
  /-- Every slot is in use or free, and nothing else is. -/
  slots : ∀ offset, offset < s.slotCount ↔ offset ∈ s.offsets ∨ offset ∈ s.freeOffsets
  /-- A shared shape has as many properties as there were additions, which are not too many, and stores
  them in their order. -/
  shared : s.dictionary = false → s.freeOffsets = [] ∧ s.properties.size ≤ maxTransitionLength ∧
    s.transitionCount = s.properties.size ∧
    ∀ (position : Nat) (p : Property), s.properties[position]? = some p → p.offset = position

/-- A laid out shape with an exact index is consistent. -/
theorem Shape.Laid.consistent {s : Shape} (hs : s.Laid) (hx : s.Indexed)
    (hr : s.reclaimed = false) : s.Consistent where
  index := hx
  names := hx.names_nodup
  offsets := (List.nodup_append.mp hs.nodup).1
  free := (List.nodup_append.mp hs.nodup).2.1
  disjoint := List.disjoint_of_nodup_append hs.nodup
  slots offset := by rw [← List.mem_append, hs.filled.mem_iff, List.mem_range]
  shared hd := by
    obtain ⟨hf, -, hi⟩ := hs.packed hd
    obtain ⟨hcount, hle⟩ := hs.counted hr hd
    exact ⟨hf, hle, hcount, hi⟩

namespace ShapeTable

variable {t t' : ShapeTable} {id : ShapeId}

/-- **Every step keeps shapes laid out.** -/
theorem Step.laid (ht : t.Laid) (hi : t.Intact) (hs : Step t t') : t'.Laid := by
  have ho := hi.toOrdered
  cases hs with
  | root kind prototype => exact (ht.root ho kind prototype).1
  | add attributes hl hn => exact (ht.addProperty ho hl hn attributes).laid
  | remove name hl => exact (ht.removeProperty ho hl name).laid
  | prototype prototype hl => exact (ht.changePrototype hi hl prototype).laid
  | attributes name attributes hl => exact (ht.changeAttributes ho hl name attributes).laid
  | dictionary hl => exact (ht.toDictionary ho hl).laid
  | sweep alive _ => exact ht.sweep _ alive

theorem Reached.laid (hr : Reached t) : t.Laid := by
  induction hr with
  | empty => exact laid_new
  | step hr hs ih => exact hs.laid ih hr.intact

/-- The shapes of an intact table that are laid out are consistent. -/
theorem Laid.consistent (ht : t.Laid) (hi : t.Intact) (hl : t.isLive id = true) :
    (t.get id).Consistent :=
  (ht id).consistent (hi.indexed id) (isLive_iff.mp hl).2

end ShapeTable

namespace Heap

/-- The properties of a cell are stored in slots that it has. -/
theorem Fitted.stored {h : Heap} (hf : h.Fitted) {id : Handle} {c : Cell} (hcell : h.cell? id = some c)
    {p : Property} (hp : p ∈ (h.shapes.get c.shape).properties) :
    c.slots[p.offset]? = some (c.slot p.offset) := by
  have hlt := ((hf.laid c.shape).used hp).trans_le (hf.room id c hcell)
  simp [Cell.slot, Array.getD_eq_getD_getElem?, hlt]

/-- **Shapes are consistent, and cells have room for them.** Live shapes are consistent in every table
that transitions lead to, properties being added under new names, and in every heap, whatever was done
with it; that includes writes where a lookup or an earlier write said, as long as none of them puts a
cell on a dictionary. A cell of such a heap has a live shape and a slot for every offset that the shape
lays out, so no property is read from a slot that is not there. -/
theorem shapes_are_consistent :
    (∀ t, ShapeTable.Reached t → ∀ id, t.isLive id = true → (t.get id).Consistent) ∧
    ∀ h rs, Surveyed NoDictionary h rs →
      (∀ id, h.shapes.isLive id = true → (h.shapes.get id).Consistent) ∧
      ∀ id c, h.cell? id = some c → h.shapes.isLive c.shape = true ∧
        (h.shapes.get c.shape).slotCount ≤ c.slots.size ∧
        ∀ p ∈ (h.shapes.get c.shape).properties, c.slots[p.offset]? = some (c.slot p.offset) := by
  refine ⟨fun t ht id hl => ht.laid.consistent ht.intact hl, fun h rs hs => ?_⟩
  obtain ⟨hf, -⟩ := hs.fitted
  refine ⟨fun id hl => hf.laid.consistent hf.intact hl, fun id c hcell => ?_⟩
  exact ⟨hf.housed.live id c hcell, hf.room id c hcell, fun p hp => hf.stored hcell hp⟩

/-- The dictionary of an object with seven properties, of which the last ones lie in overflow storage,
and the shape that a first property leads to. -/
theorem shapes_are_consistent_detached : ShapeTable.Reached ShapeTable.small ∧
    (ShapeTable.small.get ⟨1⟩).Consistent ∧
    (∃ rs, Surveyed NoDictionary detached rs) ∧ detached.shapes.isLive ⟨2⟩ = true ∧
    (detached.shapes.get ⟨2⟩).dictionary = true ∧ (detached.shapes.get ⟨2⟩).Consistent ∧
    ∃ c, detached.cell? ⟨0, 0⟩ = some c ∧ c.shape = ⟨2⟩ ∧
      ∀ p ∈ (detached.shapes.get ⟨2⟩).properties, c.slots[p.offset]? = some (c.slot p.offset) := by
  obtain ⟨htables, hheaps⟩ := shapes_are_consistent
  obtain ⟨rs, hs⟩ := detached_surveyed
  obtain ⟨hshapes, hcells⟩ := hheaps detached rs hs
  have hsmall : ShapeTable.small.isLive ⟨1⟩ = true := by
    simp [ShapeTable.isLive, ShapeTable.small_shapes]
  have hlive : detached.shapes.isLive ⟨2⟩ = true := by decide +kernel
  have hshape : detached.shapeOf? ⟨0, 0⟩ = some ⟨2⟩ := by decide +kernel
  obtain ⟨c, hcell, hc⟩ := Option.map_eq_some_iff.mp hshape
  refine ⟨ShapeTable.small_reached, htables _ ShapeTable.small_reached _ hsmall, ⟨rs, hs⟩, hlive,
    by decide +kernel, hshapes _ hlive, c, hcell, hc, ?_⟩
  rw [← hc]
  exact (hcells _ c hcell).2.2

end Heap

end ScriptMachine
