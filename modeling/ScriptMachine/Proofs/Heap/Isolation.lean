import ScriptMachine.Proofs.Heap.Ledger

/-! # Cells are isolated

Cells share shapes, and a cell that owns a dictionary changes it in place. Still, whatever is done to
one cell cannot be seen at another one (`cells_are_isolated`): a shared shape is never changed, and a
dictionary is the shape of one cell only. This holds for reported writes that are replayed, too, and
across collections that give shapes back for others to use. -/

namespace ScriptMachine

/-- What a cell is like, apart from where it is stored. -/
structure View where
  /-- The names of its properties in order, with their attributes and values. -/
  properties : List (Atom × Attributes × Value)
  /-- Its elements, or what else its kind has. -/
  payload : Payload
  /-- Its prototype. -/
  prototype : Value

namespace Heap

/-- What the cell is like that a handle names. -/
def view? (h : Heap) (id : Handle) : Option View :=
  (h.cell? id).map fun c =>
    { properties := (h.shapes.get c.shape).properties.toList.map fun p =>
        (p.name, p.attributes, c.slot p.offset)
      payload := c.payload
      prototype := (h.shapes.get c.shape).prototype }

variable {h h' : Heap} {s : Ledger} {a : Action} {id other : Handle} {c : Cell}

/-- Other cells look as they did. -/
theorem Spares.view? (hs : Spares id h h') (hne : other ≠ id) : h'.view? other = h.view? other := by
  unfold Heap.view?
  rw [hs.cells other hne]
  cases hcell : h.cell? other with
  | none => rfl
  | some c =>
    simp only [Option.map_some]
    rw [hs.layouts other c hne hcell]

/-- **A shared shape in use is never changed**, as long as the cell that uses it lives. -/
theorem Ledger.Sound.layout (hs : s.Sound) (ha : a.Allowed s) (hcell : s.heap.cell? id = some c)
    (hd : (s.heap.shapes.get c.shape).dictionary = false)
    (hl : (a.run s).heap.isLive id = true) :
    (a.run s).heap.shapes.get c.shape = s.heap.shapes.get c.shape := by
  have hshared : s.heap.shapes.Shared c.shape := ⟨hs.housed.live id c hcell, hd⟩
  by_cases hc : ∃ values words, a = .collect values words
  · obtain ⟨values, words, rfl⟩ := hc
    obtain ⟨c', hcell'⟩ := isLive_iff.mp hl
    obtain rfl : c = c' := Option.some.inj
      (hcell.symm.trans ((cell?_collect hs.housed.white values words).mp hcell').1)
    exact shape_collect hs.housed.white values words hcell'
  · exact ((Action.lasts hs ha fun values words h => hc ⟨values, words, h⟩).shared c.shape hshared).2

/-- **Cells are isolated from each other.** Whatever may be done to a cell, with whatever outcome,
leaves any other cell with its properties, their order, attributes and values, with its elements and
its prototype. No dictionary is the shape of two cells, and nothing that may be done changes a shared
shape in use. -/
theorem cells_are_isolated (hr : s.Reached Action.Allowed) :
    (∀ (a : Action) id other, a.Allowed s → a.target? = some id → other ≠ id →
      (a.run s).heap.view? other = s.heap.view? other) ∧
    (∀ id other c d, s.heap.cell? id = some c → s.heap.cell? other = some d → other ≠ id →
      c.shape = d.shape → (s.heap.shapes.get c.shape).dictionary = false) ∧
    ∀ (a : Action) id c, a.Allowed s → s.heap.cell? id = some c →
      (s.heap.shapes.get c.shape).dictionary = false → (a.run s).heap.isLive id = true →
      (a.run s).heap.shapes.get c.shape = s.heap.shapes.get c.shape := by
  have hs := hr.sound fun _ _ h => h
  refine ⟨fun a id other ha ht hne => (Action.spares hs ha ht).2.2.view? hne,
    fun id other c d hc hd hne hsame => ?_, fun a id c ha hcell hd hl => hs.layout ha hcell hd hl⟩
  by_contra hdict
  exact hne (hs.housed.owner id c other d hc hd hsame (by simpa using hdict)).symm

/-- An object does not show a write to another one of its shape. -/
theorem cells_are_isolated_twins : twins.heap.isLive ⟨0, 0⟩ = true ∧
    twins.heap.isLive ⟨1, 0⟩ = true ∧ ∀ value,
      ((Action.setIndex ⟨0, 0⟩ 7 value).run twins).heap.view? ⟨1, 0⟩ = twins.heap.view? ⟨1, 0⟩ :=
  ⟨twins_live.1, twins_live.2, fun _ =>
    (cells_are_isolated twins_reached).1 _ ⟨0, 0⟩ ⟨1, 0⟩ trivial rfl (by decide)⟩

end Heap

end ScriptMachine
