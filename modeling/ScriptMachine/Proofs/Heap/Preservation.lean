import ScriptMachine.Proofs.Heap.Edits
import ScriptMachine.Proofs.Shape.Sweeping

/-! # What operations on cells preserve

Whatever the heap is like and however they end, operations on properties keep all payloads, the free slots, the
names that have been interned, the persistent roots and the root shapes (`Heap.Preserves`). Those that write do so
in edits of one cell (`Edits.preserves`). -/

namespace ScriptMachine

/-- A transition keeps root shapes. -/
theorem ShapeTable.Transition.founds {t t' : ShapeTable} {source target id : ShapeId} {shape : Shape}
    (hs : t.Transition source t' target) (h : t.Founds shape id) : t'.Founds shape id := by
  cases hs with
  | stay => exact h
  | add attributes _ => exact h.addProperty source _ attributes
  | remove name => exact h.removeProperty source name
  | prototype v => exact h.changePrototype source v
  | attributes name attributes => exact h.changeAttributes source name attributes

namespace Heap

/-- **What operations on cells preserve**: payloads and free slots, names, persistent roots and root shapes. -/
structure Preserves (h h' : Heap) : Prop where
  retains : h.Retains h'
  names : h.atoms.Ordered → h'.atoms.Ordered ∧ h'.atoms.Extends h.atoms
  roots : h'.roots = h.roots ∧ h'.freeRoots = h.freeRoots
  shapes : ∀ shape id, h.shapes.Founds shape id → h'.shapes.Founds shape id

variable {h h' h'' : Heap} {id : Handle}

theorem Preserves.refl (h : Heap) : h.Preserves h := ⟨.refl h, fun ho => ⟨ho, .refl _⟩, ⟨rfl, rfl⟩, fun _ _ h => h⟩

theorem Preserves.trans (h₁ : h.Preserves h') (h₂ : h'.Preserves h'') : h.Preserves h'' where
  retains := h₁.retains.trans h₂.retains
  names ho := by
    obtain ⟨ho', he⟩ := h₁.names ho
    obtain ⟨ho'', he'⟩ := h₂.names ho'
    exact ⟨ho'', he'.trans he⟩
  roots := ⟨h₂.roots.1.trans h₁.roots.1, h₂.roots.2.trans h₁.roots.2⟩
  shapes shape id h := h₂.shapes shape id (h₁.shapes shape id h)

/-- A change that leaves names, roots and shapes alone. -/
theorem Preserves.of_retains (hr : h.Retains h') (ha : h'.atoms = h.atoms) (hroots : h'.roots = h.roots)
    (hfree : h'.freeRoots = h.freeRoots) (hs : h'.shapes = h.shapes) : h.Preserves h' :=
  ⟨hr, fun ho => by rw [ha]; exact ⟨ho, .refl _⟩, ⟨hroots, hfree⟩, fun _ _ h => by rwa [hs]⟩

/-- A change of neither slots nor names, roots or shapes. -/
theorem Preserves.of_slots (hs : h'.slots = h.slots) (hf : h'.freeList = h.freeList)
    (ha : h'.atoms = h.atoms) (hr : h'.roots = h.roots) (hfree : h'.freeRoots = h.freeRoots)
    (ht : h'.shapes = h.shapes) : h.Preserves h' :=
  .of_retains (.of_slots hs hf) ha hr hfree ht

theorem preserves_intern (h : Heap) (name : String) : h.Preserves (h.intern name).2 :=
  ⟨.of_slots rfl rfl, fun ho => ⟨(AtomTable.intern_spec ho name).1, (AtomTable.intern_spec ho name).2.1⟩,
    ⟨rfl, rfl⟩, fun _ _ h => h⟩

theorem preserves_rootShape (h : Heap) (kind : CellKind) (prototype : Value) :
    h.Preserves (h.rootShape kind prototype).2 :=
  ⟨.of_slots rfl rfl, fun ho => ⟨ho, .refl _⟩, ⟨rfl, rfl⟩, fun _ _ h => h.root kind prototype⟩

theorem preserves_pushTemporary (h : Heap) (v : Value) : h.Preserves (h.pushTemporary v) := by
  unfold pushTemporary
  split
  · exact .of_slots rfl rfl rfl rfl rfl rfl
  · exact .refl h

theorem preserves_truncateTemporaries (h : Heap) (mark : Nat) :
    h.Preserves (h.truncateTemporaries mark) := by
  unfold truncateTemporaries
  split
  · exact .refl h
  · exact .of_slots rfl rfl rfl rfl rfl rfl

theorem preserves_getIndex? (h : Heap) (id : Handle) (index : UInt32) :
    h.Preserves (h.getIndex? id index).2 := by
  unfold getIndex?
  split
  · exact .refl h
  · exact preserves_intern h _

theorem preserves_refreshFootprint (h : Heap) (id : Handle) : h.Preserves (h.refreshFootprint id) := by
  have hframe := refreshFootprint_frame h id
  refine .of_retains (retains_refreshFootprint h id) ?_ ?_ ?_ ?_
  all_goals rw [hframe]

theorem preserves_writeSlot (h : Heap) (id : Handle) (shape : ShapeId) (offset : Nat) (v : Value) :
    h.Preserves (h.writeSlot id shape offset v) := by
  have hwrite : h.Preserves (h.modifyCell id fun c => { c.setSlot offset v with shape }) :=
    .of_retains (retains_modifyCell h id fun c => fixture_setSlot c offset v shape) rfl rfl rfl rfl
  unfold writeSlot
  split
  case h_1 => exact .refl h
  case h_2 =>
    dsimp only
    split
    · exact hwrite
    · exact hwrite.trans (preserves_refreshFootprint _ id)

/-- **Edits** add names, and make transitions. -/
theorem Edits.preserves (he : Edits id h h') (hr : h.Retains h') : h.Preserves h' := by
  suffices hs : (h.atoms.Ordered → h'.atoms.Ordered ∧ h'.atoms.Extends h.atoms) ∧
      (h'.roots = h.roots ∧ h'.freeRoots = h.freeRoots) ∧
      ∀ shape id, h.shapes.Founds shape id → h'.shapes.Founds shape id from
    ⟨hr, hs.1, hs.2.1, hs.2.2⟩
  clear hr
  induction he with
  | refl => exact ⟨fun ho => ⟨ho, .refl _⟩, ⟨rfl, rfl⟩, fun _ _ h => h⟩
  | tail _ hedit ih =>
    obtain ⟨hnames, hroots, hshapes⟩ := ih
    cases hedit with
    | intern name =>
      refine ⟨fun ho => ?_, hroots, hshapes⟩
      obtain ⟨ho', he'⟩ := hnames ho
      obtain ⟨ho'', he'', -⟩ := AtomTable.intern_spec ho' name
      exact ⟨ho'', he''.trans he'⟩
    | rewrite _ htransition _ =>
      exact ⟨hnames, hroots, fun shape id h => htransition.founds (hshapes shape id h)⟩
    | count =>
      rw [refreshFootprint_frame]
      exact ⟨hnames, hroots, hshapes⟩

/-- An operation that preserves all that, also when it fails. -/
def Preserving {α : Type} (x : HeapM α) : Prop := ∀ h : Heap, h.Preserves (leaves (x h))

namespace Preserving

theorem setProperty (id : Handle) (name : Atom) (value : Value) :
    Preserving (setProperty id name value) := fun h =>
  (setProperty_edits h id name value).preserves (Retaining.setProperty id name value h)

theorem setIndex (id : Handle) (index : UInt32) (value : Value) :
    Preserving (setIndex id index value) := fun h =>
  (setIndex_edits h id index value).preserves (Retaining.setIndex id index value h)

theorem defineProperty (id : Handle) (name : Atom) (value : Value) (attributes : Attributes) :
    Preserving (defineProperty id name value attributes) := fun h =>
  (defineProperty_edits h id name value attributes).preserves
    (Retaining.defineProperty id name value attributes h)

theorem deleteProperty (id : Handle) (name : Atom) : Preserving (deleteProperty id name) := fun h =>
  (deleteProperty_edits h id name).preserves (Retaining.deleteProperty id name h)

theorem setPrototype (id : Handle) (prototype : Value) : Preserving (setPrototype id prototype) :=
  fun h => (setPrototype_edits h id prototype).preserves (Retaining.setPrototype id prototype h)

end Preserving

/-- **A collection** keeps root shapes whose prototype is not a cell. -/
theorem founds_collect {shape : Shape} {s : ShapeId} (hw : h.AllWhite) (hs : h.shapes.Founds shape s)
    (hp : shape.prototype.cell? = none) (values : List Value) (words : List UInt64) :
    (h.collect values words).2.shapes.Founds shape s := by
  obtain ⟨inUse, hshapes, -⟩ := collect_shapes hw values words
  rw [hshapes]
  refine hs.sweep inUse ?_
  unfold prototypeAlive
  rw [hp]

end Heap

end ScriptMachine
