import Mathlib.Logic.Relation
import ScriptMachine.Proofs.Heap.Retention
import ScriptMachine.Proofs.Shape.Integrity

/-! # Edits of one cell

Whatever an operation on properties does to the cell it is given, it does in steps of three kinds
(`Heap.Edit`): a name is interned, the cell is rewritten on its way to another shape, or its bytes are
counted. Operations are chains of such edits whatever the heap is like, be it coherent or not.

An edit spares all other cells (`Heap.Spares`): they stay as they are and so do the shapes they have.
A shared shape is never changed, and a dictionary that is changed in place is the one the cell owns
(`Housed.edit`). -/

namespace ScriptMachine

/-! ### Transitions -/

/-- **How a cell moves** from one shape to another in one step. -/
inductive ShapeTable.Transition (t : ShapeTable) (source : ShapeId) : ShapeTable → ShapeId → Prop
  /-- It stays. -/
  | stay : Transition t source t source
  /-- A property is added. -/
  | add {name : Atom} (attributes : Attributes) : t.lookup? source name = none →
      Transition t source (t.addProperty source name attributes).2.2
        (t.addProperty source name attributes).1
  /-- A property is removed. -/
  | remove (name : Atom) :
      Transition t source (t.removeProperty source name).2.2 (t.removeProperty source name).1
  /-- The prototype is changed. -/
  | prototype (prototype : Value) :
      Transition t source (t.changePrototype source prototype).2
        (t.changePrototype source prototype).1
  /-- The attributes of a property are changed. -/
  | attributes (name : Atom) (attributes : Attributes) :
      Transition t source (t.changeAttributes source name attributes).2
        (t.changeAttributes source name attributes).1

/-- **A transition from a live shape** keeps the table intact. -/
theorem ShapeTable.Transition.moves {t t' : ShapeTable} {source target : ShapeId}
    (hs : t.Transition source t' target) (hi : t.Intact) (hl : t.isLive source = true) :
    t.Moves source t' target ∧ t'.Intact := by
  cases hs with
  | stay => exact ⟨.refl hi.toOrdered hl, hi⟩
  | add attributes hn =>
    exact ⟨(addProperty_spec hi.toOrdered hl hn attributes).moves,
      addProperty_intact hi hl hn attributes⟩
  | remove name =>
    exact ⟨(removeProperty_spec hi.toOrdered hl name).1, removeProperty_intact hi hl name⟩
  | prototype prototype =>
    exact ⟨(changePrototype_spec hi.toOrdered hl prototype).1, changePrototype_intact hi hl prototype⟩
  | attributes name attributes =>
    exact ⟨(changeAttributes_spec hi.toOrdered hl name attributes).1,
      changeAttributes_intact hi hl name attributes⟩

namespace Heap

/-- **One edit** of the cell that a handle names. -/
inductive Edit (id : Handle) (h : Heap) : Heap → Prop
  /-- A name is interned. -/
  | intern (name : String) : Edit id h (h.intern name).2
  /-- The cell is rewritten. -/
  | rewrite {c : Cell} {t : ShapeTable} {f : Cell → Cell} : h.cell? id = some c →
      h.shapes.Transition c.shape t (f c).shape → (f c).kind = c.kind →
      Edit id h ({ h with shapes := t }.modifyCell id f)
  /-- Its bytes are counted. -/
  | count : Edit id h (h.refreshFootprint id)

/-- **A chain of edits** of one cell. -/
abbrev Edits (id : Handle) : Heap → Heap → Prop := Relation.ReflTransGen (Edit id)

/-- **What is spared** by a change of one cell. -/
structure Spares (id : Handle) (h h' : Heap) : Prop where
  /-- All other cells. -/
  cells : ∀ other, other ≠ id → h'.cell? other = h.cell? other
  /-- Their shapes. -/
  layouts : ∀ other c, other ≠ id → h.cell? other = some c →
    h'.shapes.get c.shape = h.shapes.get c.shape
  /-- The kind of the cell that is changed, and whether there is one. -/
  kind : (h'.cell? id).map Cell.kind = (h.cell? id).map Cell.kind
  /-- Shared shapes. -/
  shared : ∀ s, h.shapes.Shared s → h'.shapes.Shared s ∧ h'.shapes.get s = h.shapes.get s
  /-- The edges of additions. -/
  additions : ∀ (key : ShapeId × Atom × Attributes) s, h.shapes.additions[key]? = some s →
    h'.shapes.additions[key]? = some s
  /-- The names. -/
  atoms : h.atoms.Ordered → h'.atoms.Ordered ∧ h'.atoms.Extends h.atoms
  /-- The number of slots. -/
  size : h'.slots.size = h.slots.size
  /-- The free list. -/
  listed : h.FreeListed → h'.FreeListed

variable {h h' h'' : Heap} {id other : Handle} {c : Cell}

theorem Spares.refl (id : Handle) (h : Heap) : Spares id h h :=
  ⟨fun _ _ => rfl, fun _ _ _ _ => rfl, rfl, fun _ hs => ⟨hs, rfl⟩, fun _ _ ha => ha,
    fun ho => ⟨ho, .refl _⟩, rfl, fun hf => hf⟩

theorem Spares.trans (h₁ : Spares id h h') (h₂ : Spares id h' h'') : Spares id h h'' where
  cells other hne := (h₂.cells other hne).trans (h₁.cells other hne)
  layouts other c hne hc :=
    (h₂.layouts other c hne ((h₁.cells other hne).trans hc)).trans (h₁.layouts other c hne hc)
  kind := h₂.kind.trans h₁.kind
  shared s hs := by
    obtain ⟨hs', hget⟩ := h₁.shared s hs
    obtain ⟨hs'', hget'⟩ := h₂.shared s hs'
    exact ⟨hs'', hget'.trans hget⟩
  additions key s ha := h₂.additions key s (h₁.additions key s ha)
  atoms ho := by
    obtain ⟨ho', he⟩ := h₁.atoms ho
    obtain ⟨ho'', he'⟩ := h₂.atoms ho'
    exact ⟨ho'', he'.trans he⟩
  size := h₂.size.trans h₁.size
  listed hf := h₂.listed (h₁.listed hf)

theorem Housed.congr (hh : h.Housed) (hw : h'.AllWhite) (hcell : h'.cell? = h.cell?)
    (hs : h'.shapes = h.shapes) : h'.Housed where
  white := hw
  shapes := by rw [hs]; exact hh.shapes
  live := by rw [hcell, hs]; exact hh.live
  kind := by rw [hcell, hs]; exact hh.kind
  owner := by rw [hcell, hs]; exact hh.owner

/-- **Every edit spares other cells** and leaves all cells housed. -/
theorem Housed.edit (hh : h.Housed) (hi : h.shapes.Intact) (he : Edit id h h') :
    h'.Housed ∧ h'.shapes.Intact ∧ Spares id h h' := by
  cases he with
  | intern name =>
    refine ⟨hh.congr (hh.white.congr rfl) (cell?_congr rfl) rfl, hi, { Spares.refl id h with
      atoms := fun ho => ?_, listed := fun hf => hf.congr rfl rfl }⟩
    obtain ⟨ho', hext, -⟩ := AtomTable.intern_spec ho name
    exact ⟨ho', hext⟩
  | @rewrite c t f hcell hs hkind =>
    obtain ⟨hm, hi'⟩ := hs.moves hi (hh.live id c hcell)
    have hread := cell?_move hcell t f
    refine ⟨hh.move hcell hm rfl hkind, hi', fun other hne => ?_, fun other d hne hd => ?_, ?_,
      fun s hs => hm.grows.shared hs, hm.grows.additions, fun ho => ⟨ho, .refl _⟩,
      by simp [modifyCell], fun hf => ?_⟩
    · rw [hread, if_neg hne]
    · exact (hh.shape_of_other hcell hm hne hd).2
    · rw [hread, if_pos rfl, hcell]
      exact congrArg some hkind
    · have hf' : ({ h with shapes := t } : Heap).FreeListed := hf.congr rfl rfl
      exact hf'.modifyCell f
  | count =>
    have hframe := refreshFootprint_frame h id
    have hcell := cell?_refreshFootprint h id
    have hs : (h.refreshFootprint id).shapes = h.shapes := by rw [hframe]
    have ha : (h.refreshFootprint id).atoms = h.atoms := by rw [hframe]
    exact ⟨hh.congr hh.white.refreshFootprint hcell hs, by rw [hs]; exact hi,
      fun _ _ => by rw [hcell], fun _ _ _ _ => by rw [hs], by rw [hcell],
      fun _ h => by rw [hs]; exact ⟨h, rfl⟩, fun _ _ h => by rw [hs]; exact h,
      fun ho => by rw [ha]; exact ⟨ho, .refl _⟩, (retains_refreshFootprint h id).size,
      fun hf => hf.refreshFootprint⟩

/-- **Chains of edits spare other cells.** -/
theorem Housed.edits (hh : h.Housed) (hi : h.shapes.Intact) (he : Edits id h h') :
    h'.Housed ∧ h'.shapes.Intact ∧ Spares id h h' := by
  induction he with
  | refl => exact ⟨hh, hi, .refl id h⟩
  | tail _ hstep ih =>
    obtain ⟨hh', hi', hs⟩ := ih
    obtain ⟨hh'', hi'', hs'⟩ := hh'.edit hi' hstep
    exact ⟨hh'', hi'', hs.trans hs'⟩

/-! ### Operations are chains of edits -/

section Operations

variable {name : Atom} {value : Value} {attributes : Attributes}

/-- Rewriting a cell that stays at its shape. -/
theorem Edit.stay {f : Cell → Cell} (hcell : h.cell? id = some c) (hs : (f c).shape = c.shape)
    (hk : (f c).kind = c.kind) : Edit id h (h.modifyCell id f) :=
  .rewrite hcell (by rw [hs]; exact .stay) hk

theorem Edit.slot (hcell : h.cell? id = some c) (offset : Nat) (value : Value) :
    Edit id h (h.modifyCell id (·.setSlot offset value)) :=
  .stay hcell (c.setSlot_frame offset value).1 (congrArg Payload.kind (c.setSlot_frame offset value).2)

theorem mapElements_frame (f : Elements → Elements) (c : Cell) :
    (c.mapElements f).shape = c.shape ∧ (c.mapElements f).slots = c.slots ∧
      (c.mapElements f).kind = c.kind := by
  obtain ⟨shape, slots, capacity, payload⟩ := c
  cases payload <;> exact ⟨rfl, rfl, rfl⟩

theorem mapScope_frame (f : ScopeRecord → ScopeRecord) (c : Cell) :
    (c.mapScope f).shape = c.shape ∧ (c.mapScope f).kind = c.kind := by
  obtain ⟨shape, slots, capacity, payload⟩ := c
  cases payload <;> exact ⟨rfl, rfl⟩

theorem elements_edits (h : Heap) (id : Handle) (f : Elements → Elements) :
    Edits id h (h.modifyCell id (Cell.mapElements f)) := by
  cases hcell : h.cell? id with
  | none =>
    rw [modifyCell_of_none _ hcell]
  | some c =>
    obtain ⟨hs, -, hk⟩ := mapElements_frame f c
    exact .single (.stay hcell hs hk)

theorem addNamed_edits (hcell : h.cell? id = some c) (hl : h.shapes.lookup? c.shape name = none)
    (value : Value) (attributes : Attributes) :
    Edits id h (h.addNamed id c.shape name value attributes) := by
  refine .tail (.single (.rewrite hcell (.add attributes hl) ?_)) .count
  exact congrArg Payload.kind (c.setSlot_frame _ value).2

theorem putNamed_edits (h : Heap) (id : Handle) (name : Atom) (value : Value)
    (attributes : Attributes) : Edits id h (leaves (putNamed id name value attributes h)) := by
  cases hcell : h.cell? id with
  | none =>
    rw [putNamed_stale hcell]
    exact .refl
  | some c =>
    cases hl : h.shapes.lookup? c.shape name with
    | none =>
      rw [putNamed_none hcell hl]
      exact addNamed_edits hcell hl value attributes
    | some p =>
      rw [putNamed_some hcell hl]
      split
      case isTrue => exact .refl
      case isFalse => exact .single (.slot hcell p.offset value)

theorem removeNamed_edit (hcell : h.cell? id = some c) (name : Atom) :
    Edit id h (h.removeNamed id c.shape name) := by
  have hs : h.shapes.Transition c.shape (h.shapes.removeProperty c.shape name).2.2
    (h.shapes.removeProperty c.shape name).1 := .remove name
  unfold removeNamed
  generalize h.shapes.removeProperty c.shape name = result at *
  obtain ⟨target, removed, t⟩ := result
  cases removed with
  | none => exact .rewrite hcell hs rfl
  | some p =>
    obtain ⟨hshape, hpayload⟩ := Cell.setSlot_frame { c with shape := target } p.offset .undefined
    refine .rewrite hcell ?_ (congrArg Payload.kind hpayload)
    dsimp only
    rw [hshape]
    exact hs

theorem clearElement_edits (h : Heap) (id : Handle) (name : Atom) :
    Edits id h (h.clearElement id name) := by
  unfold clearElement
  cases h.atoms.arrayIndex? name with
  | none => exact .refl
  | some index => exact elements_edits h id _

theorem storeElement_edits (h : Heap) (id : Handle) (position length capacity : Nat)
    (value : Value) : Edits id h (h.storeElement id position length capacity value) := by
  unfold storeElement
  split
  case isTrue => exact elements_edits h id _
  case isFalse => exact .tail (elements_edits h id _) .count

theorem putElement_edits (hcell : h.cell? id = some c) (position length capacity : Nat)
    (named : Option Property) (value : Value) :
    Edits id h (leaves (putElement id position length capacity named value h)) := by
  rcases putElement_cases hcell position length capacity named value with heq | ⟨room, heq⟩
  · rw [heq]
    exact .refl
  · rw [heq]
    refine .trans ?_ (storeElement_edits _ id position length room value)
    cases named with
    | none => exact .refl
    | some p => exact .single (removeNamed_edit hcell p.name)

theorem setIndex_edits (h : Heap) (id : Handle) (index : UInt32) (value : Value) :
    Edits id h (leaves (setIndex id index value h)) := by
  cases hcell : h.cell? id with
  | none =>
    simp only [setIndex, bind, EStateM.bind, requireCell_none hcell]
    exact .refl
  | some c =>
    rcases setIndex_cases hcell index value with
      ⟨heq, -⟩ | heq | ⟨e, named, -, -, -, heq⟩ | ⟨p, -, -, heq⟩
    · rw [heq]
      exact .trans (.single (.intern _)) (putNamed_edits _ id _ value _)
    · rw [heq]
      exact .refl
    · rw [heq]
      exact putElement_edits hcell _ _ _ named value
    · rw [heq]
      exact putNamed_edits h id p.name value _

theorem setArrayLength_edits (h : Heap) (id : Handle) (length : Value) :
    Edits id h (leaves (setArrayLength id length h)) := by
  rcases setArrayLength_cases h id length with heq | ⟨c, e, n, -, -, heq⟩
  · rw [heq]
  · rw [heq]
    exact .tail (elements_edits h id _) .count

theorem setProperty_edits (h : Heap) (id : Handle) (name : Atom) (value : Value) :
    Edits id h (leaves (setProperty id name value h)) := by
  cases hcell : h.cell? id with
  | none =>
    simp only [setProperty, bind, EStateM.bind, requireCell_none hcell]
    exact .refl
  | some c =>
    rcases setProperty_cases hcell name value with
      ⟨index, -, -, heq⟩ | ⟨-, -, heq⟩ | heq | ⟨-, heq⟩
    · rw [heq]
      exact setIndex_edits h id index value
    · have := setArrayLength_edits h id value
      rw [heq]
      cases hset : setArrayLength id value h <;>
        simpa [hset, leaves, bind, EStateM.bind, pure, EStateM.pure] using this
    · rw [heq]
      exact .refl
    · rw [heq]
      exact putNamed_edits h id name value _

theorem defineProperty_edits (h : Heap) (id : Handle) (name : Atom) (value : Value)
    (attributes : Attributes) :
    Edits id h (leaves (defineProperty id name value attributes h)) := by
  cases hcell : h.cell? id with
  | none =>
    simp only [defineProperty, bind, EStateM.bind, requireCell_none hcell]
    exact .refl
  | some c =>
    obtain ⟨c', hcell', hshape, hshapes, -, -⟩ := clearElement_cell hcell name
    refine .trans (clearElement_edits h id name) ?_
    rcases defineProperty_cases hcell name value attributes with
      ⟨-, heq⟩ | ⟨p, -, ⟨-, heq⟩ | ⟨-, heq⟩⟩
    · rw [heq]
      exact putNamed_edits _ id name value attributes
    · rw [heq]
      exact .single (.slot hcell' p.offset value)
    · rw [heq, ← hshape, ← hshapes]
      exact .single (.rewrite hcell' (.attributes name attributes)
        (congrArg Payload.kind (c'.setSlot_frame p.offset value).2))

theorem deleteProperty_edits (h : Heap) (id : Handle) (name : Atom) :
    Edits id h (leaves (deleteProperty id name h)) := by
  cases hcell : h.cell? id with
  | none =>
    simp only [deleteProperty, bind, EStateM.bind, requireCell_none hcell]
    exact .refl
  | some c =>
    rcases deleteProperty_cases hcell name with heq | heq | heq
    · rw [heq]
    · rw [heq]
      exact clearElement_edits h id name
    · rw [heq]
      exact .single (removeNamed_edit hcell name)

theorem setPrototype_edits (h : Heap) (id : Handle) (prototype : Value) :
    Edits id h (leaves (setPrototype id prototype h)) := by
  cases hcell : h.cell? id with
  | none =>
    simp only [setPrototype, bind, EStateM.bind, requireCell_none hcell]
    exact .refl
  | some c =>
    rcases setPrototype_cases hcell prototype with heq | heq
    · rw [heq]
    · rw [heq]
      exact .single (.rewrite hcell (.prototype prototype) rfl)

end Operations

end Heap

end ScriptMachine
