import ScriptMachine.Proofs.Heap.Operations

/-! # Faults of heap operations

A write to a cell that fails has changed nothing, and fails on account of the handle only if no cell
has it (`Sturdy`). So a write can be tried again after a collection. -/

namespace ScriptMachine

namespace Heap

/-- A failure of the operation changes nothing, and is about the handle only if it is stale. -/
def Sturdy {α : Type} (id : Handle) (x : HeapM α) (h : Heap) : Prop :=
  ∀ fault h', x h = .error fault h' → h' = h ∧ (fault = .staleHandle → h.cell? id = none)

variable {α : Type} {x : HeapM α} {h : Heap} {id : Handle} {c : Cell} {name : Atom} {value : Value}
  {attributes : Attributes}

theorem putNamed_ok (hcell : h.cell? id = some c) :
    ∃ outcome h', putNamed id name value attributes h = .ok outcome h' := by
  cases hl : h.shapes.lookup? c.shape name with
  | none => exact ⟨_, _, putNamed_none hcell hl⟩
  | some p =>
    rw [putNamed_some hcell hl]
    split
    · exact ⟨_, _, rfl⟩
    · exact ⟨_, _, rfl⟩

theorem setIndex_sturdy (index : UInt32) : Sturdy id (setIndex id index value) h := by
  intro fault h' he
  cases hcell : h.cell? id with
  | none =>
    simp only [setIndex, bind, EStateM.bind, requireCell_none hcell] at he
    cases he
    exact ⟨rfl, fun _ => rfl⟩
  | some c =>
    rcases setIndex_cases hcell index value with
      ⟨heq, -⟩ | heq | ⟨e, named, -, -, -, heq⟩ | ⟨p, -, -, heq⟩
    · have hcell' : (h.internIndex index).2.cell? id = some c := hcell
      obtain ⟨outcome, h'', ho⟩ := putNamed_ok hcell'
      rw [heq, ho] at he
      cases he
    · rw [heq] at he
      cases he
    · rcases putElement_cases hcell index.toNat e.items.size e.capacity named value with
        hout | ⟨room, hok⟩
      · rw [heq, hout] at he
        cases he
        exact ⟨rfl, fun h => by cases h⟩
      · rw [heq, hok] at he
        cases he
    · obtain ⟨outcome, h'', ho⟩ := putNamed_ok hcell
      rw [heq, ho] at he
      cases he

theorem setArrayLength_sturdy (length : Value) : Sturdy id (setArrayLength id length) h := by
  intro fault h' he
  rcases setArrayLength_fits h id length with ⟨fault', hf, heq⟩ | heq | ⟨_, _, _, -, -, -, heq⟩
  · rw [heq] at he
    obtain ⟨rfl, rfl⟩ := EStateM.Result.error.inj he
    exact ⟨rfl, fun hs => absurd hs hf⟩
  · rw [heq] at he
    cases he
  · rw [heq] at he
    cases he

/-- **A write to a property.** -/
theorem setProperty_sturdy : Sturdy id (setProperty id name value) h := by
  intro fault h' he
  cases hcell : h.cell? id with
  | none =>
    simp only [setProperty, bind, EStateM.bind, requireCell_none hcell] at he
    cases he
    exact ⟨rfl, fun _ => rfl⟩
  | some c =>
    rw [← hcell]
    rcases setProperty_cases hcell name value with
      ⟨index, -, -, heq⟩ | ⟨-, -, heq⟩ | heq | ⟨-, heq⟩
    · rw [heq] at he
      exact setIndex_sturdy index fault h' he
    · rw [heq] at he
      simp only [bind, EStateM.bind] at he
      cases hl : setArrayLength id value h with
      | ok _ h'' =>
        rw [hl] at he
        cases he
      | error fault' h'' =>
        rw [hl] at he
        obtain ⟨rfl, rfl⟩ := EStateM.Result.error.inj he
        exact setArrayLength_sturdy value fault' h'' hl
    · rw [heq] at he
      cases he
    · obtain ⟨outcome, h'', ho⟩ := putNamed_ok hcell
      rw [heq, ho] at he
      cases he

/-- **Defining a property of a live cell** does not fail. -/
theorem defineProperty_ok (hcell : h.cell? id = some c) :
    ∃ h', defineProperty id name value attributes h = .ok () h' := by
  obtain ⟨c', hcell', hshape, -⟩ := clearElement_cell hcell name
  cases hl : (h.clearElement id name).shapes.lookup? c'.shape name with
  | none =>
    obtain ⟨outcome, h', ho⟩ := @putNamed_ok _ id c' name value attributes hcell'
    refine ⟨h', ?_⟩
    simp only [defineProperty, bind, EStateM.bind, requireCell_some hcell, get_apply, modify_apply, ← hshape, hl]
    simp [discard, Functor.mapConst, EStateM.map, ho]
  | some p =>
    by_cases ha : (p.attributes == attributes) = true
    · simp only [defineProperty, bind, EStateM.bind, requireCell_some hcell, get_apply, modify_apply, ← hshape, hl, ha, if_true, pure, EStateM.pure]
      exact ⟨_, rfl⟩
    · simp only [defineProperty, bind, EStateM.bind, requireCell_some hcell, get_apply, modify_apply, ← hshape, hl, ha]
      exact ⟨_, rfl⟩

/-- **Deleting a property of a live cell** does not fail. -/
theorem deleteProperty_ok (hcell : h.cell? id = some c) :
    ∃ deleted h', deleteProperty id name h = .ok deleted h' := by
  have hrest : ∃ deleted h', h.deleteNamed id c name h = .ok deleted h' := by
    obtain ⟨deleted, heq | heq⟩ := deleteNamed_cases h id c name
    · exact ⟨deleted, _, heq⟩
    · exact ⟨deleted, _, heq⟩
  simp only [deleteProperty, bind, EStateM.bind, requireCell_some hcell, get_apply]
  cases h.atoms.arrayIndex? name with
  | none => exact hrest
  | some index =>
    by_cases hd : (h.denseElement? id index).isSome = true
    · simp only [hd, if_true]
      exact ⟨_, _, rfl⟩
    · simp only [hd]
      exact hrest

end Heap

/-! ## Writes that are refused

Each operation on properties makes all its checks before it changes anything, so one that fails or
refuses leaves the heap as it was. The exception are the interned names: a write to an index outside
the elements interns the name of the index before it can find the property read-only.

The main statement is `declined_write_keeps`. -/

/-- Interning a name keeps the numbers of the others, whatever the table holds. -/
theorem AtomTable.extends_intern (t : AtomTable) (name : String) :
    (t.intern name).2.Extends t := by
  unfold intern
  split
  · exact .refl t
  · intro i entry hi
    obtain ⟨hlt, rfl⟩ := Array.getElem?_eq_some_iff.mp hi
    exact Array.getElem?_push_lt hlt

namespace Heap

variable {α : Type} {refuses : α → Prop} {x : HeapM α} {h h' : Heap} {id : Handle} {c : Cell}
  {name : Atom} {value : Value}

/-- The second heap is the first one but for names that were interned since. -/
structure Untouched (h h' : Heap) : Prop where
  /-- Nothing else differs. -/
  rest : h' = { h with atoms := h'.atoms }
  /-- The names of the first heap keep their numbers. -/
  atoms : h'.atoms.Extends h.atoms

/-- **What a result says of the heap it started from**: a fault leaves that very heap, and an outcome
that refuses leaves it but for interned names. -/
def Declines (refuses : α → Prop) (h : Heap) : EStateM.Result PropertyFault Heap α → Prop
  | .error _ h' => h' = h
  | .ok outcome h' => refuses outcome → h.Untouched h'

theorem Untouched.refl (h : Heap) : h.Untouched h := ⟨rfl, .refl _⟩

theorem Sturdy.declines (hs : Sturdy id x h)
    (hr : ∀ outcome h', x h = .ok outcome h' → refuses outcome → h.Untouched h') :
    Declines refuses h (x h) := by
  cases hx : x h with
  | ok outcome h' => exact hr outcome h' hx
  | error fault h' => exact (hs fault h' hx).1

/-- An operation that checks for its cell first fails on a stale handle. -/
theorem declines_of_stale {f : Cell → HeapM α} (hcell : h.cell? id = none) :
    Declines refuses h ((requireCell id >>= f) h) := by
  simp only [bind, EStateM.bind, requireCell_none hcell]
  rfl

/-! ### Outcomes that refuse -/

theorem putNamed_refused {attributes : Attributes} (hcell : h.cell? id = some c)
    (hput : putNamed id name value attributes h = .ok .readOnly h') : h' = h := by
  cases hl : h.shapes.lookup? c.shape name with
  | none =>
    rw [putNamed_none hcell hl] at hput
    cases hput
  | some p =>
    rw [putNamed_some hcell hl] at hput
    split at hput
    · exact (EStateM.Result.ok.inj hput).2.symm
    · cases hput

theorem setIndex_refused {index : UInt32} (hcell : h.cell? id = some c)
    (hput : setIndex id index value h = .ok .readOnly h') : h.Untouched h' := by
  rcases setIndex_cases hcell index value with
    ⟨heq, -⟩ | heq | ⟨e, named, -, -, -, heq⟩ | ⟨p, -, -, heq⟩
  · -- the name of the index was interned on the way
    obtain rfl := putNamed_refused (h := (h.internIndex index).2) hcell (heq.symm.trans hput)
    exact ⟨rfl, h.atoms.extends_intern _⟩
  · obtain rfl := (EStateM.Result.ok.inj (heq.symm.trans hput)).2
    exact .refl h
  · rcases putElement_cases hcell index.toNat e.items.size e.capacity named value with
      hout | ⟨room, hok⟩
    · rw [heq, hout] at hput
      cases hput
    · rw [heq, hok] at hput
      cases hput
  · obtain rfl := putNamed_refused hcell (heq.symm.trans hput)
    exact .refl _

theorem setProperty_refused (hcell : h.cell? id = some c)
    (hput : setProperty id name value h = .ok .readOnly h') : h.Untouched h' := by
  rcases setProperty_cases hcell name value with
    ⟨index, -, -, heq⟩ | ⟨-, -, heq⟩ | heq | ⟨-, heq⟩
  · exact setIndex_refused hcell (heq.symm.trans hput)
  · rw [heq] at hput
    cases hset : setArrayLength id value h <;>
      simp only [hset, bind, EStateM.bind] at hput <;> cases hput
  · obtain rfl := (EStateM.Result.ok.inj (heq.symm.trans hput)).2
    exact .refl h
  · obtain rfl := putNamed_refused hcell (heq.symm.trans hput)
    exact .refl _

theorem deleteNamed_refused (hdelete : h.deleteNamed id c name h = .ok false h') : h' = h := by
  unfold deleteNamed at hdelete
  split at hdelete
  · exact (EStateM.Result.ok.inj hdelete).2.symm
  · cases hl : h.shapes.lookup? c.shape name with
    | none =>
      rw [hl] at hdelete
      cases hdelete
    | some p =>
      rw [hl] at hdelete
      dsimp only at hdelete
      split at hdelete
      · exact (EStateM.Result.ok.inj hdelete).2.symm
      · cases hdelete

theorem deleteProperty_refused (hcell : h.cell? id = some c)
    (hdelete : deleteProperty id name h = .ok false h') : h' = h := by
  simp only [deleteProperty, bind, EStateM.bind, requireCell_some hcell, get_apply] at hdelete
  cases hi : h.atoms.arrayIndex? name with
  | none =>
    rw [hi] at hdelete
    exact deleteNamed_refused hdelete
  | some index =>
    rw [hi] at hdelete
    by_cases hd : (h.denseElement? id index).isSome = true
    · simp only [hd, if_true] at hdelete
      cases hdelete
    · simp only [hd] at hdelete
      exact deleteNamed_refused hdelete

/-! ### The operations -/

theorem setIndex_declines (h : Heap) (id : Handle) (index : UInt32) (value : Value) :
    Declines (· = .readOnly) h (setIndex id index value h) := by
  cases hcell : h.cell? id with
  | none => exact declines_of_stale hcell
  | some c =>
    refine (setIndex_sturdy index).declines fun outcome h' hput hr => ?_
    subst hr
    exact setIndex_refused hcell hput

theorem setProperty_declines (h : Heap) (id : Handle) (name : Atom) (value : Value) :
    Declines (· = .readOnly) h (setProperty id name value h) := by
  cases hcell : h.cell? id with
  | none => exact declines_of_stale hcell
  | some c =>
    refine setProperty_sturdy.declines fun outcome h' hput hr => ?_
    subst hr
    exact setProperty_refused hcell hput

theorem defineProperty_declines (h : Heap) (id : Handle) (name : Atom) (value : Value)
    (attributes : Attributes) :
    Declines (fun _ => False) h (defineProperty id name value attributes h) := by
  cases hcell : h.cell? id with
  | none => exact declines_of_stale hcell
  | some c =>
    obtain ⟨h', heq⟩ : ∃ h', defineProperty id name value attributes h = .ok () h' :=
      defineProperty_ok hcell
    rw [heq]
    exact False.elim

theorem deleteProperty_declines (h : Heap) (id : Handle) (name : Atom) :
    Declines (· = false) h (deleteProperty id name h) := by
  cases hcell : h.cell? id with
  | none => exact declines_of_stale hcell
  | some c =>
    obtain ⟨deleted, h', heq⟩ : ∃ deleted h', deleteProperty id name h = .ok deleted h' :=
      deleteProperty_ok hcell
    rw [heq]
    rintro rfl
    rw [deleteProperty_refused hcell heq]
    exact .refl h

/-- A change of prototype checks the whole chain before it moves the cell. -/
theorem movePrototype_declines (h : Heap) (id : Handle) (shape : ShapeId) (prototype : Value) :
    Declines (fun _ => False) h (h.movePrototype id shape prototype h) := by
  unfold movePrototype
  cases h.checkChain id maxPrototypeChain prototype with
  | error fault => exact (rfl : h = h)
  | ok _ => exact False.elim

theorem setPrototype_declines (h : Heap) (id : Handle) (prototype : Value) :
    Declines (fun _ => False) h (setPrototype id prototype h) := by
  cases hcell : h.cell? id with
  | none => exact declines_of_stale hcell
  | some c =>
    have hlast := movePrototype_declines h id c.shape prototype
    simp only [setPrototype, bind, EStateM.bind, requireCell_some hcell, get_apply]
    by_cases hn : (!prototype.isNull) = true
    · simp only [hn, if_true]
      cases h.cellOf? prototype with
      | none => exact (rfl : h = h)
      | some cell =>
        by_cases hobj : (!cell.kind.isObject) = true
        · simp only [hobj, if_true]
          exact (rfl : h = h)
        · simp only [hobj]
          exact hlast
    · simp only [hn]
      exact hlast

/-- **A write that fails or is refused changes nothing.** In every heap, for every handle, live or
stale: when one of the operations on properties reports a fault, the heap is the one it started from,
and when a write finds its property read-only or a deletion answers false, the heap differs from it in
interned names at most. -/
theorem declined_write_keeps (h : Heap) (id : Handle) :
    (∀ name value, Declines (· = .readOnly) h (setProperty id name value h)) ∧
    (∀ index value, Declines (· = .readOnly) h (setIndex id index value h)) ∧
    (∀ name value attributes,
      Declines (fun _ => False) h (defineProperty id name value attributes h)) ∧
    (∀ name, Declines (· = false) h (deleteProperty id name h)) ∧
    (∀ prototype, Declines (fun _ => False) h (setPrototype id prototype h)) :=
  ⟨setProperty_declines h id, setIndex_declines h id, defineProperty_declines h id,
    deleteProperty_declines h id, setPrototype_declines h id⟩

/-- A full array of no elements that has its index zero as a named property, in a heap without room. -/
def crowded : Heap where
  slots := #[{ cell := some ((Cell.new ⟨0⟩ 1 (.array {})).setSlot 0 .null) }]
  shapes := { shapes := #[{ kind := .array, prototype := .null, properties := #[⟨⟨0⟩, 0, .none⟩]
                            index := ({} : Std.TreeMap Atom Nat).insert ⟨0⟩ 0, dictionary := true
                            slotCount := 1 }] }
  atoms := { entries := #[⟨"0", some 0⟩], lookup := ({} : AtomTable).lookup.insert "0" ⟨0⟩ }
  limits := { maxBytes := 0 }
  liveCells := 1

/-- **An append that fails for memory** leaves the named property it was going to move. -/
example : setIndex ⟨0, 0⟩ 0 .undefined crowded = .error .outOfMemory crowded ∧
    crowded.namedIndex? ⟨0, 0⟩ 0 = some ⟨⟨0⟩, 0, .none⟩ := by
  constructor <;> cbv

end Heap

end ScriptMachine
