import ScriptMachine.Proofs.Heap.Representation

/-! # What is read after a write

A cell has a property of its own under a name if the name is an element or a length of it, or if its
shape lists the name (`Heap.own?`). A write that is not refused gives the cell the value under the name,
wherever the value goes: into the slot of the property, into a new slot or a freed one, or among the
elements, from where a named property of the index has moved. What the cell has under other names stays,
because no two properties of a shape share an offset; only the length of an array grows, by one, when an
element is appended.

The main statement is `getProperty_setProperty`. -/

namespace ScriptMachine

/-! ### Slots -/

namespace Cell

theorem slot_ensureSlots (c : Cell) (count offset : Nat) :
    (c.ensureSlots count).slot offset = c.slot offset := by
  unfold ensureSlots
  split
  case isTrue => rfl
  case isFalse =>
    simp only [slot, Array.getD_eq_getD_getElem?, Array.getElem?_append]
    split
    case isTrue => rfl
    case isFalse hout =>
      -- the slots that are added read as the ones that are missing
      have hnone : c.slots[offset]? = none := Array.getElem?_eq_none (by omega)
      rw [hnone, Array.getElem?_replicate]
      split <;> rfl

theorem slot_setSlot_self (c : Cell) (offset : Nat) (value : Value) :
    (c.setSlot offset value).slot offset = value := by
  have hlt : offset < (c.ensureSlots (offset + 1)).slots.size := by
    rw [size_ensureSlots]
    omega
  simp [setSlot, slot, Array.getD_eq_getD_getElem?, hlt]

theorem slot_setSlot_of_ne (c : Cell) {offset other : Nat} (hne : other ≠ offset) (value : Value) :
    (c.setSlot offset value).slot other = c.slot other := by
  refine Eq.trans ?_ (c.slot_ensureSlots (offset + 1) other)
  simp only [setSlot, slot, Array.getD_eq_getD_getElem?]
  rw [Array.getElem?_setIfInBounds_ne (Ne.symm hne)]

end Cell

/-- Properties that share an offset are the same. -/
theorem Shape.Stored.eq_of_offset {s : Shape} (hs : s.Stored) {p q : Property}
    (hp : p ∈ s.properties) (hq : q ∈ s.properties) (h : p.offset = q.offset) : p = q :=
  List.inj_on_of_nodup_map (List.nodup_append.mp hs.nodup).1 (Array.mem_toList_iff.mpr hp)
    (Array.mem_toList_iff.mpr hq) h

/-- The value and the attributes of a property that the shape of a cell lists. -/
def ShapeTable.listed? (t : ShapeTable) (c : Cell) (name : Atom) : Option (Value × Option Attributes) :=
  (t.lookup? c.shape name).map fun p => (c.slot p.offset, some p.attributes)

namespace Heap

/-! ### Properties of a cell -/

/-- What a cell has of its own under a name: an element or a length, which has no attributes, or a
listed property. -/
def property? (h : Heap) (c : Cell) (name : Atom) : Option (Value × Option Attributes) :=
  match h.synthesized? c name with
  | some value => some (value, none)
  | none => h.shapes.listed? c name

/-- **What the cell of a handle has of its own under a name**: the value, and the attributes unless it is
an element or a length. -/
def own? (h : Heap) (id : Handle) (name : Atom) : Option (Value × Option Attributes) :=
  (h.cell? id).bind fun c => h.property? c name

variable {h h' : Heap} {id : Handle} {c c' : Cell} {name other : Atom} {value : Value} {p : Property}
  {attributes : Attributes} {outcome : PutOutcome} {rs : List Report} {index : UInt32} {e : Elements}

theorem own?_of_cell (hcell : h.cell? id = some c) : h.own? id name = h.property? c name := by
  rw [own?, hcell]
  rfl

theorem property?_of_none (hs : h.synthesized? c name = none) :
    h.property? c name = h.shapes.listed? c name := by
  rw [property?, hs]

/-- A lookup finds first what the cell has of its own. -/
theorem getProperty?_of_own {a : Option Attributes} (ho : h.own? id name = some (value, a)) :
    h.getProperty? id name = some value := by
  obtain ⟨c, hcell, hp⟩ := Option.bind_eq_some_iff.mp ho
  simp only [getProperty?, lookupProperty?, hcell]
  unfold property? at hp
  cases hs : h.synthesized? c name with
  | some v =>
    rw [hs] at hp
    exact congrArg (·.map Prod.fst) hp
  | none =>
    rw [hs] at hp
    obtain ⟨p, hl, hp⟩ := Option.map_eq_some_iff.mp hp
    rw [hl]
    exact congrArg (fun found => some found.1) hp

/-- Elements and lengths are those of the payload. -/
theorem synthesized?_congr (ha : h'.atoms = h.atoms) (hp : c'.payload = c.payload) (name : Atom) :
    h'.synthesized? c' name = h.synthesized? c name := by
  unfold synthesized?
  rw [ha, hp]

theorem synthesized?_index (hp : c.payload = .array e) (hi : h.atoms.arrayIndex? name = some index) :
    h.synthesized? c name = (e.items[index.toNat]?).filter fun value => !value.isHole := by
  simp only [synthesized?, hp, hi]
  cases e.items[index.toNat]? with
  | none => rfl
  | some value =>
    rw [Option.filter_some]
    cases hh : value.isHole <;> simp [hh]

theorem synthesized?_of_not_filled (hp : c.payload = .array e)
    (hi : h.atoms.arrayIndex? name = some index) (hf : ¬c.Filled index.toNat) :
    h.synthesized? c name = none := by
  rw [synthesized?_index hp hi, Option.filter_eq_none_iff]
  exact fun value hv hh => hf ⟨e, value, hp, hv, by simpa using hh⟩

/-! ### What operations do to listed properties -/

/-- Writing the slot of a property changes that property. -/
theorem listed?_setSlot (hf : h.Fitted) (hl : h.shapes.lookup? c.shape name = some p) (value : Value)
    (other : Atom) : h.shapes.listed? (c.setSlot p.offset value) other =
      if other = name then some (value, some p.attributes) else h.shapes.listed? c other := by
  have hx := hf.intact.indexed c.shape
  simp only [ShapeTable.listed?, (c.setSlot_frame p.offset value).1]
  by_cases ho : other = name
  · subst ho
    rw [if_pos rfl, hl, Option.map_some, Cell.slot_setSlot_self]
  · rw [if_neg ho]
    cases hq : h.shapes.lookup? c.shape other with
    | none => rfl
    | some q =>
      obtain ⟨hpm, hpn⟩ := hx.name_of_lookup? hl
      obtain ⟨hqm, hqn⟩ := hx.name_of_lookup? hq
      have hne : q.offset ≠ p.offset := fun heq => ho <| by
        rw [← hqn, (hf.laid c.shape).eq_of_offset hqm hpm heq, hpn]
      rw [Option.map_some, Option.map_some, Cell.slot_setSlot_of_ne c hne]

/-- A property that is added leaves the others where they are. -/
theorem listed?_addNamed (hf : h.Fitted) (hcell : h.cell? id = some c)
    (hl : h.shapes.lookup? c.shape name = none) (value : Value) (attributes : Attributes) :
    ∃ c', (h.addNamed id c.shape name value attributes).cell? id = some c' ∧
      c'.payload = c.payload ∧
      ∀ other, (h.addNamed id c.shape name value attributes).shapes.listed? c' other =
        if other = name then some (value, some attributes) else h.shapes.listed? c other := by
  have hlive := hf.housed.live id c hcell
  have hadds := ShapeTable.addProperty_spec hf.intact.toOrdered hlive hl attributes
  have hlays := hf.laid.addProperty hf.intact.toOrdered hlive hl attributes
  have hshapes := (addNamed_frame h id c.shape name value attributes).1
  generalize hadded : h.shapes.addProperty c.shape name attributes = added at hadds hlays hshapes
  obtain ⟨target, offset, t⟩ := added
  refine ⟨{ c.setSlot offset value with shape := target }, ?_, (c.setSlot_frame offset value).2,
    fun other => ?_⟩
  · have hread : ({ h with shapes := t } : Heap).cell? id = some c :=
      (congrFun (cell?_congr rfl) id).trans hcell
    rw [addNamed, hadded, cell?_refreshFootprint, cell?_modifyCell_self, hread]
    rfl
  · have hx := hf.intact.indexed c.shape
    have hlookup (other : Atom) : t.lookup? target other =
        if other = name then some ⟨name, offset, attributes⟩ else h.shapes.lookup? c.shape other :=
      hx.lookup?_push (hadds.moves.grows.ordered.indexed target) hadds.properties hl
    rw [hshapes]
    simp only [ShapeTable.listed?, hlookup]
    by_cases ho : other = name
    · rw [if_pos ho, if_pos ho, Option.map_some]
      exact congrArg some (Prod.ext (c.slot_setSlot_self offset value) rfl)
    · rw [if_neg ho, if_neg ho]
      cases hq : h.shapes.lookup? c.shape other with
      | none => rfl
      | some q =>
        obtain ⟨hqm, hqn⟩ := hx.name_of_lookup? hq
        have hne : q.offset ≠ offset := fun heq => ho <| by
          have hmem (r : Property) : r ∈ (t.get target).properties ↔
              r ∈ (h.shapes.get c.shape).properties ∨ r = ⟨name, offset, attributes⟩ := by
            rw [hadds.properties, Array.mem_push]
          rw [← hqn, (hlays.laid target).eq_of_offset ((hmem q).mpr (.inl hqm))
            ((hmem _).mpr (.inr rfl)) heq]
        rw [Option.map_some, Option.map_some]
        exact congrArg some (Prod.ext (c.slot_setSlot_of_ne hne value) rfl)

/-- A property that is removed leaves the others where they are. -/
theorem listed?_removeNamed (hf : h.Fitted) (hcell : h.cell? id = some c) (name : Atom) :
    ∃ c', (h.removeNamed id c.shape name).cell? id = some c' ∧ c'.payload = c.payload ∧
      ∀ other, other ≠ name →
        (h.removeNamed id c.shape name).shapes.listed? c' other = h.shapes.listed? c other := by
  have hlive := hf.housed.live id c hcell
  have ho := hf.intact.toOrdered
  obtain ⟨hm, hremoved, -, he⟩ := ShapeTable.removeProperty_spec ho hlive name
  unfold removeNamed
  generalize h.shapes.removeProperty c.shape name = result at *
  obtain ⟨target, removed, t⟩ := result
  dsimp only at hm hremoved he ⊢
  have hx := hf.intact.indexed c.shape
  have hlookup {other : Atom} (hne : other ≠ name) :
      t.lookup? target other = h.shapes.lookup? c.shape other := by
    rw [ShapeTable.lookup?, (hx.remove name).lookup?_congr (hm.grows.ordered.indexed target) he,
      hx.lookup?_remove, if_neg hne]
    rfl
  have hread : ({ h with shapes := t } : Heap).cell? id = some c :=
    (congrFun (cell?_congr rfl) id).trans hcell
  rw [cell?_modifyCell_self, hread]
  cases removed with
  | none =>
    refine ⟨_, rfl, rfl, fun other hne => ?_⟩
    simp only [ShapeTable.listed?]
    exact congrArg _ (hlookup hne)
  | some p =>
    refine ⟨_, rfl, (Cell.setSlot_frame _ _ _).2, fun other hne => ?_⟩
    simp only [ShapeTable.listed?, (Cell.setSlot_frame _ _ _).1]
    refine (congrArg _ (hlookup hne)).trans ?_
    cases hq : h.shapes.lookup? c.shape other with
    | none => rfl
    | some q =>
      obtain ⟨hpm, hpn⟩ := hx.name_of_lookup? hremoved.symm
      obtain ⟨hqm, hqn⟩ := hx.name_of_lookup? hq
      have hoffset : q.offset ≠ p.offset := fun heq => hne <| by
        rw [← hqn, (hf.laid c.shape).eq_of_offset hqm hpm heq, hpn]
      rw [Option.map_some, Option.map_some, Cell.slot_setSlot_of_ne _ hoffset]
      rfl

/-! ### What writes do to properties -/

/-- **A write of a name to a cell**: the cell has the value under the name, and under other names what
it had. -/
structure Puts (h : Heap) (id : Handle) (name : Atom) (value : Value) (h' : Heap) : Prop where
  /-- The value is there. -/
  own : ∃ attributes, h'.own? id name = some (value, attributes)
  /-- What the cell has under other names stays. -/
  others : ∀ other, other ≠ name → h'.own? id other = h.own? id other
  /-- So does the number of elements. -/
  length : h'.arrayLength? id = h.arrayLength? id
  /-- So do the names. -/
  atoms : h'.atoms = h.atoms

theorem arrayLength?_congr (hcell : h.cell? id = some c) (hcell' : h'.cell? id = some c')
    (hp : c'.payload = c.payload) : h'.arrayLength? id = h.arrayLength? id := by
  simp only [arrayLength?, hcell, hcell', Cell.elements?, hp]

/-- A write that only changes one listed property. -/
theorem Puts.of_listed (hcell : h.cell? id = some c) (hs : h.synthesized? c name = none)
    (ha : h'.atoms = h.atoms)
    (hl : ∃ c', h'.cell? id = some c' ∧ c'.payload = c.payload ∧ ∀ other,
      h'.shapes.listed? c' other =
        if other = name then some (value, some attributes) else h.shapes.listed? c other) :
    h.Puts id name value h' := by
  obtain ⟨c', hcell', hp, hl⟩ := hl
  refine ⟨⟨some attributes, ?_⟩, fun other hne => ?_, arrayLength?_congr hcell hcell' hp, ha⟩
  · rw [own?_of_cell hcell', property?_of_none ((synthesized?_congr ha hp name).trans hs), hl,
      if_pos rfl]
  · rw [own?_of_cell hcell', own?_of_cell hcell, property?, property?,
      synthesized?_congr ha hp other, hl, if_neg hne]

/-- **A write of a named property** that is no element or length of the cell. -/
theorem putNamed_puts (hf : h.Fitted) (hcell : h.cell? id = some c)
    (hs : h.synthesized? c name = none) (hput : putNamed id name value attributes h = .ok outcome h')
    (ho : outcome ≠ .readOnly) : h.Puts id name value h' ∧ outcome ≠ .element := by
  cases hl : h.shapes.lookup? c.shape name with
  | none =>
    rw [putNamed_none hcell hl] at hput
    cases hput
    exact ⟨.of_listed hcell hs (addNamed_frame h id c.shape name value attributes).2
      (listed?_addNamed hf hcell hl value attributes), nofun⟩
  | some p =>
    rw [putNamed_some hcell hl] at hput
    split at hput
    case isTrue =>
      cases hput
      exact absurd rfl ho
    case isFalse =>
      cases hput
      refine ⟨.of_listed hcell hs rfl ⟨c.setSlot p.offset value, ?_,
        (c.setSlot_frame p.offset value).2, listed?_setSlot hf hl value⟩, nofun⟩
      rw [cell?_modifyCell_self, hcell]
      rfl

/-- A named property that makes room for an element takes nothing else with it. -/
theorem dropNamed_cell (hf : h.Fitted) (hcell : h.cell? id = some c) {named : Option Property}
    (hn : ∀ p, named = some p → p.name = name) :
    ∃ c', (h.dropNamed id c.shape named).cell? id = some c' ∧ c'.payload = c.payload ∧
      (h.dropNamed id c.shape named).atoms = h.atoms ∧
      ∀ other, other ≠ name →
        (h.dropNamed id c.shape named).shapes.listed? c' other = h.shapes.listed? c other := by
  cases named with
  | none => exact ⟨c, hcell, rfl, rfl, fun _ _ => rfl⟩
  | some p =>
    obtain rfl := hn p rfl
    obtain ⟨c', hcell', hp, hl⟩ := listed?_removeNamed hf hcell p.name
    exact ⟨c', hcell', hp, rfl, hl⟩

/-- An element that is stored leaves listed properties as they are. -/
theorem storeElement_cell (hcell : h.cell? id = some c) (hp : c.payload = .array e)
    (position length capacity : Nat) (value : Value) :
    ∃ c', (h.storeElement id position length capacity value).cell? id = some c' ∧
      (∃ capacity', c'.payload = .array
        ⟨if position < length then e.items.setIfInBounds position value else e.items.push value,
          capacity'⟩) ∧
      (h.storeElement id position length capacity value).atoms = h.atoms ∧
      ∀ other, (h.storeElement id position length capacity value).shapes.listed? c' other =
        h.shapes.listed? c other := by
  obtain ⟨shape, slots, overflow, payload⟩ := c
  obtain rfl : payload = .array e := hp
  unfold storeElement
  split
  case isTrue =>
    rw [cell?_modifyCell_self, hcell]
    exact ⟨_, rfl, ⟨_, rfl⟩, rfl, fun _ => rfl⟩
  case isFalse =>
    rw [cell?_refreshFootprint, cell?_modifyCell_self, hcell]
    refine ⟨_, rfl, ⟨_, rfl⟩, ?_, fun _ => ?_⟩
    · rw [refreshFootprint_frame]
      rfl
    · rw [refreshFootprint_frame]
      rfl

/-- No two atoms stand for one index. -/
theorem eq_of_arrayIndex? (ho : h.atoms.Ordered) (hi : h.atoms.arrayIndex? name = some index)
    (hj : h.atoms.arrayIndex? other = some index) : other = name :=
  Option.some.inj ((AtomTable.get?_indexName ho hj).symm.trans (AtomTable.get?_indexName ho hi))

/-- **An element that is written or appended** is there, and what the array has under other names than
its length stays. -/
theorem storeElement_stores (hf : h.Fitted) (ha : h.atoms.Ordered) (hcell : h.cell? id = some c)
    (hp : c.payload = .array e) (hi : h.atoms.arrayIndex? name = some index)
    (hpos : index.toNat ≤ e.items.size) {named : Option Property}
    (hn : ∀ p, named = some p → p.name = name) (hv : value.isHole = false) (room : Nat) :
    let h' := (h.dropNamed id c.shape named).storeElement id index.toNat e.items.size room value
    h'.own? id name = some (value, none) ∧
    (∀ other, other ≠ name → h.atoms.name other ≠ "length" → h'.own? id other = h.own? id other) ∧
    h'.arrayLength? id = some (if index.toNat = e.items.size then e.items.size + 1 else e.items.size) ∧
    h'.atoms = h.atoms := by
  obtain ⟨c₁, hcell₁, hp₁, ha₁, hl₁⟩ := dropNamed_cell hf hcell hn
  obtain ⟨c₂, hcell₂, ⟨capacity, hp₂⟩, ha₂, hl₂⟩ :=
    storeElement_cell hcell₁ (hp₁.trans hp) index.toNat e.items.size room value
  rw [ha₁] at ha₂
  intro h'
  have hitem (j : Nat) : (if index.toNat < e.items.size then e.items.setIfInBounds index.toNat value
      else e.items.push value)[j]? = if j = index.toNat then some value else e.items[j]? := by
    split
    case isTrue hlt =>
      rw [Array.getElem?_setIfInBounds]
      by_cases hj : j = index.toNat
      · rw [if_pos hj, if_pos hj.symm, if_pos hlt]
      · rw [if_neg hj, if_neg (Ne.symm hj)]
    case isFalse hlt =>
      rw [Array.getElem?_push, show index.toNat = e.items.size by omega]
  refine ⟨?_, fun other hne hlength => ?_, ?_, ha₂⟩
  · rw [own?_of_cell hcell₂, property?, synthesized?_index hp₂ (ha₂ ▸ hi), hitem, if_pos rfl,
      Option.filter_some, if_pos (by rw [hv]; rfl)]
  · rw [own?_of_cell hcell₂, own?_of_cell hcell, property?, property?, hl₂, hl₁ other hne]
    suffices h'.synthesized? c₂ other = h.synthesized? c other by rw [this]
    cases hj : h.atoms.arrayIndex? other with
    | some j =>
      have hji : j.toNat ≠ index.toNat := fun heq => hne <| by
        rw [UInt32.toNat_inj.mp heq] at hj
        exact eq_of_arrayIndex? ha hi hj
      rw [synthesized?_index hp₂ (ha₂ ▸ hj), synthesized?_index hp hj, hitem, if_neg hji]
    | none => simp [synthesized?, hp₂, hp, ha₂, h', hj, hlength]
  · simp only [h', arrayLength?, hcell₂, Cell.elements?, hp₂, Option.map_some, Option.some.injEq]
    split
    case isTrue hlt => rw [Array.size_setIfInBounds, if_neg (by omega)]
    case isFalse hlt => rw [Array.size_push, if_pos (by omega)]

theorem kind_of_arrayLength? (hcell : h.cell? id = some c) (hl : (h.arrayLength? id).isSome) :
    c.kind = .array := by
  obtain ⟨shape, slots, capacity, payload⟩ := c
  cases payload with
  | array e => rfl
  | plain | string _ | function _ | activation _ => simp [arrayLength?, hcell, Cell.elements?] at hl

theorem arrayLength?_of_kind (hcell : h.cell? id = some c) (hk : c.kind = .array) :
    ∃ size, h.arrayLength? id = some size := by
  obtain ⟨shape, slots, capacity, payload⟩ := c
  cases payload with
  | array e => exact ⟨e.items.size, by simp [arrayLength?, hcell, Cell.elements?]⟩
  | plain | string _ | function _ | activation _ => cases hk

/-- The name of the length is no index. -/
theorem arrayIndex?_length (ha : h.atoms.Ordered) (hn : h.atoms.name name = "length") :
    h.atoms.arrayIndex? name = none := by
  unfold AtomTable.name at hn
  unfold AtomTable.arrayIndex?
  cases he : h.atoms.entries[name.index.toNat]? with
  | none => rfl
  | some entry =>
    rw [he] at hn
    dsimp only at hn ⊢
    rw [ha.index _ _ he, hn]
    decide +kernel

/-- The length of an array is the number of its elements. -/
theorem own?_length (ha : h.atoms.Ordered) (hn : h.atoms.name name = "length") {size : Nat}
    (hl : h.arrayLength? id = some size) : h.own? id name = some (.ofNat size, none) := by
  have hi := arrayIndex?_length ha hn
  unfold arrayLength? at hl
  cases hcell : h.cell? id with
  | none => simp [hcell] at hl
  | some c =>
    obtain ⟨shape, slots, capacity, payload⟩ := c
    cases payload with
    | array e =>
      simp only [hcell, Cell.elements?, Option.map_some, Option.some.injEq] at hl
      simp [own?_of_cell hcell, property?, synthesized?, hi, hn, hl]
    | plain | string _ | function _ | activation _ => simp [hcell, Cell.elements?] at hl

/-! ### Names of heaps that were reached -/

theorem Edits.atoms_ordered (he : Edits id h h') (ho : h.atoms.Ordered) : h'.atoms.Ordered := by
  induction he with
  | refl => exact ho
  | tail _ he ih =>
    cases he with
    | intern name => exact (AtomTable.intern_spec ih name).1
    | rewrite => exact ih
    | count =>
      rw [refreshFootprint_frame]
      exact ih

theorem writeSlot_atoms (h : Heap) (id : Handle) (shape : ShapeId) (offset : Nat) (value : Value) :
    (h.writeSlot id shape offset value).atoms = h.atoms := by
  unfold writeSlot
  cases h.shapeOf? id with
  | none => rfl
  | some current =>
    dsimp only
    split
    · rfl
    · rw [refreshFootprint_frame]
      rfl

/-- **Every action keeps the names in order.** -/
theorem Action.atoms_ordered (hw : h.AllWhite) (ho : h.atoms.Ordered) (a : Action) :
    (a.apply h).atoms.Ordered := by
  cases a with
  | intern name => exact (AtomTable.intern_spec ho name).1
  | rootShape kind prototype => exact ho
  | allocate shape payload =>
    rw [Action.apply, Action.run, (allocate_frame h shape payload).2.1]
    exact ho
  | setProperty id name value =>
    rw [Action.apply, Action.run, Ledger.heap_write]
    exact (setProperty_edits h id name value).atoms_ordered ho
  | setIndex id index value =>
    rw [Action.apply, Action.run, Ledger.heap_write]
    exact (setIndex_edits h id index value).atoms_ordered ho
  | setArrayLength id length => exact (setArrayLength_edits h id length).atoms_ordered ho
  | defineProperty id name value attributes =>
    exact (defineProperty_edits h id name value attributes).atoms_ordered ho
  | deleteProperty id name => exact (deleteProperty_edits h id name).atoms_ordered ho
  | setPrototype id prototype => exact (setPrototype_edits h id prototype).atoms_ordered ho
  | replay id r value =>
    rw [Action.apply, Action.run, writeSlot_atoms]
    exact ho
  | setVariable id index value => exact ho
  | anchor change =>
    rw [Action.apply, Action.run, (anchor_frame h change).2.2.2]
    exact ho
  | collect values words =>
    rw [Action.apply, Action.run, collect_frame hw values words]
    exact ho

theorem Surveyed.atoms_ordered (hs : Surveyed NoDictionary h rs) : h.atoms.Ordered := by
  induction hs with
  | new limits => exact .empty
  | look _ _ ih => exact ih
  | act a hs _ ih => exact Action.atoms_ordered hs.fitted.1.housed.white ih a

/-! ### Writes to a heap that was reached -/

/-- The write appended an element to an array. -/
def Appends (h : Heap) (id : Handle) (name : Atom) (outcome : PutOutcome) : Prop :=
  outcome = .element ∧ ∃ index, h.atoms.arrayIndex? name = some index ∧
    h.arrayLength? id = some index.toNat

/-- **What a write of a property leaves the cell with.** -/
structure Written (h : Heap) (id : Handle) (name : Atom) (value : Value) (outcome : PutOutcome)
    (h' : Heap) : Prop where
  /-- The value is there. -/
  own : ∃ attributes, h'.own? id name = some (value, attributes)
  /-- What the cell has under other names stays, but for the length of an array. -/
  others : ∀ other, other ≠ name → ¬((h.arrayLength? id).isSome ∧ h.atoms.name other = "length") →
    h'.own? id other = h.own? id other
  /-- An element that is appended adds one to the number of elements. -/
  appended : h.Appends id name outcome → h'.arrayLength? id = (h.arrayLength? id).map (· + 1)
  /-- Otherwise the number of elements stays. -/
  kept : ¬h.Appends id name outcome → h'.arrayLength? id = h.arrayLength? id
  /-- The names stay. -/
  atoms : h'.atoms = h.atoms

theorem Puts.written (hp : h.Puts id name value h') (ho : outcome ≠ .element) :
    h.Written id name value outcome h' :=
  ⟨hp.own, fun other hne _ => hp.others other hne, fun ha => absurd ha.1 ho, fun _ => hp.length, hp.atoms⟩

/-- The name of an index that is found as a named property is the one atom of the index. -/
theorem name_of_namedIndex (hx : h.shapes.Ordered) (ha : h.atoms.Ordered) (hcell : h.cell? id = some c)
    (hi : h.atoms.arrayIndex? name = some index) (hn : h.namedIndex? id index = some p) :
    p.name = name := by
  simp only [namedIndex?, AtomTable.get?_indexName ha hi, hcell] at hn
  exact ((hx.indexed _).name_of_lookup? hn).2

theorem setIndex_written (hf : h.Fitted) (ha : h.atoms.Ordered) (hcell : h.cell? id = some c)
    (hk : c.kind = .array) (hi : h.atoms.arrayIndex? name = some index) (hv : value.isHole = false)
    (hput : setIndex id index value h = .ok outcome h') (ho : outcome ≠ .readOnly) :
    h.Written id name value outcome h' := by
  obtain ⟨e, hp⟩ : ∃ e, c.payload = .array e := by
    unfold Cell.kind Payload.kind at hk
    split at hk <;> cases hk
    exact ⟨_, ‹_›⟩
  have hlength : h.arrayLength? id = some e.items.size := by
    simp [arrayLength?, hcell, Cell.elements?, hp]
  rcases setIndex_cases hcell index value with
    ⟨heq, hpast⟩ | heq | ⟨e', named, he', hpos, hnamed, heq⟩ | ⟨p, hn, hfill, heq⟩
  · -- past the end, under the name of the index
    rw [heq, internIndex_of_arrayIndex? ha hi] at hput
    have hs : h.synthesized? c name = none := by
      rw [synthesized?_index hp hi, Array.getElem?_eq_none (hpast e hp), Option.filter_none]
    obtain ⟨hputs, hne⟩ := putNamed_puts hf hcell hs hput ho
    exact hputs.written hne
  · exact absurd (EStateM.Result.ok.inj (heq.symm.trans hput)).1.symm ho
  · obtain rfl := Payload.array.inj (hp.symm.trans he')
    have hname (p : Property) (hn : named = some p) : p.name = name := by
      subst hn
      exact name_of_namedIndex hf.intact.toOrdered ha hcell hi
        (hnamed.resolve_right fun h => by cases h.1)
    rcases putElement_cases hcell index.toNat e.items.size e.capacity named value with
      hout | ⟨room, hok⟩
    · rw [heq, hout] at hput
      cases hput
    · rw [heq, hok] at hput
      cases hput
      obtain ⟨hown, hothers, hsize, hatoms⟩ :=
        storeElement_stores hf ha hcell hp hi hpos hname hv room
      refine ⟨⟨none, hown⟩, fun other hne hnot => hothers other hne fun hn => hnot ⟨?_, hn⟩,
        fun ⟨_, i, hi', hi''⟩ => ?_, fun hnot => ?_, hatoms⟩
      · rw [hlength]
        rfl
      · obtain rfl := Option.some.inj (hi.symm.trans hi')
        rw [hsize, hlength, if_pos (Option.some.inj (hlength.symm.trans hi'')).symm]
        rfl
      · have hne : index.toNat ≠ e.items.size := fun h =>
          hnot ⟨rfl, index, hi, by rw [hlength, h]⟩
        rw [hsize, hlength, if_neg hne]
  · -- behind a hole, under the name of the index
    rw [heq, name_of_namedIndex hf.intact.toOrdered ha hcell hi hn] at hput
    obtain ⟨hputs, hne⟩ :=
      putNamed_puts hf hcell (synthesized?_of_not_filled hp hi hfill) hput ho
    exact hputs.written hne

theorem setProperty_written (hf : h.Fitted) (ha : h.atoms.Ordered) (hcell : h.cell? id = some c)
    (hv : value.isHole = false) (hn : c.kind = .array → h.atoms.name name ≠ "length")
    (hput : setProperty id name value h = .ok outcome h') (ho : outcome ≠ .readOnly) :
    h.Written id name value outcome h' := by
  rcases setProperty_cases hcell name value with
    ⟨index, hk, hi, heq⟩ | ⟨hk, hlength, -⟩ | heq | ⟨hnamed, heq⟩
  · exact setIndex_written hf ha hcell hk hi hv (heq.symm.trans hput) ho
  · exact absurd hlength (hn hk)
  · exact absurd (EStateM.Result.ok.inj (heq.symm.trans hput)).1.symm ho
  · obtain ⟨hputs, hne⟩ := putNamed_puts hf hcell hnamed.synthesized? (heq.symm.trans hput) ho
    exact hputs.written hne

/-- **A value that was written is read, and nothing else changes.** Whatever was done with a heap: when
a write of a value to a live cell is not refused, and is not one of the length of an array, the value is
what is read under the name, and it is a property of the cell itself. Under every other name the cell has
the value and the attributes that it had, or nothing as before. Only the length of an array grows, by one,
when the write appended an element. -/
theorem getProperty_setProperty (hs : Surveyed NoDictionary h rs) (hcell : h.cell? id = some c)
    (hv : value.isHole = false) (hn : c.kind = .array → h.atoms.name name ≠ "length")
    (hput : setProperty id name value h = .ok outcome h') (ho : outcome ≠ .readOnly) :
    h'.getProperty? id name = some value ∧ (∃ attributes, h'.own? id name = some (value, attributes)) ∧
    (∀ other, other ≠ name → (c.kind = .array → h.atoms.name other ≠ "length") →
      h'.own? id other = h.own? id other) ∧
    (∀ length, c.kind = .array → h.atoms.name length = "length" → ∃ size,
      h.own? id length = some (.ofNat size, none) ∧
      (h.Appends id name outcome → h'.own? id length = some (.ofNat (size + 1), none)) ∧
      (¬h.Appends id name outcome → h'.own? id length = some (.ofNat size, none))) := by
  obtain ⟨hf, -⟩ := hs.fitted
  have ha := hs.atoms_ordered
  have hw := setProperty_written hf ha hcell hv hn hput ho
  obtain ⟨attributes, hown⟩ := hw.own
  refine ⟨getProperty?_of_own hown, ⟨attributes, hown⟩, fun other hne hother => ?_,
    fun length hk hlength => ?_⟩
  · refine hw.others other hne fun ⟨harray, hname⟩ => hother ?_ hname
    exact kind_of_arrayLength? hcell harray
  · obtain ⟨size, hsize⟩ := arrayLength?_of_kind hcell hk
    have hlength' : h'.atoms.name length = "length" := by rw [hw.atoms, hlength]
    refine ⟨size, ?_, fun happends => ?_, fun hkept => ?_⟩
    · rw [own?_length ha hlength hsize]
    · have hgrown : h'.arrayLength? id = some (size + 1) := by
        rw [hw.appended happends, hsize, Option.map_some]
      rw [own?_length (hw.atoms ▸ ha) hlength' hgrown]
    · rw [own?_length (hw.atoms ▸ ha) hlength' ((hw.kept hkept).trans hsize)]

/-- An object on a dictionary whose first property was deleted after a second one was added. -/
def gapped : Heap :=
  (Action.deleteProperty ⟨0, 0⟩ ⟨0⟩).apply
    ((Action.setProperty ⟨0, 0⟩ ⟨1⟩ (.boolean true)).apply (detach.apply owner))

/-- The outcome of a write, if it was done. -/
def outcome? : EStateM.Result PropertyFault Heap PutOutcome → Option PutOutcome
  | .ok outcome _ => some outcome
  | .error _ _ => none

/-- A new property takes the slot of the deleted one, and the other one stays. -/
theorem getProperty_setProperty_gapped : (∃ rs, Surveyed NoDictionary gapped rs) ∧
    gapped.own? ⟨0, 0⟩ ⟨1⟩ = some (.boolean true, some {}) ∧ ∃ h',
      setProperty ⟨0, 0⟩ ⟨2⟩ (.boolean false) gapped = .ok (.added ⟨2⟩ ⟨2⟩ 0) h' ∧
      h'.getProperty? ⟨0, 0⟩ ⟨2⟩ = some (.boolean false) ∧
      h'.own? ⟨0, 0⟩ ⟨1⟩ = some (.boolean true, some {}) := by
  obtain ⟨rs, hs⟩ : ∃ rs, Surveyed NoDictionary gapped rs := by
    obtain ⟨rs, hs⟩ : ∃ rs, Surveyed NoDictionary owner rs := owner_surveyed rfl
    have hadded := (hs.act detach trivial).act (.setProperty ⟨0, 0⟩ ⟨1⟩ (.boolean true)) trivial
    exact ⟨_, hadded.act (.deleteProperty ⟨0, 0⟩ ⟨0⟩) trivial⟩
  have hkind : (gapped.cell? ⟨0, 0⟩).map Cell.kind = some .object := by decide +kernel
  obtain ⟨c, hcell, hkind⟩ := Option.map_eq_some_iff.mp hkind
  have harray : c.kind ≠ .array := by
    rw [hkind]
    decide
  have hother : gapped.own? ⟨0, 0⟩ ⟨1⟩ = some (.boolean true, some {}) := by decide +kernel
  have houtcome : outcome? (setProperty ⟨0, 0⟩ ⟨2⟩ (.boolean false) gapped) =
      some (.added ⟨2⟩ ⟨2⟩ 0) := by decide +kernel
  cases hput : setProperty ⟨0, 0⟩ ⟨2⟩ (.boolean false) gapped with
  | error fault h' =>
    rw [hput] at houtcome
    cases houtcome
  | ok outcome h' =>
    rw [hput] at houtcome
    obtain rfl := Option.some.inj houtcome
    obtain ⟨hget, -, hothers, -⟩ := getProperty_setProperty hs hcell rfl
      (fun hk => absurd hk harray) hput nofun
    refine ⟨⟨rs, hs⟩, hother, h', rfl, hget, ?_⟩
    rw [hothers ⟨1⟩ (by decide) fun hk => absurd hk harray, hother]

end Heap

end ScriptMachine
