import ScriptMachine.Proofs.Heap.Writing

/-! # The names of a cell

The named properties of a cell have an order (`Heap.names`). Whatever is done to a cell, each time its
names stay, or lose one, or get a new one at their end (`Heap.Amends`). And the cell stays tidy
(`Heap.Tidy`): a slot of it that none of its named properties is stored in is undefined, so that a new
property finds nothing of one that was deleted. Both are shown of each operation at once
(`Heap.Revises`), and of each action (`Action.revises`). -/

namespace ScriptMachine

/-- What is left when a name is removed: the properties of all other names, in their order. -/
theorem Shape.Indexed.remove_toList {s : Shape} (hs : s.Indexed) (name : Atom) :
    (s.remove name).properties.toList = s.properties.toList.filter fun p => p.name ≠ name := by
  cases hi : s.index[name]? with
  | none =>
    have hl : s.lookup? name = none := by rw [lookup?, hi]
    rw [remove_of_none hi, List.filter_eq_self.mpr]
    exact fun p hp => decide_eq_true (hs.lookup?_eq_none.mp hl p (Array.mem_toList_iff.mp hp))
  | some i =>
    obtain ⟨p, hp, hname⟩ := (hs name i).mp hi
    obtain ⟨hlt, hget⟩ := Array.getElem?_eq_some_iff.mp hp
    have hnodup : s.properties.toList.Nodup := .of_map _ hs.names_nodup
    have hlength : i < s.properties.toList.length := by simpa using hlt
    have hself : s.properties.toList[i] = p := by simpa using hget
    rw [remove_of_index hi hp]
    dsimp only
    rw [Array.eraseIdxIfInBounds_eq, dif_pos hlt, Array.toList_eraseIdx, ← hnodup.erase_getElem i hlength,
      hnodup.erase_eq_filter]
    refine List.filter_congr fun q hq => ?_
    rw [hself, Bool.eq_iff_iff, bne_iff_ne, decide_eq_true_iff]
    refine not_congr ⟨fun h => h ▸ hname, fun h => ?_⟩
    exact List.inj_on_of_nodup_map hs.names_nodup hq (Array.mem_toList_iff.mpr (Array.mem_of_getElem? hp))
      (h.trans hname.symm)

/-- The slots of a new cell are undefined. -/
theorem Cell.slot_new (shape : ShapeId) (count : Nat) (payload : Payload) (offset : Nat) :
    (Cell.new shape count payload).slot offset = .undefined := by
  rw [Cell.new, slot_ensureSlots, slot, Array.getD_eq_getD_getElem?, Array.getElem?_replicate]
  split <;> rfl

namespace Heap

/-- **The names** of the named properties of a cell, in their order. -/
def names (h : Heap) (id : Handle) : List Atom :=
  match h.cell? id with
  | some c => (h.shapes.get c.shape).properties.toList.map (·.name)
  | none => []

/-- **How names change** in one step that drops names of a sort only. -/
inductive Amends (drops : Atom → Prop) (names : List Atom) : List Atom → Prop
  /-- They stay. -/
  | same : Amends drops names names
  /-- There is a new one, at the end. -/
  | added {name : Atom} : name ∉ names → Amends drops names (names ++ [name])
  /-- One is gone. -/
  | removed {name : Atom} : drops name → Amends drops names (names.filter (· ≠ name))

/-- **A tidy cell**: slots that hold none of its named properties are undefined. -/
def Tidy (h : Heap) (id : Handle) : Prop :=
  ∀ c, h.cell? id = some c → ∀ offset,
    (∀ p ∈ (h.shapes.get c.shape).properties, p.offset ≠ offset) → c.slot offset = .undefined

/-- The names of a cell stay, and it stays tidy. -/
structure Still (id : Handle) (h h' : Heap) : Prop where
  names : h'.names id = h.names id
  tidy : h.Tidy id → h'.Tidy id

/-- **The names of a cell change in one step**, and it stays tidy. -/
structure Revises (drops : Atom → Prop) (id : Handle) (h h' : Heap) : Prop where
  names : Amends drops (h.names id) (h'.names id)
  tidy : h.Tidy id → h'.Tidy id

variable {drops : Atom → Prop} {h h' h'' : Heap} {id other : Handle} {c c' : Cell} {name : Atom} {value : Value}
  {p : Property} {attributes : Attributes}

theorem names_of_cell (hcell : h.cell? id = some c) :
    h.names id = (h.shapes.get c.shape).properties.toList.map (·.name) := by
  rw [names, hcell]

theorem names_of_none (hcell : h.cell? id = none) : h.names id = [] := by rw [names, hcell]

/-- The names of a cell are those that its shape lists. -/
theorem mem_names (hx : h.shapes.Ordered) (hcell : h.cell? id = some c) :
    name ∈ h.names id ↔ ∃ p, h.shapes.lookup? c.shape name = some p := by
  simp only [names_of_cell hcell, List.mem_map, Array.mem_toList_iff, ShapeTable.lookup?,
    (hx.indexed c.shape).lookup?_eq_some]

theorem Still.refl (id : Handle) (h : Heap) : Still id h h := ⟨rfl, fun ht => ht⟩

theorem Still.trans (h₁ : Still id h h') (h₂ : Still id h' h'') : Still id h h'' :=
  ⟨h₂.names.trans h₁.names, fun ht => h₂.tidy (h₁.tidy ht)⟩

theorem Still.revises (hs : Still id h h') : Revises drops id h h' := ⟨by rw [hs.names]; exact .same, hs.tidy⟩

theorem Still.then (h₁ : Still id h h') (h₂ : Revises drops id h' h'') : Revises drops id h h'' :=
  ⟨h₁.names ▸ h₂.names, fun ht => h₂.tidy (h₁.tidy ht)⟩

theorem Revises.still (h₁ : Revises drops id h h') (h₂ : Still id h' h'') : Revises drops id h h'' :=
  ⟨by rw [h₂.names]; exact h₁.names, fun ht => h₂.tidy (h₁.tidy ht)⟩

theorem Amends.weaken {drops' : Atom → Prop} {names names' : List Atom} (ha : Amends drops names names')
    (hd : ∀ n, drops n → drops' n) : Amends drops' names names' := by
  cases ha with
  | same => exact .same
  | added hnew => exact .added hnew
  | removed hdrop => exact .removed (hd _ hdrop)

theorem Revises.weaken {drops' : Atom → Prop} (hr : Revises drops id h h') (hd : ∀ n, drops n → drops' n) :
    Revises drops' id h h' := ⟨hr.names.weaken hd, hr.tidy⟩

theorem Tidy.of_none (hcell : h.cell? id = none) : h.Tidy id := fun c hc => by cases hcell.symm.trans hc

/-! ### Changes that keep the names -/

/-- A cell that changes, where its properties keep their names and offsets, and the slots that hold none of
them stay. -/
theorem Still.of_cell (hcell : h.cell? id = some c) (hcell' : h'.cell? id = some c') {g : Property → Property}
    (hg : ∀ p, (g p).name = p.name ∧ (g p).offset = p.offset)
    (he : (h'.shapes.get c'.shape).properties = (h.shapes.get c.shape).properties.map g)
    (hslots : ∀ offset, (∀ p ∈ (h.shapes.get c.shape).properties, p.offset ≠ offset) →
      c'.slot offset = c.slot offset) : Still id h h' where
  names := by
    rw [names_of_cell hcell, names_of_cell hcell', he, Array.toList_map, List.map_map]
    exact List.map_congr_left fun p _ => (hg p).1
  tidy ht d hd offset ho := by
    obtain rfl := Option.some.inj (hcell'.symm.trans hd)
    have hfree (p : Property) (hp : p ∈ (h.shapes.get c.shape).properties) : p.offset ≠ offset := by
      rw [← (hg p).2]
      exact ho (g p) (he ▸ Array.mem_map_of_mem hp)
    rw [hslots offset hfree]
    exact ht c hcell offset hfree

/-- A cell that keeps its slots and its properties. -/
theorem Still.keep (hcell : h.cell? id = some c) (hcell' : h'.cell? id = some c')
    (he : (h'.shapes.get c'.shape).properties = (h.shapes.get c.shape).properties) (hs : c'.slots = c.slots) :
    Still id h h' :=
  .of_cell (g := fun p => p) hcell hcell' (fun _ => ⟨rfl, rfl⟩) (by rw [he, Array.map_id']) fun _ _ => by
    rw [Cell.slot, Cell.slot, hs]

theorem Still.congr (hcell : h'.cell? id = h.cell? id)
    (hshapes : ∀ c, h.cell? id = some c → h'.shapes.get c.shape = h.shapes.get c.shape) : Still id h h' := by
  cases hc : h.cell? id with
  | none =>
    refine ⟨by rw [names_of_none hc, names_of_none (hcell.trans hc)], fun _ d hd => ?_⟩
    cases hd.symm.trans (hcell.trans hc)
  | some c => exact .keep hc (hcell.trans hc) (by rw [hshapes c hc]) rfl

theorem Still.intern (h : Heap) (id : Handle) (name : String) : Still id h (h.intern name).2 :=
  .congr rfl fun _ _ => rfl

theorem Still.count (h : Heap) (id : Handle) : Still id h (h.refreshFootprint id) :=
  .congr (by rw [cell?_refreshFootprint]) fun _ _ => by rw [refreshFootprint_frame]

/-- A cell that is changed where neither its shape nor its slots are. -/
theorem Still.stay (h : Heap) (id : Handle) {f : Cell → Cell}
    (hf : ∀ c, (f c).shape = c.shape ∧ (f c).slots = c.slots) : Still id h (h.modifyCell id f) := by
  cases hc : h.cell? id with
  | none =>
    rw [modifyCell_of_none _ hc]
    exact .refl id h
  | some c =>
    refine .keep hc (by rw [cell?_modifyCell_self, hc]; rfl) ?_ (hf c).2
    change (h.shapes.get (f c).shape).properties = _
    rw [(hf c).1]

theorem Still.elements (h : Heap) (id : Handle) (f : Elements → Elements) :
    Still id h (h.modifyCell id (Cell.mapElements f)) :=
  .stay h id fun c => ⟨(mapElements_frame f c).1, (mapElements_frame f c).2.1⟩

/-- **Writing the slot of a property.** -/
theorem Still.slot (hcell : h.cell? id = some c) (hl : h.shapes.lookup? c.shape name = some p) (value : Value) :
    Still id h (h.modifyCell id (·.setSlot p.offset value)) := by
  refine .of_cell (g := fun p => p) hcell (by rw [cell?_modifyCell_self, hcell]; rfl) (fun _ => ⟨rfl, rfl⟩) ?_
    fun offset ho => Cell.slot_setSlot_of_ne c (ho p (Shape.mem_of_lookup? hl)).symm value
  rw [(c.setSlot_frame p.offset value).1, Array.map_id']
  rfl

/-- **Giving a property other attributes**, and a value. -/
theorem Still.redefine (hf : h.Fitted) (hcell : h.cell? id = some c)
    (hl : h.shapes.lookup? c.shape name = some p) (value : Value) (attributes : Attributes) :
    Still id h ({ h with shapes := (h.shapes.changeAttributes c.shape name attributes).2 }.modifyCell id
      fun cell => { cell.setSlot p.offset value with
        shape := (h.shapes.changeAttributes c.shape name attributes).1 }) := by
  obtain ⟨-, -, he⟩ :=
    ShapeTable.changeAttributes_spec hf.intact.toOrdered (hf.housed.live id c hcell) name attributes
  rw [(hf.intact.indexed c.shape).setAttributes_properties] at he
  have hread := (cell?_move hcell (h.shapes.changeAttributes c.shape name attributes).2
    (fun cell => { cell.setSlot p.offset value with
      shape := (h.shapes.changeAttributes c.shape name attributes).1 }) id).trans (if_pos rfl)
  refine .of_cell hcell hread (fun q => ?_) he
    fun offset ho => Cell.slot_setSlot_of_ne c (ho p (Shape.mem_of_lookup? hl)).symm value
  split <;> exact ⟨rfl, rfl⟩

/-- **Giving a cell another prototype.** -/
theorem Still.prototype (hf : h.Fitted) (hcell : h.cell? id = some c) (prototype : Value) :
    Still id h ({ h with shapes := (h.shapes.changePrototype c.shape prototype).2 }.modifyCell id
      fun cell => { cell with shape := (h.shapes.changePrototype c.shape prototype).1 }) := by
  obtain ⟨-, -, he⟩ :=
    ShapeTable.changePrototype_spec hf.intact.toOrdered (hf.housed.live id c hcell) prototype
  have hread := (cell?_move hcell (h.shapes.changePrototype c.shape prototype).2
    (fun cell => { cell with shape := (h.shapes.changePrototype c.shape prototype).1 }) id).trans (if_pos rfl)
  exact .keep hcell hread he rfl

/-- Other cells than the one that an operation is applied to. -/
theorem Spares.still (hs : Spares id h h') (hne : other ≠ id) : Still other h h' :=
  .congr (hs.cells other hne) fun c hc => hs.layouts other c hne hc

/-! ### A property that comes or goes -/

/-- **A property that is added** has the last name. -/
theorem Revises.addNamed (hf : h.Fitted) (hcell : h.cell? id = some c)
    (hl : h.shapes.lookup? c.shape name = none) (value : Value) (attributes : Attributes) :
    Revises drops id h (h.addNamed id c.shape name value attributes) := by
  have hlive := hf.housed.live id c hcell
  have hadds := ShapeTable.addProperty_spec hf.intact.toOrdered hlive hl attributes
  have hnew : name ∉ h.names id := by
    rw [mem_names hf.intact.toOrdered hcell, hl]
    simp
  have hread : (h.addNamed id c.shape name value attributes).cell? id =
      some { c.setSlot (h.shapes.addProperty c.shape name attributes).2.1 value with
        shape := (h.shapes.addProperty c.shape name attributes).1 } := by
    rw [Heap.addNamed, cell?_refreshFootprint, cell?_move hcell, if_pos rfl]
  have he : ((h.addNamed id c.shape name value attributes).shapes.get
      (h.shapes.addProperty c.shape name attributes).1).properties =
        (h.shapes.get c.shape).properties.push ⟨name, (h.shapes.addProperty c.shape name attributes).2.1, attributes⟩ := by
    rw [(addNamed_frame h id c.shape name value attributes).1]
    exact hadds.properties
  refine ⟨?_, fun ht d hd offset ho => ?_⟩
  · rw [names_of_cell hread, he, Array.toList_push, List.map_append, ← names_of_cell hcell]
    exact .added hnew
  · obtain rfl := Option.some.inj (hread.symm.trans hd)
    rw [he] at ho
    refine (Cell.slot_setSlot_of_ne c (ho _ (Array.mem_push.mpr (.inr rfl))).symm value).trans ?_
    exact ht c hcell offset fun p hp => ho p (Array.mem_push.mpr (.inl hp))

/-- The slot of a property that is removed is undefined, and the other slots stay. -/
theorem slot_removeNamed (hf : h.Fitted) (hcell : h.cell? id = some c) (name : Atom) :
    ∃ c', (h.removeNamed id c.shape name).cell? id = some c' ∧
      c'.shape = (h.shapes.removeProperty c.shape name).1 ∧
      (∀ p, h.shapes.lookup? c.shape name = some p → c'.slot p.offset = .undefined) ∧
      ∀ offset, (∀ p, h.shapes.lookup? c.shape name = some p → p.offset ≠ offset) →
        c'.slot offset = c.slot offset := by
  obtain ⟨-, hremoved, -, -⟩ :=
    ShapeTable.removeProperty_spec hf.intact.toOrdered (hf.housed.live id c hcell) name
  unfold Heap.removeNamed
  generalize h.shapes.removeProperty c.shape name = result at *
  obtain ⟨target, removed, t⟩ := result
  dsimp only at hremoved ⊢
  rw [cell?_move hcell, if_pos rfl, ← hremoved]
  cases removed with
  | none => exact ⟨_, rfl, rfl, nofun, fun _ _ => rfl⟩
  | some p =>
    refine ⟨_, rfl, (Cell.setSlot_frame _ _ _).1, fun q hq => ?_, fun offset ho => ?_⟩
    · obtain rfl := Option.some.inj hq
      exact Cell.slot_setSlot_self _ _ _
    · exact Cell.slot_setSlot_of_ne _ (ho p rfl).symm _

/-- **A property that is removed** leaves the names of the others, and a tidy cell. -/
theorem names_removeNamed (hf : h.Fitted) (hcell : h.cell? id = some c) (name : Atom) :
    (h.removeNamed id c.shape name).names id = (h.names id).filter (· ≠ name) ∧
      (h.Tidy id → (h.removeNamed id c.shape name).Tidy id) := by
  obtain ⟨-, -, -, he⟩ :=
    ShapeTable.removeProperty_spec hf.intact.toOrdered (hf.housed.live id c hcell) name
  obtain ⟨c', hread, hshape, hslot, hother⟩ := slot_removeNamed hf hcell name
  have hx := hf.intact.indexed c.shape
  have hlist := congrArg Array.toList he
  rw [hx.remove_toList] at hlist
  have hshapes : (h.removeNamed id c.shape name).shapes = (h.shapes.removeProperty c.shape name).2.2 := rfl
  refine ⟨?_, fun ht d hd offset ho => ?_⟩
  · rw [names_of_cell hread, names_of_cell hcell, hshape, hshapes, hlist, List.filter_map]
    rfl
  · obtain rfl := Option.some.inj (hread.symm.trans hd)
    rw [hshape, hshapes] at ho
    have hmem (p : Property) (hp : p ∈ (h.shapes.get c.shape).properties) (hne : p.name ≠ name) :
        p.offset ≠ offset := ho p (he ▸ hx.mem_remove.mpr ⟨hp, hne⟩)
    by_cases hat : ∃ p, h.shapes.lookup? c.shape name = some p ∧ p.offset = offset
    · obtain ⟨p, hl, rfl⟩ := hat
      exact hslot p hl
    · rw [hother offset fun p hl heq => hat ⟨p, hl, heq⟩]
      refine ht c hcell offset fun p hp heq => ?_
      by_cases hname : p.name = name
      · exact hat ⟨p, hx.lookup?_eq_some.mpr ⟨hp, hname⟩, heq⟩
      · exact hmem p hp hname heq

/-! ### Operations -/

theorem putNamed_revises (hf : h.Fitted) (id : Handle) (name : Atom) (value : Value) (attributes : Attributes) :
    Revises drops id h (leaves (putNamed id name value attributes h)) := by
  cases hcell : h.cell? id with
  | none =>
    rw [putNamed_stale hcell]
    exact (Still.refl id h).revises
  | some c =>
    cases hl : h.shapes.lookup? c.shape name with
    | none =>
      rw [putNamed_none hcell hl]
      exact .addNamed hf hcell hl value attributes
    | some p =>
      rw [putNamed_some hcell hl]
      split
      case isTrue => exact (Still.refl id h).revises
      case isFalse => exact (Still.slot hcell hl value).revises

theorem removeNamed_revises (hf : h.Fitted) (hcell : h.cell? id = some c) (hdrop : drops name) :
    Revises drops id h (h.removeNamed id c.shape name) := by
  obtain ⟨hnames, htidy⟩ := names_removeNamed hf hcell name
  exact ⟨by rw [hnames]; exact .removed hdrop, htidy⟩

theorem clearElement_still (h : Heap) (id : Handle) (name : Atom) : Still id h (h.clearElement id name) := by
  unfold clearElement
  cases h.atoms.arrayIndex? name with
  | none => exact .refl id h
  | some index => exact .elements h id _

theorem storeElement_still (h : Heap) (id : Handle) (position length capacity : Nat) (value : Value) :
    Still id h (h.storeElement id position length capacity value) := by
  unfold storeElement
  split
  case isTrue => exact .elements h id _
  case isFalse => exact (Still.elements h id _).trans (.count _ id)

theorem putElement_revises (hf : h.Fitted) (hcell : h.cell? id = some c) (position length capacity : Nat)
    {named : Option Property} (hdrop : ∀ p, named = some p → drops p.name) (value : Value) :
    Revises drops id h (leaves (putElement id position length capacity named value h)) := by
  rcases putElement_cases hcell position length capacity named value with heq | ⟨room, heq⟩
  · rw [heq]
    exact (Still.refl id h).revises
  · rw [heq]
    refine Revises.still ?_ (storeElement_still _ id position length room value)
    cases named with
    | none => exact (Still.refl id h).revises
    | some p => exact removeNamed_revises hf hcell (hdrop p rfl)

/-- **An index that moves among the elements** when it is written, whose name that is: it is at most the length
of the array. -/
def Migrates (h : Heap) (id : Handle) (index : UInt32) (name : Atom) : Prop :=
  h.atoms.get? (indexName index) = some name ∧ ∃ length, h.arrayLength? id = some length ∧ index.toNat ≤ length

theorem get?_of_namedIndex (hx : h.shapes.Ordered) {index : UInt32} (hcell : h.cell? id = some c)
    (hn : h.namedIndex? id index = some p) : h.atoms.get? (indexName index) = some p.name := by
  unfold namedIndex? at hn
  split at hn
  case h_1 => cases hn
  case h_2 atom hatom =>
    rw [hcell] at hn
    rw [hatom, ((hx.indexed _).name_of_lookup? hn).2]

theorem setIndex_revises (hf : h.Fitted) (id : Handle) (index : UInt32) (value : Value) :
    Revises (h.Migrates id index) id h (leaves (setIndex id index value h)) := by
  cases hcell : h.cell? id with
  | none =>
    simp only [setIndex, bind, EStateM.bind, requireCell_none hcell]
    exact (Still.refl id h).revises
  | some c =>
    rcases setIndex_cases hcell index value with
      ⟨heq, -⟩ | heq | ⟨e, named, he, hle, hn, heq⟩ | ⟨p, -, -, heq⟩
    · rw [heq]
      exact (Still.intern h id _).then (putNamed_revises (Refits.intern h _ hf).1 id _ value _)
    · rw [heq]
      exact (Still.refl id h).revises
    · rw [heq]
      refine putElement_revises hf hcell _ _ _ (fun p hp => ?_) value
      have hlength : h.arrayLength? id = some e.items.size := by
        simp only [arrayLength?, hcell, Cell.elements?, he, Option.map_some]
      refine ⟨?_, _, hlength, hle⟩
      subst hp
      exact get?_of_namedIndex hf.intact.toOrdered hcell (hn.resolve_right fun hnone => Option.some_ne_none p hnone.1)
    · rw [heq]
      exact putNamed_revises hf id p.name value _

theorem setArrayLength_still (h : Heap) (id : Handle) (length : Value) :
    Still id h (leaves (setArrayLength id length h)) := by
  rcases setArrayLength_cases h id length with heq | ⟨c, e, n, -, -, heq⟩
  · rw [heq]
    exact .refl id h
  · rw [heq]
    exact (Still.elements h id _).trans (.count _ id)

theorem setProperty_revises (hf : h.Fitted) (id : Handle) (name : Atom) (value : Value) :
    Revises (fun n => ∃ index, h.atoms.arrayIndex? name = some index ∧ h.Migrates id index n) id h
      (leaves (setProperty id name value h)) := by
  cases hcell : h.cell? id with
  | none =>
    simp only [setProperty, bind, EStateM.bind, requireCell_none hcell]
    exact (Still.refl id h).revises
  | some c =>
    rcases setProperty_cases hcell name value with
      ⟨index, -, hi, heq⟩ | ⟨-, -, heq⟩ | heq | ⟨-, heq⟩
    · rw [heq]
      exact (setIndex_revises hf id index value).weaken fun n hn => ⟨index, hi, hn⟩
    · have hset := setArrayLength_still h id value
      rw [heq]
      refine Still.revises ?_
      cases hset' : setArrayLength id value h <;>
        simpa [hset', leaves, bind, EStateM.bind, pure, EStateM.pure] using hset
    · rw [heq]
      exact (Still.refl id h).revises
    · rw [heq]
      exact putNamed_revises hf id name value _

theorem defineProperty_revises (hf : h.Fitted) (id : Handle) (name : Atom) (value : Value)
    (attributes : Attributes) : Revises drops id h (leaves (defineProperty id name value attributes h)) := by
  cases hcell : h.cell? id with
  | none =>
    simp only [defineProperty, bind, EStateM.bind, requireCell_none hcell]
    exact (Still.refl id h).revises
  | some c =>
    obtain ⟨c', hcell', hshape, hshapes, -, -⟩ := clearElement_cell hcell name
    obtain ⟨hf', -⟩ := clearElement_refits h id name hf
    refine (clearElement_still h id name).then ?_
    rcases defineProperty_cases hcell name value attributes with
      ⟨-, heq⟩ | ⟨p, hl, ⟨-, heq⟩ | ⟨-, heq⟩⟩
    · rw [heq]
      exact putNamed_revises hf' id name value attributes
    · rw [← hshape, ← hshapes] at hl
      rw [heq]
      exact (Still.slot hcell' hl value).revises
    · rw [← hshape, ← hshapes] at hl
      rw [heq, ← hshape, ← hshapes]
      exact (Still.redefine hf' hcell' hl value attributes).revises

theorem deleteProperty_revises (hf : h.Fitted) (id : Handle) (name : Atom) :
    Revises (· = name) id h (leaves (deleteProperty id name h)) := by
  cases hcell : h.cell? id with
  | none =>
    simp only [deleteProperty, bind, EStateM.bind, requireCell_none hcell]
    exact (Still.refl id h).revises
  | some c =>
    rcases deleteProperty_cases hcell name with heq | heq | heq
    · rw [heq]
      exact (Still.refl id h).revises
    · rw [heq]
      exact (clearElement_still h id name).revises
    · rw [heq]
      exact removeNamed_revises hf hcell rfl

theorem setPrototype_still (hf : h.Fitted) (id : Handle) (prototype : Value) :
    Still id h (leaves (setPrototype id prototype h)) := by
  cases hcell : h.cell? id with
  | none =>
    simp only [setPrototype, bind, EStateM.bind, requireCell_none hcell]
    exact .refl id h
  | some c =>
    rcases setPrototype_cases hcell prototype with heq | heq
    · rw [heq]
      exact .refl id h
    · rw [heq]
      exact .prototype hf hcell prototype

/-! ### Actions -/

variable {s : Ledger} {a : Action}

/-- **Actions keep the heap of a sound ledger fitted.** -/
theorem Action.fitted (hs : s.Sound) (hf : s.heap.Fitted) (ha : a.Allowed s) : (a.run s).heap.Fitted := by
  cases a with
  | intern name => exact (Refits.intern _ name hf).1
  | rootShape kind prototype => exact (Refits.root _ kind prototype hf).1
  | allocate shape payload =>
    exact (Refits.allocate _ (origin_spec hs.intact ha).1 ha.2.2 hf).1
  | setProperty id name value =>
    rw [Action.run, Ledger.heap_write]
    exact (setProperty_refits s.heap id name value hf).1
  | setIndex id index value =>
    rw [Action.run, Ledger.heap_write]
    exact (setIndex_refits s.heap id index value hf).1
  | setArrayLength id length => exact (setArrayLength_refits s.heap id length hf).1
  | defineProperty id name value attributes => exact (defineProperty_refits s.heap id name value attributes hf).1
  | deleteProperty id name => exact (deleteProperty_refits s.heap id name hf).1
  | setPrototype id prototype => exact (setPrototype_refits s.heap id prototype hf).1
  | replay id r value =>
    obtain ⟨hr, hshape⟩ := ha
    obtain ⟨c, hcell, hsource⟩ := Option.map_eq_some_iff.mp hshape
    rcases writeSlot_replay hcell (hs.reports r hr) hsource.symm value with ⟨p, hl, heq⟩ | ⟨hn, heq⟩
    · rw [Action.run, heq]
      exact (Refits.slot hcell (fun hf => hf.offset_lt hl) value hf).1
    · rw [Action.run, heq]
      exact (addNamed_refits hcell hn value .none hf).1
  | setVariable id index value => exact (Refits.scope _ id index value hf).1
  | anchor change => exact (Refits.anchor _ change hf).1
  | collect values words => exact hf.collect values words

/-- **The names that an action may drop** from a cell: the one that it deletes there, and that of an index that it
writes and that moves among the elements. -/
def Action.Drops (h : Heap) (id : Handle) (name : Atom) : Action → Prop
  | .deleteProperty target deleted => target = id ∧ name = deleted
  | .setIndex target index _ => target = id ∧ h.Migrates id index name
  | .setProperty target written _ =>
    target = id ∧ ∃ index, h.atoms.arrayIndex? written = some index ∧ h.Migrates id index name
  | _ => False

/-- An action on a cell changes its names in one step. -/
theorem Action.revises_target (hs : s.Sound) (hf : s.heap.Fitted) (ha : a.Allowed s) (ht : a.target? = some id) :
    Revises (fun name => a.Drops s.heap id name) id s.heap (a.run s).heap := by
  cases a with
  | setProperty id name value =>
    cases ht
    rw [Action.run, Ledger.heap_write]
    exact (setProperty_revises hf id name value).weaken fun _ hn => ⟨rfl, hn⟩
  | setIndex id index value =>
    cases ht
    rw [Action.run, Ledger.heap_write]
    exact (setIndex_revises hf id index value).weaken fun _ hn => ⟨rfl, hn⟩
  | setArrayLength id length =>
    cases ht
    exact (setArrayLength_still s.heap id length).revises
  | defineProperty id name value attributes =>
    cases ht
    exact defineProperty_revises hf id name value attributes
  | deleteProperty id name =>
    cases ht
    exact (deleteProperty_revises hf id name).weaken fun _ hn => ⟨rfl, hn⟩
  | setPrototype id prototype =>
    cases ht
    exact (setPrototype_still hf id prototype).revises
  | replay id r value =>
    cases ht
    obtain ⟨hr, hshape⟩ := ha
    obtain ⟨c, hcell, hsource⟩ := Option.map_eq_some_iff.mp hshape
    rcases writeSlot_replay hcell (hs.reports r hr) hsource.symm value with ⟨p, hl, heq⟩ | ⟨hn, heq⟩
    · rw [Action.run, heq]
      exact (Still.slot hcell hl value).revises
    · rw [Action.run, heq]
      exact .addNamed hf hcell hn value .none
  | setVariable id index value =>
    cases ht
    refine (Still.stay s.heap id fun c => ⟨(mapScope_frame _ c).1, ?_⟩).revises
    exact (Cell.footprint_mapScope _ c).2
  | intern | rootShape | allocate | anchor | collect => cases ht

/-- **Each action changes the names of each cell in one step**, and keeps it tidy; but one that is applied to no
cell may free it, or place a new one. -/
theorem Action.revises (hs : s.Sound) (hf : s.heap.Fitted) (ha : a.Allowed s) (id : Handle) :
    Revises (fun name => a.Drops s.heap id name) id s.heap (a.run s).heap ∨
      a.target? = none ∧ (a.run s).heap.names id = [] ∧ (a.run s).heap.Tidy id := by
  cases ht : a.target? with
  | some target =>
    by_cases heq : id = target
    · exact .inl (heq ▸ Action.revises_target hs hf ha ht)
    · exact .inl ((Action.spares hs ha ht).2.2.still heq).revises
  | none =>
    -- a cell that is there afterwards was there before, or it is new
    have hcases (hcell : ∀ c, (a.run s).heap.cell? id = some c →
        s.heap.cell? id = some c ∧ (a.run s).heap.shapes.get c.shape = s.heap.shapes.get c.shape ∨
        (a.run s).heap.names id = [] ∧ (a.run s).heap.Tidy id) :
        Revises (fun name => a.Drops s.heap id name) id s.heap (a.run s).heap ∨
          none = none (α := Handle) ∧ (a.run s).heap.names id = [] ∧ (a.run s).heap.Tidy id := by
      cases hc : (a.run s).heap.cell? id with
      | none => exact .inr ⟨rfl, names_of_none hc, .of_none hc⟩
      | some c =>
        rcases hcell c hc with ⟨hold, hshape⟩ | hnew
        · exact .inl (Still.keep hold hc (by rw [hshape]) rfl).revises
        · exact .inr ⟨rfl, hnew⟩
    cases a with
    | intern name => exact .inl (Still.intern s.heap id name).revises
    | rootShape kind prototype =>
      obtain ⟨hg, -⟩ := ShapeTable.root_spec hs.housed.shapes kind prototype
      have hstill : Still id s.heap (s.heap.rootShape kind prototype).2 :=
        .congr rfl fun c hc => (hg.keeps c.shape (hs.housed.live id c hc) fun h => h).2
      exact .inl hstill.revises
    | allocate shape payload =>
      obtain ⟨hshapes, -⟩ := allocate_frame s.heap shape payload
      refine hcases fun c hc => ?_
      rcases cell?_allocate_or_new hc with hold | rfl
      · exact .inl ⟨hold, congrArg (·.get c.shape) hshapes⟩
      · have hempty := (origin_spec hs.intact ha).2
        refine .inr ⟨?_, fun d hd offset _ => ?_⟩
        · rw [names_of_cell hc, (payload_new shape _ payload).2]
          exact congrArg (List.map _) (congrArg Array.toList ((congrArg (fun t => (t.get shape).properties)
            hshapes).trans hempty))
        · obtain rfl := Option.some.inj (hc.symm.trans hd)
          exact Cell.slot_new shape _ payload offset
    | anchor change =>
      obtain ⟨hslots, -, hshapes, -⟩ := anchor_frame s.heap change
      exact .inl (Still.congr (congrFun (cell?_congr hslots) id) fun c _ => congrArg (·.get c.shape) hshapes).revises
    | collect values words =>
      refine hcases fun c hc => .inl ⟨((cell?_collect hs.housed.white values words).mp hc).1, ?_⟩
      exact shape_collect hs.housed.white values words hc
    | setProperty | setIndex | setArrayLength | defineProperty | deleteProperty | setPrototype | replay
    | setVariable => cases ht

/-- **The heaps that actions lead to** are fitted, and their cells are tidy. -/
theorem Ledger.Reached.tidy {may : Ledger → Action → Prop} (hmay : ∀ s a, may s a → a.Allowed s)
    (hr : s.Reached may) : s.heap.Fitted ∧ ∀ id, s.heap.Tidy id := by
  induction hr with
  | new limits =>
    refine ⟨.new limits, fun id c hc => ?_⟩
    simp [Heap.new, cell?] at hc
  | @step s a hr ha ih =>
    have hs := hr.sound hmay
    exact ⟨Action.fitted hs ih.1 (hmay s a ha), fun id =>
      (Action.revises hs ih.1 (hmay s a ha) id).elim (fun hr => hr.tidy (ih.2 id)) fun h => h.2.2⟩

end Heap

end ScriptMachine
