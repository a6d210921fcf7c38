import ScriptMachine.Proofs.Heap.Ledger
import ScriptMachine.Proofs.Shape.Layout

/-! # Storage

The bytes of a cell are counted again where its storage may have grown, and nowhere else. That is
right as long as every cell has room for the slots that its shape lays out (`Spacious`): then a property
that a cell has is written, cleared or moved to other attributes without more storage. A spacious heap
whose counts are true is fitted (`Heap.Fitted`). Every operation on properties keeps a heap fitted, and
its shapes as wide as they were (`Refits`). -/

namespace ScriptMachine

namespace Cell

variable {c : Cell}

/-! ### Cells -/

theorem size_ensureSlots (c : Cell) (count : Nat) :
    (c.ensureSlots count).slots.size = max c.slots.size count := by
  unfold ensureSlots
  split
  case isTrue => omega
  case isFalse =>
    simp only [Array.size_append, Array.size_replicate]
    omega

/-- A slot that is written is there afterwards. -/
theorem size_setSlot (c : Cell) (offset : Nat) (value : Value) :
    (c.setSlot offset value).slots.size = max c.slots.size (offset + 1) := by
  simp only [setSlot, Array.size_setIfInBounds]
  exact size_ensureSlots c (offset + 1)

theorem size_le_setSlot (c : Cell) (offset : Nat) (value : Value) :
    c.slots.size ≤ (c.setSlot offset value).slots.size := by
  rw [size_setSlot]
  exact Nat.le_max_left _ _

/-- Writing a slot that is there takes no storage. -/
theorem footprint_setSlot {offset : Nat} (ho : offset < c.slots.size) (value : Value) :
    (c.setSlot offset value).footprint = c.footprint := by
  have : c.ensureSlots (offset + 1) = c := if_pos ho
  simp only [setSlot, this]
  rfl

/-- A new cell has so many slots. -/
theorem le_size_new (shape : ShapeId) (count : Nat) (payload : Payload) :
    count ≤ (Cell.new shape count payload).slots.size := by
  rw [Cell.new, size_ensureSlots]
  exact Nat.le_max_right _ _

theorem footprint_mapElements {f : Elements → Elements}
    (hf : ∀ e, (f e).capacity = e.capacity) (c : Cell) :
    (c.mapElements f).footprint = c.footprint := by
  obtain ⟨shape, slots, capacity, payload⟩ := c
  cases payload with
  | array e => simp only [mapElements, footprint, Payload.bytes, hf]
  | plain | string | function | activation => rfl

theorem footprint_mapScope (f : ScopeRecord → ScopeRecord) (c : Cell) :
    (c.mapScope f).footprint = c.footprint ∧ (c.mapScope f).slots = c.slots := by
  obtain ⟨shape, slots, capacity, payload⟩ := c
  cases payload with
  | activation | plain | string | function | array => exact ⟨rfl, rfl⟩

end Cell

namespace Heap

/-- **A spacious heap**: every cell has a slot for each offset its shape lays out. -/
structure Spacious (h : Heap) : Prop where
  /-- Cells are housed. -/
  housed : h.Housed
  /-- The table of shapes is intact. -/
  intact : h.shapes.Intact
  /-- Its shapes are laid out. -/
  laid : h.shapes.Laid
  /-- Cells have room for them. -/
  room : ∀ id c, h.cell? id = some c → (h.shapes.get c.shape).slotCount ≤ c.slots.size
  /-- The free list is in order, as long as all slots have handles. -/
  listed : h.slots.size ≤ 2 ^ 32 → h.FreeListed

/-- **A fitted heap**: a spacious one whose counts are true. -/
structure Fitted (h : Heap) : Prop extends Spacious h where
  /-- The counts are true, as long as all slots have handles. -/
  accounted : h.slots.size ≤ 2 ^ 32 → h.Accounted

/-- **From a fitted heap to another one** whose shapes are as wide. -/
def Refits (h h' : Heap) : Prop := h.Fitted → h'.Fitted ∧ h.shapes.Widens h'.shapes

variable {h h' h'' : Heap} {id : Handle} {c : Cell} {name : Atom} {value : Value}

theorem Refits.refl (h : Heap) : Refits h h := fun hf => ⟨hf, .refl _⟩

theorem Refits.trans (h₁ : Refits h h') (h₂ : Refits h' h'') : Refits h h'' := fun hf =>
  have ⟨hf', hw⟩ := h₁ hf
  have ⟨hf'', hw'⟩ := h₂ hf'
  ⟨hf'', hw.trans hw'⟩

/-- What is neither slots nor shapes nor counts does not matter. -/
theorem Refits.congr (hs : h'.slots = h.slots) (hl : h'.freeList = h.freeList)
    (hshapes : h'.shapes = h.shapes) (hb : h'.liveBytes = h.liveBytes)
    (hc : h'.liveCells = h.liveCells) : Refits h h' := by
  intro hf
  refine ⟨⟨⟨hf.housed.congr (hf.housed.white.congr hs) (cell?_congr hs) hshapes,
    hshapes ▸ hf.intact, hshapes ▸ hf.laid, ?_, fun hsize => ?_⟩, fun hsize => ?_⟩,
    hshapes ▸ .refl _⟩
  · rw [cell?_congr hs, hshapes]
    exact hf.room
  · exact (hf.listed (hs ▸ hsize)).congr hs hl
  · exact (hf.accounted (hs ▸ hsize)).congr hs hb hc

theorem Refits.intern (h : Heap) (name : String) : Refits h (h.intern name).2 :=
  .congr rfl rfl rfl rfl rfl

/-! ### One cell -/

/-- **A cell moves** to a shape that it has room for. -/
theorem Spacious.move (hr : h.Spacious) (hcell : h.cell? id = some c) {t : ShapeTable} {target : ShapeId}
    {f : Cell → Cell} {room : Nat} (hm : h.shapes.Moves c.shape t target) (hi : t.Intact)
    (hl : h.shapes.Lays t target room) (hshape : (f c).shape = target) (hkind : (f c).kind = c.kind)
    (hroom : room ≤ (f c).slots.size) : ({ h with shapes := t }.modifyCell id f).Spacious where
  housed := hr.housed.move hcell hm hshape hkind
  intact := hi
  laid := hl.laid
  room other d hd := by
    rw [cell?_move hcell] at hd
    split at hd
    case isTrue =>
      obtain rfl := Option.some.inj hd
      rw [hshape]
      exact hl.room.trans_le hroom
    case isFalse hne =>
      refine Eq.trans_le (congrArg Shape.slotCount ?_) (hr.room other d hd)
      exact (hr.housed.shape_of_other hcell hm hne hd).2
  listed hsize := by
    have hl := hr.listed (by simpa [modifyCell] using hsize)
    have hl' : ({ h with shapes := t } : Heap).FreeListed := hl.congr rfl rfl
    exact hl'.modifyCell f

theorem Spacious.refreshFootprint (hr : h.Spacious) : (h.refreshFootprint id).Spacious := by
  have hs : (h.refreshFootprint id).shapes = h.shapes := by rw [refreshFootprint_frame]
  have hcell := cell?_refreshFootprint h id
  refine ⟨hr.housed.congr hr.housed.white.refreshFootprint hcell hs, hs ▸ hr.intact, hs ▸ hr.laid, ?_,
    fun hsize => ?_⟩
  · rw [hcell, hs]
    exact hr.room
  · rw [(retains_refreshFootprint h id).size] at hsize
    exact (hr.listed hsize).refreshFootprint

/-- **A cell is rewritten** and takes as many bytes as before. -/
theorem Fitted.rewrite (hf : h.Fitted) (hcell : h.cell? id = some c) {t : ShapeTable}
    {target : ShapeId} {f : Cell → Cell} {room : Nat} (hm : h.shapes.Moves c.shape t target)
    (hi : t.Intact) (hl : h.shapes.Lays t target room) (hshape : (f c).shape = target)
    (hkind : (f c).kind = c.kind) (hroom : room ≤ (f c).slots.size)
    (hbytes : (f c).footprint = c.footprint) :
    ({ h with shapes := t }.modifyCell id f).Fitted ∧ h.shapes.Widens t := by
  refine ⟨⟨hf.toSpacious.move hcell hm hi hl hshape hkind hroom, fun hsize => ?_⟩, hl.widens⟩
  have ha : ({ h with shapes := t } : Heap).Accounted :=
    (hf.accounted (by simpa [modifyCell] using hsize)).congr rfl rfl rfl
  refine ha.modifyCell fun d hd => ?_
  obtain rfl := Option.some.inj (hcell.symm.trans hd)
  exact hbytes

/-- **A cell is rewritten** and its bytes are counted again. -/
theorem Fitted.resize (hf : h.Fitted) (hcell : h.cell? id = some c) {t : ShapeTable}
    {target : ShapeId} {f : Cell → Cell} {room : Nat} (hm : h.shapes.Moves c.shape t target)
    (hi : t.Intact) (hl : h.shapes.Lays t target room) (hshape : (f c).shape = target)
    (hkind : (f c).kind = c.kind) (hroom : room ≤ (f c).slots.size) :
    (({ h with shapes := t }.modifyCell id f).refreshFootprint id).Fitted ∧
      h.shapes.Widens (({ h with shapes := t }.modifyCell id f).refreshFootprint id).shapes := by
  have hr := hf.toSpacious.move hcell hm hi hl hshape hkind hroom
  refine ⟨⟨hr.refreshFootprint, fun hsize => ?_⟩, ?_⟩
  · rw [(retains_refreshFootprint _ id).size] at hsize
    have ha : ({ h with shapes := t } : Heap).Accounted :=
      (hf.accounted (by simpa [modifyCell] using hsize)).congr rfl rfl rfl
    exact ha.refresh f
  · rw [refreshFootprint_frame]
    exact hl.widens

/-- A cell may stay at its shape. -/
theorem Fitted.moves_self (hf : h.Fitted) (hcell : h.cell? id = some c) :
    h.shapes.Moves c.shape h.shapes c.shape :=
  .refl hf.intact.toOrdered (hf.housed.live id c hcell)

/-- A cell that stays at its shape takes as many bytes as before. -/
theorem Refits.stay (hcell : h.cell? id = some c) {f : Cell → Cell} (hs : (f c).shape = c.shape)
    (hk : (f c).kind = c.kind) (hsize : c.slots.size ≤ (f c).slots.size)
    (hbytes : h.Fitted → (f c).footprint = c.footprint) : Refits h (h.modifyCell id f) := fun hf =>
  hf.rewrite hcell (hf.moves_self hcell) hf.intact (hf.laid.stay _) hs hk
    ((hf.room id c hcell).trans hsize) (hbytes hf)

/-- **Writing a slot** that the shape of the cell lays out. -/
theorem Refits.slot (hcell : h.cell? id = some c) {offset : Nat}
    (ho : h.Fitted → offset < (h.shapes.get c.shape).slotCount) (value : Value) :
    Refits h (h.modifyCell id (·.setSlot offset value)) := by
  obtain ⟨hs, hp⟩ := c.setSlot_frame offset value
  refine .stay hcell hs (congrArg Payload.kind hp) (Cell.size_le_setSlot c offset value) fun hf => ?_
  exact Cell.footprint_setSlot ((ho hf).trans_le (hf.room id c hcell)) value

/-- Changing elements within their capacity. -/
theorem Refits.elements (h : Heap) (id : Handle) {f : Elements → Elements}
    (hf : ∀ e, (f e).capacity = e.capacity) :
    Refits h (h.modifyCell id (Cell.mapElements f)) := by
  cases hcell : h.cell? id with
  | none =>
    rw [modifyCell_of_none _ hcell]
    exact .refl h
  | some c =>
    obtain ⟨hs, hslots, hk⟩ := mapElements_frame f c
    exact .stay hcell hs hk (by rw [hslots]) fun _ => Cell.footprint_mapElements hf c

/-- Changing elements and counting their bytes. -/
theorem Refits.growElements (h : Heap) (id : Handle) (f : Elements → Elements) :
    Refits h ((h.modifyCell id (Cell.mapElements f)).refreshFootprint id) := by
  cases hcell : h.cell? id with
  | none =>
    rw [modifyCell_of_none _ hcell, refreshFootprint_of_none hcell]
    exact .refl h
  | some c =>
    obtain ⟨hs, hslots, hk⟩ := mapElements_frame f c
    intro hf
    exact hf.resize hcell (hf.moves_self hcell) hf.intact (hf.laid.stay _) hs hk
      (by rw [hslots]; exact hf.room id c hcell)

theorem Refits.scope (h : Heap) (id : Handle) (index : Nat) (value : Value) :
    Refits h (h.modifyCell id (Cell.mapScope fun scope =>
      { scope with slots := scope.slots.setIfInBounds index value })) := by
  cases hcell : h.cell? id with
  | none =>
    rw [modifyCell_of_none _ hcell]
    exact .refl h
  | some c =>
    obtain ⟨hs, hk⟩ := mapScope_frame
      (fun scope => { scope with slots := scope.slots.setIfInBounds index value }) c
    obtain ⟨hbytes, hslots⟩ := Cell.footprint_mapScope
      (fun scope => { scope with slots := scope.slots.setIfInBounds index value }) c
    exact .stay hcell hs hk (by rw [hslots]) fun _ => hbytes

/-! ### Named properties -/

/-- A property of a cell is stored in a slot that its shape lays out. -/
theorem Fitted.offset_lt (hf : h.Fitted) {shape : ShapeId} {p : Property}
    (hl : h.shapes.lookup? shape name = some p) :
    p.offset < (h.shapes.get shape).slotCount :=
  (hf.laid shape).used (Shape.mem_of_lookup? hl)

theorem addNamed_refits (hcell : h.cell? id = some c) (hl : h.shapes.lookup? c.shape name = none)
    (value : Value) (attributes : Attributes) :
    Refits h (h.addNamed id c.shape name value attributes) := by
  intro hf
  have hlive := hf.housed.live id c hcell
  have hroom := hf.room id c hcell
  refine hf.resize hcell (ShapeTable.addProperty_spec hf.intact.toOrdered hlive hl attributes).moves
    (ShapeTable.addProperty_intact hf.intact hlive hl attributes)
    (hf.laid.addProperty hf.intact.toOrdered hlive hl attributes) rfl
    (congrArg Payload.kind (c.setSlot_frame _ value).2) ?_
  dsimp only
  rw [Cell.size_setSlot]
  omega

theorem putNamed_refits (h : Heap) (id : Handle) (name : Atom) (value : Value)
    (attributes : Attributes) : Refits h (leaves (putNamed id name value attributes h)) := by
  cases hcell : h.cell? id with
  | none =>
    rw [putNamed_stale hcell]
    exact .refl h
  | some c =>
    cases hl : h.shapes.lookup? c.shape name with
    | none =>
      rw [putNamed_none hcell hl]
      exact addNamed_refits hcell hl value attributes
    | some p =>
      rw [putNamed_some hcell hl]
      split
      case isTrue => exact .refl h
      case isFalse => exact .slot hcell (fun hf => hf.offset_lt hl) value

/-- **Removing a property** clears its slot and keeps it. -/
theorem removeNamed_refits (hcell : h.cell? id = some c) (name : Atom) :
    Refits h (h.removeNamed id c.shape name) := by
  intro hf
  have hlive := hf.housed.live id c hcell
  obtain ⟨hm, hremoved, -, -⟩ := ShapeTable.removeProperty_spec hf.intact.toOrdered hlive name
  have hi := ShapeTable.removeProperty_intact hf.intact hlive name
  have hlays := hf.laid.removeProperty hf.intact.toOrdered hlive name
  have hroom := hf.room id c hcell
  unfold removeNamed
  generalize h.shapes.removeProperty c.shape name = result at *
  obtain ⟨target, removed, t⟩ := result
  cases removed with
  | none =>
    exact hf.rewrite hcell hm hi hlays rfl rfl hroom rfl
  | some p =>
    obtain ⟨hs, hp⟩ := Cell.setSlot_frame { c with shape := target } p.offset .undefined
    have ho := (hf.offset_lt hremoved.symm).trans_le hroom
    exact hf.rewrite hcell hm hi hlays hs (congrArg Payload.kind hp)
      (hroom.trans (Cell.size_le_setSlot { c with shape := target } p.offset .undefined))
      (Cell.footprint_setSlot (c := { c with shape := target }) ho .undefined)

/-! ### Elements -/

theorem clearElement_refits (h : Heap) (id : Handle) (name : Atom) :
    Refits h (h.clearElement id name) := by
  unfold clearElement
  cases h.atoms.arrayIndex? name with
  | none => exact .refl h
  | some index => exact .elements h id fun e => rfl

theorem storeElement_refits (h : Heap) (id : Handle) (position length capacity : Nat)
    (value : Value) : Refits h (h.storeElement id position length capacity value) := by
  unfold storeElement
  split
  case isTrue => exact .elements h id fun e => rfl
  case isFalse => exact .growElements h id _

theorem putElement_refits (hcell : h.cell? id = some c) (position length capacity : Nat)
    (named : Option Property) (value : Value) :
    Refits h (leaves (putElement id position length capacity named value h)) := by
  rcases putElement_cases hcell position length capacity named value with heq | ⟨room, heq⟩
  · rw [heq]
    exact .refl h
  · rw [heq]
    refine .trans ?_ (storeElement_refits _ id position length room value)
    cases named with
    | none => exact .refl h
    | some p => exact removeNamed_refits hcell p.name

theorem setIndex_refits (h : Heap) (id : Handle) (index : UInt32) (value : Value) :
    Refits h (leaves (setIndex id index value h)) := by
  cases hcell : h.cell? id with
  | none =>
    simp only [setIndex, bind, EStateM.bind, requireCell_none hcell]
    exact .refl h
  | some c =>
    rcases setIndex_cases hcell index value with
      ⟨heq, -⟩ | heq | ⟨e, named, -, -, -, heq⟩ | ⟨p, -, -, heq⟩
    · rw [heq]
      exact .trans (.intern h _) (putNamed_refits _ id _ value _)
    · rw [heq]
      exact .refl h
    · rw [heq]
      exact putElement_refits hcell _ _ _ named value
    · rw [heq]
      exact putNamed_refits h id p.name value _

theorem setArrayLength_refits (h : Heap) (id : Handle) (length : Value) :
    Refits h (leaves (setArrayLength id length h)) := by
  rcases setArrayLength_cases h id length with heq | ⟨c, e, n, -, -, heq⟩
  · rw [heq]
    exact .refl h
  · rw [heq]
    exact .growElements h id _

/-! ### Properties of any name -/

theorem setProperty_refits (h : Heap) (id : Handle) (name : Atom) (value : Value) :
    Refits h (leaves (setProperty id name value h)) := by
  cases hcell : h.cell? id with
  | none =>
    simp only [setProperty, bind, EStateM.bind, requireCell_none hcell]
    exact .refl h
  | some c =>
    rcases setProperty_cases hcell name value with
      ⟨index, -, -, heq⟩ | ⟨-, -, heq⟩ | heq | ⟨-, heq⟩
    · rw [heq]
      exact setIndex_refits h id index value
    · have := setArrayLength_refits h id value
      rw [heq]
      cases hset : setArrayLength id value h <;>
        simpa [hset, leaves, bind, EStateM.bind, pure, EStateM.pure] using this
    · rw [heq]
      exact .refl h
    · rw [heq]
      exact putNamed_refits h id name value _

/-- **Redefining a property** writes the slot it has. -/
theorem redefine_refits (hcell : h.cell? id = some c) {p : Property}
    (hl : h.shapes.lookup? c.shape name = some p) (value : Value) (attributes : Attributes) :
    Refits h ({ h with shapes := (h.shapes.changeAttributes c.shape name attributes).2 }.modifyCell id
      fun cell => { cell.setSlot p.offset value with
        shape := (h.shapes.changeAttributes c.shape name attributes).1 }) := by
  intro hf
  have hlive := hf.housed.live id c hcell
  have hroom := hf.room id c hcell
  exact hf.rewrite hcell
    (ShapeTable.changeAttributes_spec hf.intact.toOrdered hlive name attributes).1
    (ShapeTable.changeAttributes_intact hf.intact hlive name attributes)
    (hf.laid.changeAttributes hf.intact.toOrdered hlive name attributes) rfl
    (congrArg Payload.kind (c.setSlot_frame p.offset value).2)
    (hroom.trans (Cell.size_le_setSlot c p.offset value))
    (Cell.footprint_setSlot ((hf.offset_lt hl).trans_le hroom) value)

theorem defineProperty_refits (h : Heap) (id : Handle) (name : Atom) (value : Value)
    (attributes : Attributes) :
    Refits h (leaves (defineProperty id name value attributes h)) := by
  cases hcell : h.cell? id with
  | none =>
    simp only [defineProperty, bind, EStateM.bind, requireCell_none hcell]
    exact .refl h
  | some c =>
    obtain ⟨c', hcell', hshape, hshapes, -, -⟩ := clearElement_cell hcell name
    refine .trans (clearElement_refits h id name) ?_
    rcases defineProperty_cases hcell name value attributes with
      ⟨-, heq⟩ | ⟨p, hl, ⟨-, heq⟩ | ⟨-, heq⟩⟩
    · rw [heq]
      exact putNamed_refits _ id name value attributes
    · rw [← hshape, ← hshapes] at hl
      rw [heq]
      exact .slot hcell' (fun hf => hf.offset_lt hl) value
    · rw [← hshape, ← hshapes] at hl
      rw [heq, ← hshape, ← hshapes]
      exact redefine_refits hcell' hl value attributes

theorem deleteProperty_refits (h : Heap) (id : Handle) (name : Atom) :
    Refits h (leaves (deleteProperty id name h)) := by
  cases hcell : h.cell? id with
  | none =>
    simp only [deleteProperty, bind, EStateM.bind, requireCell_none hcell]
    exact .refl h
  | some c =>
    rcases deleteProperty_cases hcell name with heq | heq | heq
    · rw [heq]
      exact .refl h
    · rw [heq]
      exact clearElement_refits h id name
    · rw [heq]
      exact removeNamed_refits hcell name

theorem setPrototype_refits (h : Heap) (id : Handle) (prototype : Value) :
    Refits h (leaves (setPrototype id prototype h)) := by
  cases hcell : h.cell? id with
  | none =>
    simp only [setPrototype, bind, EStateM.bind, requireCell_none hcell]
    exact .refl h
  | some c =>
    rcases setPrototype_cases hcell prototype with heq | heq
    · rw [heq]
      exact .refl h
    · rw [heq]
      intro hf
      have hlive := hf.housed.live id c hcell
      exact hf.rewrite hcell
        (ShapeTable.changePrototype_spec hf.intact.toOrdered hlive prototype).1
        (ShapeTable.changePrototype_intact hf.intact hlive prototype)
        (hf.laid.changePrototype hf.intact hlive prototype) rfl rfl (hf.room id c hcell) rfl

/-! ### Other steps -/

theorem Spacious.new (limits : HeapLimits) : (Heap.new limits).Spacious where
  housed := (coherent_new limits).housed
  intact := ShapeTable.intact_empty
  laid := ShapeTable.laid_new
  room id c hcell := by simp [Heap.new, cell?] at hcell
  listed _ := (Regular.new limits).listed

theorem Fitted.new (limits : HeapLimits) : (Heap.new limits).Fitted :=
  ⟨.new limits, fun _ => (Regular.new limits).accounted⟩

theorem Refits.anchor (h : Heap) (change : Anchoring) : Refits h (h.anchor change) := by
  obtain ⟨hslots, hfree, hshapes, -⟩ := anchor_frame h change
  have hcounts : (h.anchor change).liveBytes = h.liveBytes ∧
      (h.anchor change).liveCells = h.liveCells := by
    cases change <;> simp only [Heap.anchor, addRoot, removeRoot, pushTemporary, truncateTemporaries]
    case addRoot | removeRoot | pushTemporary | truncateTemporaries => split <;> exact ⟨rfl, rfl⟩
    case setRoot | clearTemporaries => exact ⟨rfl, rfl⟩
  exact .congr hslots hfree hshapes hcounts.1 hcounts.2

theorem Refits.root (h : Heap) (kind : CellKind) (prototype : Value) :
    Refits h (h.rootShape kind prototype).2 := by
  intro hf
  obtain ⟨hg, -⟩ := ShapeTable.root_spec hf.intact.toOrdered kind prototype
  obtain ⟨hlaid, hwidens⟩ := hf.laid.root hf.intact.toOrdered kind prototype
  refine ⟨⟨⟨hf.housed.root kind prototype, ShapeTable.root_intact hf.intact kind prototype, hlaid,
    fun id c hcell => ?_, fun hsize => (hf.listed hsize).congr rfl rfl⟩,
    fun hsize => (hf.accounted hsize).congr rfl rfl rfl⟩, hwidens⟩
  refine Eq.trans_le (congrArg Shape.slotCount ?_) (hf.room id c hcell)
  exact (hg.keeps c.shape (hf.housed.live id c hcell) fun h => h).2

/-- A cell after an allocation was there before, or it is new. -/
theorem cell?_allocate_or_new {shape : ShapeId} {payload : Payload}
    (hc : (h.allocate shape payload).2.cell? id = some c) :
    h.cell? id = some c ∨ c = Cell.new shape (h.shapes.get shape).slotCount payload := by
  rcases allocate_cases h shape payload with ⟨_, heq⟩ | ⟨bytes, -, heq⟩
  · rw [heq] at hc
    exact .inl hc
  · rw [heq] at hc
    rcases cell?_place_cases (h := h) (Cell.new shape (h.shapes.get shape).slotCount payload)
      bytes id with hsame | ⟨-, hnew⟩
    · exact .inl (hsame.symm.trans hc)
    · exact .inr (Option.some.inj (hc.symm.trans hnew))

/-- **Allocating a cell on a shared shape** of its kind. -/
theorem Refits.allocate (h : Heap) {shape : ShapeId} {payload : Payload}
    (hs : h.shapes.Shared shape) (hk : (h.shapes.get shape).kind = payload.kind) :
    Refits h (h.allocate shape payload).2 := by
  intro hf
  obtain ⟨hshapes, -⟩ := allocate_frame h shape payload
  have hle := size_le_allocated h shape payload
  refine ⟨⟨⟨hf.housed.allocate hs hk, hshapes ▸ hf.intact, hshapes ▸ hf.laid,
    fun id c hcell => ?_, fun hsize => (hf.listed (hle.trans hsize)).allocate hsize⟩,
    fun hsize => (hf.accounted (hle.trans hsize)).allocate (hf.listed (hle.trans hsize)) _ _⟩,
    hshapes ▸ .refl _⟩
  rw [hshapes]
  rcases cell?_allocate_or_new hcell with hold | rfl
  · exact hf.room id c hold
  · rw [(payload_new shape _ payload).2]
    exact Cell.le_size_new shape _ payload

/-- **A collection** leaves a fitted heap. -/
theorem Fitted.collect (hf : h.Fitted) (values : List Value) (words : List UInt64) :
    (h.collect values words).2.Fitted := by
  have hw := hf.housed.white
  obtain ⟨inUse, hshapes, -, -⟩ := collect_shapes hw values words
  have hsame := size_collect hw values words
  refine ⟨⟨hf.housed.collect values words, ?_, ?_, fun id c hcell => ?_, fun hsize => ?_⟩,
    fun hsize => ?_⟩
  · rw [hshapes]
    exact ShapeTable.sweep_intact hf.intact _ _
  · rw [hshapes]
    exact hf.laid.sweep _ _
  · rw [shape_collect hw values words hcell]
    exact hf.room id c ((cell?_collect hw values words).mp hcell).1
  · exact (hf.listed (hsame ▸ hsize)).collect hw values words
  · exact (hf.accounted (hsame ▸ hsize)).collect hw values words

end Heap

end ScriptMachine
