import ScriptMachine.Proofs.Heap.Ledger

/-! # Shapes are interned

Cells that start on the same empty shape and get the same properties, with the same attributes in the
same order, have the same shape, and cells that get different ones have different shapes
(`interned_shapes`). The additions of a cell are a path of listed edges from its empty shape to the
one it has (`ShapeTable.follow`). Nothing that is done to other cells removes an edge, and a collection
keeps the path because the shapes along it are what the shape at its end was derived from
(`follow_sweep`). The path can be read off the properties of that shape (`follow_properties`). -/

namespace ScriptMachine

namespace ShapeTable

/-- **The shape a chain of additions leads to**, if all its edges are listed. -/
def follow (t : ShapeTable) : ShapeId → List (Atom × Attributes) → Option ShapeId
  | id, [] => some id
  | id, (name, attributes) :: rest =>
    match t.additions[(id, name, attributes)]? with
    | some next => t.follow next rest
    | none => none

variable {t t' : ShapeTable} {id source target : ShapeId} {as bs : List (Atom × Attributes)}

theorem follow_cons {name : Atom} {attributes : Attributes} :
    t.follow id ((name, attributes) :: as) = some target ↔
      ∃ next, t.additions[(id, name, attributes)]? = some next ∧ t.follow next as = some target := by
  rw [follow]
  cases t.additions[(id, name, attributes)]? <;> simp

theorem follow_append : t.follow id (as ++ bs) = some target ↔
    ∃ next, t.follow id as = some next ∧ t.follow next bs = some target := by
  induction as generalizing id with
  | nil => simp [follow]
  | cons a as ih =>
    obtain ⟨name, attributes⟩ := a
    rw [List.cons_append, follow_cons]
    simp only [ih, follow_cons]
    constructor
    · rintro ⟨next, hedge, next', has, hbs⟩
      exact ⟨next', ⟨next, hedge, has⟩, hbs⟩
    · rintro ⟨next', ⟨next, hedge, has⟩, hbs⟩
      exact ⟨next, hedge, next', has, hbs⟩

theorem follow_single {name : Atom} {attributes : Attributes} :
    t.follow id [(name, attributes)] = some target ↔
      t.additions[(id, name, attributes)]? = some target := by
  rw [follow_cons]
  simp [follow]

theorem follow_mono
    (ha : ∀ (key : ShapeId × Atom × Attributes) s, t.additions[key]? = some s →
      t'.additions[key]? = some s)
    (hf : t.follow id as = some target) : t'.follow id as = some target := by
  induction as generalizing id with
  | nil => exact hf
  | cons a as ih =>
    obtain ⟨next, hedge, hrest⟩ := follow_cons.mp hf
    exact follow_cons.mpr ⟨next, ha _ _ hedge, ih hrest⟩

/-- A path from a shared shape leads to a shared one. -/
theorem follow_shared (ho : t.Ordered) (hs : t.Shared id) (hf : t.follow id as = some target) :
    t.Shared target := by
  induction as generalizing id with
  | nil => exact Option.some.inj hf ▸ hs
  | cons a as ih =>
    obtain ⟨next, hedge, hrest⟩ := follow_cons.mp hf
    exact ih (ho.addition _ _ _ _ hedge).2.1 hrest

/-- **The properties at the end of a path** are those at its start and the ones on the way. -/
theorem follow_properties (ho : t.Ordered) (hf : t.follow id as = some target) :
    (t.get target).properties.toList.map (fun p => (p.name, p.attributes)) =
      (t.get id).properties.toList.map (fun p => (p.name, p.attributes)) ++ as := by
  induction as generalizing id with
  | nil =>
    rw [Option.some.inj hf, List.append_nil]
  | cons a as ih =>
    obtain ⟨next, hedge, hrest⟩ := follow_cons.mp hf
    obtain ⟨-, -, -, -, offset, he⟩ := ho.addition _ _ _ _ hedge
    rw [ih hrest, he, Array.toList_push, List.map_append]
    simp

/-- What was derived into a kept shape is kept. -/
theorem follow_keeps (hi : t.Intact) {inUse : List ShapeId} {alive : Value → Bool}
    (hk : t.keeps inUse alive target = true) (hf : t.follow id as = some target) :
    t.keeps inUse alive id = true := by
  induction as generalizing id with
  | nil => exact Option.some.inj hf ▸ hk
  | cons a as ih =>
    obtain ⟨next, hedge, hrest⟩ := follow_cons.mp hf
    exact kept_closed hi.parented (ih hrest) (hi.added _ _ hedge)

/-- **A sweep keeps the path** to a shape that it keeps. -/
theorem follow_sweep (hi : t.Intact) {inUse : List ShapeId} {alive : Value → Bool}
    (hk : t.keeps inUse alive target = true) (hf : t.follow id as = some target) :
    (t.sweep inUse alive).2.follow id as = some target := by
  induction as generalizing id with
  | nil => exact hf
  | cons a as ih =>
    obtain ⟨next, hedge, hrest⟩ := follow_cons.mp hf
    exact follow_cons.mpr ⟨next, (sweep_additions t inUse alive _ next).mpr
      ⟨hedge, follow_keeps hi hk hf, follow_keeps hi hk hrest⟩, ih hrest⟩

/-- **An addition to a shared shape** with room for it is listed. -/
theorem addProperty_listed (hi : t.Intact) (hs : t.Shared source)
    (hlt : (t.get source).properties.size < maxTransitionLength) (name : Atom)
    (attributes : Attributes) :
    (t.addProperty source name attributes).2.2.additions[(source, name, attributes)]? =
      some (t.addProperty source name attributes).1 := by
  have hcount := (hi.derived source hs.1).count hs.2
  unfold addProperty
  dsimp only
  rw [if_neg (by simp [hs.2])]
  cases ha : t.additions[(source, name, attributes)]? with
  | some target => exact ha
  | none =>
    dsimp only
    rw [if_neg (by omega)]
    simp

end ShapeTable

namespace Heap

/-- **What an action adds to a cell**: a property, with its attributes, or nothing. A name that is
written is neither an element nor the length of the cell. -/
inductive Growth (h : Heap) (id : Handle) : Action → List (Atom × Attributes) → Prop
  /-- The action is about something else. -/
  | elsewhere {a : Action} : a.target? ≠ some id → Growth h id a []
  /-- A write adds a property. -/
  | set {c : Cell} {name : Atom} (value : Value) : h.cell? id = some c → h.Named c.kind name →
      h.shapes.lookup? c.shape name = none →
      Growth h id (.setProperty id name value) [(name, .none)]
  /-- A definition adds a property. -/
  | define {c : Cell} {name : Atom} (value : Value) (attributes : Attributes) :
      h.cell? id = some c → h.shapes.lookup? c.shape name = none →
      Growth h id (.defineProperty id name value attributes) [(name, attributes)]
  /-- A write meets a property. -/
  | replace {c : Cell} {name : Atom} {p : Property} (value : Value) : h.cell? id = some c →
      h.Named c.kind name → h.shapes.lookup? c.shape name = some p →
      Growth h id (.setProperty id name value) []
  /-- A definition meets a property with these attributes. -/
  | redefine {c : Cell} {name : Atom} {p : Property} (value : Value) : h.cell? id = some c →
      h.shapes.lookup? c.shape name = some p →
      Growth h id (.defineProperty id name value p.attributes) []
  /-- A replayed write meets a property. -/
  | replay {r : Report} (value : Value) : r.target = r.source → Growth h id (.replay id r value) []
  /-- A write of an index meets an element. -/
  | element {c : Cell} {index : UInt32} (value : Value) : h.cell? id = some c →
      c.Filled index.toNat → Growth h id (.setIndex id index value) []
  /-- The length of an array is written. -/
  | length (length : Value) : Growth h id (.setArrayLength id length) []

/-- **The additions a cell has received** since it was allocated on an empty shape. It has been live
ever since. -/
inductive Grown (root : ShapeId) (id : Handle) : Ledger → List (Atom × Attributes) → Prop
  /-- The cell is allocated. -/
  | allocate {s : Ledger} (payload : Payload) : s.Reached Action.Allowed →
      (Action.allocate root payload).Allowed s → (s.heap.allocate root payload).1 = .ok id →
      Grown root id ((Action.allocate root payload).run s) []
  /-- Something is done. -/
  | step {s : Ledger} {a : Action} {as added : List (Atom × Attributes)} : Grown root id s as →
      a.Allowed s → Growth s.heap id a added → (a.run s).heap.isLive id = true →
      Grown root id (a.run s) (as ++ added)

variable {h : Heap} {s : Ledger} {a : Action} {id : Handle} {c : Cell} {root shape : ShapeId}
  {as added : List (Atom × Attributes)} {name : Atom} {value : Value}

/-! ### The shape of a cell after a write -/

/-- **The cell moves along the edge** of an addition to its shape. -/
structure Lengthens (h : Heap) (id : Handle) (c : Cell) (name : Atom) (attributes : Attributes)
    (h' : Heap) : Prop where
  /-- The edge is looked up, and made where there is none. -/
  shapes : h'.shapes = (h.shapes.addProperty c.shape name attributes).2.2
  /-- The cell has the shape at its end. -/
  shape : h'.shapeOf? id = some (h.shapes.addProperty c.shape name attributes).1

theorem shapeOf?_modifyCell {f : Cell → Cell} (hcell : h.cell? id = some c) :
    (h.modifyCell id f).shapeOf? id = some (f c).shape := by
  rw [shapeOf?, cell?_modifyCell_self, hcell]
  rfl

theorem shapeOf?_setSlot (hcell : h.cell? id = some c) (offset : Nat) (value : Value) :
    (h.modifyCell id (·.setSlot offset value)).shapeOf? id = some c.shape := by
  rw [shapeOf?_modifyCell hcell, (c.setSlot_frame offset value).1]

theorem shapeOf?_mapElements (hcell : h.cell? id = some c) (f : Elements → Elements) :
    (h.modifyCell id (Cell.mapElements f)).shapeOf? id = some c.shape := by
  rw [shapeOf?_modifyCell hcell, (mapElements_frame f c).1]

theorem addNamed_lengthens (hcell : h.cell? id = some c) (name : Atom) (value : Value)
    (attributes : Attributes) :
    h.Lengthens id c name attributes (h.addNamed id c.shape name value attributes) where
  shapes := (addNamed_frame h id c.shape name value attributes).1
  shape := by
    rw [addNamed, shapeOf?, cell?_refreshFootprint, cell?_move hcell, if_pos rfl]
    rfl

/-- A write that finds no property adds one. -/
theorem setProperty_lengthens (hcell : h.cell? id = some c) (hn : h.Named c.kind name)
    (hl : h.shapes.lookup? c.shape name = none) (value : Value) :
    h.Lengthens id c name .none (leaves (setProperty id name value h)) := by
  rw [setProperty_named hcell hn, putNamed_none hcell hl]
  exact addNamed_lengthens hcell name value .none

/-- So does a definition. -/
theorem defineProperty_lengthens (hcell : h.cell? id = some c)
    (hl : h.shapes.lookup? c.shape name = none) (value : Value) (attributes : Attributes) :
    h.Lengthens id c name attributes (leaves (defineProperty id name value attributes h)) := by
  obtain ⟨d, hd, hshape, hshapes, -, -⟩ := clearElement_cell hcell name
  rcases defineProperty_cases hcell name value attributes with ⟨-, heq⟩ | ⟨p, hp, -⟩
  · have hl' : (h.clearElement id name).shapes.lookup? d.shape name = none := by
      rw [hshapes, hshape]
      exact hl
    rw [heq, putNamed_none hd hl']
    have hlong := addNamed_lengthens hd name value attributes
    exact ⟨by rw [← hshape, ← hshapes]; exact hlong.shapes,
      by rw [← hshape, ← hshapes]; exact hlong.shape⟩
  · rw [hl] at hp
    cases hp

/-- A write that finds a property stays on the shape. -/
theorem shapeOf?_setProperty {p : Property} (hcell : h.cell? id = some c) (hn : h.Named c.kind name)
    (hl : h.shapes.lookup? c.shape name = some p) (value : Value) :
    (leaves (setProperty id name value h)).shapeOf? id = some c.shape := by
  rw [setProperty_named hcell hn, putNamed_some hcell hl]
  split
  · exact congrArg (Option.map Cell.shape) hcell
  · exact shapeOf?_setSlot hcell p.offset value

/-- So does a definition that finds a property with the same attributes. -/
theorem shapeOf?_defineProperty {p : Property} (hcell : h.cell? id = some c)
    (hl : h.shapes.lookup? c.shape name = some p) (value : Value) :
    (leaves (defineProperty id name value p.attributes h)).shapeOf? id = some c.shape := by
  obtain ⟨d, hd, hshape, -, -, -⟩ := clearElement_cell hcell name
  rcases defineProperty_cases hcell name value p.attributes with
    ⟨hn, -⟩ | ⟨q, hq, ⟨-, heq⟩ | ⟨hne, -⟩⟩
  · rw [hl] at hn
    cases hn
  · rw [heq, shapeOf?_setSlot hd q.offset value, hshape]
  · rw [hl] at hq
    exact absurd (congrArg Property.attributes (Option.some.inj hq)).symm hne

/-- So does a write of an index that has an element. -/
theorem shapeOf?_setIndex (hcell : h.cell? id = some c) {index : UInt32}
    (hf : c.Filled index.toNat) (value : Value) :
    (leaves (setIndex id index value h)).shapeOf? id = some c.shape := by
  obtain ⟨e, v, hp, hitem, hh⟩ := hf
  have hlt := (Array.getElem?_eq_some_iff.mp hitem).1
  have heq : setIndex id index value h =
      putElement id index.toNat e.items.size e.capacity none value h := by
    simp only [setIndex, bind, EStateM.bind, requireCell_some hcell, hp, Nat.not_lt.mpr hlt.le,
      if_false, hitem, hh, get_apply, Bool.not_false, if_true]
  rw [heq]
  rcases putElement_cases hcell index.toNat e.items.size e.capacity none value with
    hfail | ⟨room, hok⟩
  · rw [hfail]
    exact congrArg (Option.map Cell.shape) hcell
  · rw [hok, dropNamed, storeElement, if_pos hlt]
    exact shapeOf?_mapElements hcell _

/-- So does a write of the length. -/
theorem shapeOf?_setArrayLength (hcell : h.cell? id = some c) (length : Value) :
    (leaves (setArrayLength id length h)).shapeOf? id = some c.shape := by
  rcases setArrayLength_cases h id length with heq | ⟨-, e, n, -, -, heq⟩
  · rw [heq]
    exact congrArg (Option.map Cell.shape) hcell
  · rw [heq, shapeOf?, cell?_refreshFootprint]
    exact shapeOf?_mapElements hcell _

/-- So does a replay of a write that found its property. -/
theorem shapeOf?_writeSlot {r : Report} (hcell : h.cell? id = some c) (hv : r.Valid h)
    (hs : r.source = c.shape) (hsame : r.target = r.source) (value : Value) :
    (h.writeSlot id r.target r.offset value).shapeOf? id = some c.shape := by
  rcases writeSlot_replay hcell hv hs value with ⟨p, -, heq⟩ | ⟨hn, -⟩
  · rw [heq]
    exact shapeOf?_setSlot hcell p.offset value
  · obtain ⟨p, hp, -⟩ := hv.found
    rw [hsame, hs, hn] at hp
    cases hp

/-- **The shape of a cell after an action on it**: the one it had, or the one that an addition leads
to. -/
theorem Growth.shapeOf? (hs : s.Sound) (ha : a.Allowed s) (hg : Growth s.heap id a added)
    (ht : a.target? = some id) (hcell : s.heap.cell? id = some c) :
    (added = [] ∧ (a.run s).heap.shapeOf? id = some c.shape) ∨
    ∃ name attributes, added = [(name, attributes)] ∧
      s.heap.Lengthens id c name attributes (a.run s).heap := by
  have hother {d : Cell} (hd : s.heap.cell? id = some d) : d = c :=
    Option.some.inj (hd.symm.trans hcell)
  cases hg with
  | elsewhere hne => exact absurd ht hne
  | set value hd hn hl =>
    rw [Action.run, Ledger.heap_write]
    exact .inr ⟨_, _, rfl, setProperty_lengthens hcell (hother hd ▸ hn) (hother hd ▸ hl) value⟩
  | define value attributes hd hl =>
    exact .inr ⟨_, _, rfl, defineProperty_lengthens hcell (hother hd ▸ hl) value attributes⟩
  | replace value hd hn hl =>
    rw [Action.run, Ledger.heap_write]
    exact .inl ⟨rfl, shapeOf?_setProperty hcell (hother hd ▸ hn) (hother hd ▸ hl) value⟩
  | redefine value hd hl =>
    exact .inl ⟨rfl, shapeOf?_defineProperty hcell (hother hd ▸ hl) value⟩
  | @replay r value hsame =>
    obtain ⟨hr, hshape⟩ := ha
    rw [Heap.shapeOf?, hcell] at hshape
    exact .inl ⟨rfl, shapeOf?_writeSlot hcell (hs.reports r hr) (Option.some.inj hshape).symm hsame
      value⟩
  | element value hd hf =>
    rw [Action.run, Ledger.heap_write]
    exact .inl ⟨rfl, shapeOf?_setIndex hcell (hother hd ▸ hf) value⟩
  | length length => exact .inl ⟨rfl, shapeOf?_setArrayLength hcell length⟩

/-! ### Paths -/

/-- The shape of a cell is where a path of additions from an empty shape leads. -/
structure Spelled (s : Ledger) (root : ShapeId) (id : Handle) (as : List (Atom × Attributes)) :
    Prop where
  /-- The path starts at a shared shape. -/
  shared : s.heap.shapes.Shared root
  /-- That shape is empty. -/
  empty : (s.heap.shapes.get root).properties = #[]
  /-- The path leads to the shape of the cell. -/
  path : ∃ shape, s.heap.shapeOf? id = some shape ∧ s.heap.shapes.follow root as = some shape

/-- The path of additions can be read off the shape it leads to. -/
theorem Spelled.additions (hs : s.Sound) (hp : Spelled s root id as)
    (hf : s.heap.shapes.follow root as = some shape) :
    (s.heap.shapes.get shape).properties.toList.map (fun p => (p.name, p.attributes)) = as := by
  rw [ShapeTable.follow_properties hs.housed.shapes hf, hp.empty]
  rfl

/-- **An action on the cell** prolongs the path by what it adds, as long as paths are that long. -/
theorem Spelled.grow (hs : s.Sound) (hp : Spelled s root id as) (ha : a.Allowed s)
    (hg : Growth s.heap id a added) (ht : a.target? = some id)
    (hlen : (as ++ added).length ≤ maxTransitionLength) : Spelled (a.run s) root id (as ++ added) := by
  obtain ⟨-, -, hsp⟩ := Action.spares hs ha ht
  obtain ⟨hroot, hget⟩ := hsp.shared root hp.shared
  refine ⟨hroot, by rw [hget]; exact hp.empty, ?_⟩
  obtain ⟨shape, hshape, hf⟩ := hp.path
  obtain ⟨c, hcell, rfl⟩ := Option.map_eq_some_iff.mp hshape
  have hf' := ShapeTable.follow_mono hsp.additions hf
  rcases hg.shapeOf? hs ha ht hcell with ⟨rfl, hsame⟩ | ⟨name, attributes, rfl, hshapes, hnew⟩
  · exact ⟨c.shape, hsame, by rw [List.append_nil]; exact hf'⟩
  · refine ⟨_, hnew, ShapeTable.follow_append.mpr ⟨c.shape, hf', ?_⟩⟩
    have hsize : (s.heap.shapes.get c.shape).properties.size = as.length := by
      rw [← hp.additions hs hf, List.length_map, Array.length_toList]
    rw [List.length_append, List.length_singleton] at hlen
    rw [hshapes]
    exact ShapeTable.follow_single.mpr (ShapeTable.addProperty_listed hs.intact
      (ShapeTable.follow_shared hs.housed.shapes hp.shared hf) (by omega) name attributes)

/-- **An action on something else** leaves the cell, unless it is a collection, as long as all slots
have handles. -/
theorem Action.cell_elsewhere (hs : s.Sound) (ha : a.Allowed s)
    (hc : ∀ values words, a ≠ .collect values words) (ht : a.target? ≠ some id)
    (hcell : s.heap.cell? id = some c) (hsize : (a.run s).heap.slots.size ≤ 2 ^ 32) :
    (a.run s).heap.cell? id = some c := by
  cases htarget : a.target? with
  | some other =>
    have hne : id ≠ other := fun e => ht (by rw [htarget, e])
    exact ((Action.spares hs ha htarget).2.2.cells id hne).trans hcell
  | none =>
    cases a with
    | intern | rootShape => exact hcell
    | allocate shape payload =>
      cases hok : (s.heap.allocate shape payload).1 with
      | ok new =>
        have hlisted := hs.listed ((size_le_allocated s.heap shape payload).trans hsize)
        obtain ⟨hnone, hother⟩ := cell?_allocate hlisted hok hsize
        have hne : id ≠ new := by
          rintro rfl
          rw [hnone] at hcell
          cases hcell
        rw [Action.run, hother, if_neg hne]
        exact hcell
      | error failure =>
        rcases allocate_cases s.heap shape payload with ⟨_, heq⟩ | ⟨_, hok', -⟩
        · rw [Action.run, heq]
          exact hcell
        · rw [hok] at hok'
          cases hok'
    | anchor change => exact (congrFun (cell?_congr (anchor_frame s.heap change).1) id).trans hcell
    | collect values words => exact absurd rfl (hc values words)
    | setProperty | setIndex | setArrayLength | defineProperty | deleteProperty | setPrototype
    | replay | setVariable => cases htarget

/-- **A collection** that the cell outlives keeps the path. -/
theorem Spelled.collect (hs : s.Sound) (hp : Spelled s root id as) (values : List Value)
    (words : List UInt64) (hl : (s.heap.collect values words).2.isLive id = true) :
    Spelled ((Action.collect values words).run s) root id as := by
  obtain ⟨shape, hshape, hf⟩ := hp.path
  obtain ⟨c, hcell, rfl⟩ := Option.map_eq_some_iff.mp hshape
  obtain ⟨inUse, hshapes, -, hmem⟩ := collect_shapes hs.housed.white values words
  obtain ⟨c', hcell'⟩ := isLive_iff.mp hl
  obtain rfl : c = c' := Option.some.inj
    (hcell.symm.trans ((cell?_collect hs.housed.white values words).mp hcell').1)
  have hk : s.heap.shapes.keeps inUse (s.heap.collect values words).2.prototypeAlive c.shape = true :=
    ShapeTable.keeps_of_mem _ (hmem id c hcell') (hs.housed.live id c hcell)
  have hroot := ShapeTable.follow_keeps hs.intact hk hf
  refine ⟨?_, ?_, c.shape, congrArg (Option.map Cell.shape) hcell', ?_⟩
  · rw [Action.run, hshapes]
    exact ShapeTable.sweep_shared _ _ _ root hp.shared hroot
  · rw [Action.run, hshapes, ShapeTable.sweep_get _ _ _ root (.inl hroot)]
    exact hp.empty
  · rw [Action.run, hshapes]
    exact ShapeTable.follow_sweep hs.intact hk hf

/-- **An action on something else** leaves the path, as long as all slots have handles. -/
theorem Spelled.elsewhere (hs : s.Sound) (hp : Spelled s root id as) (ha : a.Allowed s)
    (ht : a.target? ≠ some id) (hl : (a.run s).heap.isLive id = true)
    (hsize : (a.run s).heap.slots.size ≤ 2 ^ 32) : Spelled (a.run s) root id as := by
  by_cases hc : ∃ values words, a = .collect values words
  · obtain ⟨values, words, rfl⟩ := hc
    exact hp.collect hs values words hl
  · have hc (values : List Value) (words : List UInt64) : a ≠ .collect values words :=
      fun h => hc ⟨values, words, h⟩
    have hlast := Action.lasts hs ha hc
    obtain ⟨hshared, hget⟩ := hlast.shared root hp.shared
    obtain ⟨shape, hshape, hf⟩ := hp.path
    obtain ⟨c, hcell, rfl⟩ := Option.map_eq_some_iff.mp hshape
    exact ⟨hshared, by rw [hget]; exact hp.empty, c.shape,
      congrArg (Option.map Cell.shape) (Action.cell_elsewhere hs ha hc ht hcell hsize),
      ShapeTable.follow_mono hlast.additions hf⟩

/-- No action takes slots away. -/
theorem size_le_run (hs : s.Sound) (ha : a.Allowed s) :
    s.heap.slots.size ≤ (a.run s).heap.slots.size := by
  cases ht : a.target? with
  | some id => exact (Action.spares hs ha ht).2.2.size.ge
  | none =>
    cases a with
    | intern | rootShape => exact Nat.le_refl _
    | allocate shape payload => exact size_le_allocated s.heap shape payload
    | anchor change => rw [Action.run, (anchor_frame s.heap change).1]
    | collect values words => exact (size_collect hs.housed.white values words).ge
    | setProperty | setIndex | setArrayLength | defineProperty | deleteProperty | setPrototype
    | replay | setVariable => cases ht

/-- **The shape of a cell spells its additions**, up to the longest path. -/
theorem Grown.spelled (hg : Grown root id s as) :
    s.Reached Action.Allowed ∧ (as.length ≤ maxTransitionLength → s.heap.slots.size ≤ 2 ^ 32 →
      Spelled s root id as) := by
  induction hg with
  | @allocate s payload hr ha hok =>
    refine ⟨hr.step ha, fun _ hsize => ?_⟩
    have hs := hr.sound fun _ _ h => h
    obtain ⟨hshared, hempty⟩ := origin_spec hs.intact ha
    obtain ⟨hshapes, -⟩ := allocate_frame s.heap root payload
    have hlisted := hs.listed ((size_le_allocated s.heap root payload).trans hsize)
    obtain ⟨-, hother⟩ := cell?_allocate hlisted hok hsize
    refine ⟨?_, ?_, root, ?_, rfl⟩
    · rw [Action.run, hshapes]
      exact hshared
    · rw [Action.run, hshapes]
      exact hempty
    · rw [Action.run, Heap.shapeOf?, hother, if_pos rfl, Option.map_some, (payload_new _ _ _).2]
  | @step s a as added _ ha hgrowth hl ih =>
    obtain ⟨hr, hspelled⟩ := ih
    refine ⟨hr.step ha, fun hlen hsize => ?_⟩
    have hs := hr.sound fun _ _ h => h
    have hp := hspelled (by rw [List.length_append] at hlen; omega) ((size_le_run hs ha).trans hsize)
    by_cases ht : a.target? = some id
    · exact hp.grow hs ha hgrowth ht hlen
    · cases hgrowth with
      | elsewhere _ =>
        rw [List.append_nil]
        exact hp.elsewhere hs ha ht hl hsize
      | set | define | replace | redefine | replay | element | length => exact absurd rfl ht

/-- **Shapes are interned.** Two cells that started on the same empty shape and have received at most
as many additions as a path is long have the same shape if and only if they have received the same
additions in the same order, whatever else was done in between, as long as all slots have handles. -/
theorem interned_shapes {other : Handle} {bs : List (Atom × Attributes)} (ha : Grown root id s as)
    (hb : Grown root other s bs) (hla : as.length ≤ maxTransitionLength)
    (hlb : bs.length ≤ maxTransitionLength) :
    2 ^ 32 < s.heap.slots.size ∨ ∃ x y, s.heap.shapeOf? id = some x ∧
      s.heap.shapeOf? other = some y ∧ (x = y ↔ as = bs) := by
  by_cases hsize : s.heap.slots.size ≤ 2 ^ 32
  · right
    obtain ⟨hr, hspelled⟩ := ha.spelled
    have hs := hr.sound fun _ _ h => h
    have hpa := hspelled hla hsize
    have hpb := hb.spelled.2 hlb hsize
    obtain ⟨x, hx, hfx⟩ := hpa.path
    obtain ⟨y, hy, hfy⟩ := hpb.path
    refine ⟨x, y, hx, hy, fun h => ?_, fun h => ?_⟩
    · rw [← hpa.additions hs hfx, ← hpb.additions hs hfy, h]
    · exact Option.some.inj (hfx.symm.trans ((congrArg _ h).trans hfy))
  · exact .inl (Nat.lt_of_not_le hsize)

theorem twins_grown : Grown ⟨0⟩ ⟨0, 0⟩ twins [] ∧ Grown ⟨0⟩ ⟨1, 0⟩ twins [] := by
  have hr : ((Action.rootShape .object .null).run { heap := .new {} }).Reached Action.Allowed :=
    .step (.new {}) trivial
  have hfirst : (Action.allocate ⟨0⟩ .plain).Allowed
      ((Action.rootShape .object .null).run { heap := .new {} }) := by
    simp only [Action.run, rooted_heap]
    exact ⟨rfl, rfl, rfl⟩
  have hsecond : (Action.allocate ⟨0⟩ .plain).Allowed ((Action.allocate ⟨0⟩ .plain).run
      ((Action.rootShape .object .null).run { heap := .new {} })) := by
    simp only [Action.run, rooted_heap]
    exact ⟨rfl, rfl, rfl⟩
  refine ⟨.step (.allocate .plain hr hfirst ?_) hsecond (.elsewhere (by decide)) twins_live.1,
    .allocate .plain (hr.step hfirst) hsecond ?_⟩
  all_goals
    simp only [Action.run, rooted_heap]
    rfl

theorem twins_cell : twins.heap.cell? ⟨0, 0⟩ = some (Cell.new ⟨0⟩ 0 .plain) ∧
    (twins.heap.shapes.get ⟨0⟩).properties = #[] ∧ twins.heap.slots.size = 2 := by
  simp only [twins, Action.run, rooted_heap]
  exact ⟨rfl, rfl, rfl⟩

/-- The twins after a name was interned. -/
def twinsNamed : Ledger := (Action.intern "x").run twins

/-- The twins after one of them has got a property of that name. -/
def twinsApart : Ledger := (Action.setProperty ⟨0, 0⟩ (twins.heap.intern "x").1 .null).run twinsNamed

theorem twinsApart_grown : Grown ⟨0⟩ ⟨0, 0⟩ twinsApart [((twins.heap.intern "x").1, .none)] ∧
    Grown ⟨0⟩ ⟨1, 0⟩ twinsApart [] ∧ twinsApart.heap.slots.size = 2 := by
  obtain ⟨hcell, hempty, htwo⟩ := twins_cell
  have hfirst : Grown ⟨0⟩ ⟨0, 0⟩ twinsNamed [] :=
    .step (a := .intern "x") twins_grown.1 trivial (.elsewhere (by decide)) twins_live.1
  have hsecond : Grown ⟨0⟩ ⟨1, 0⟩ twinsNamed [] :=
    .step (a := .intern "x") twins_grown.2 trivial (.elsewhere (by decide)) twins_live.2
  have hset : (Action.setProperty ⟨0, 0⟩ (twins.heap.intern "x").1 .null).Allowed twinsNamed :=
    AtomTable.knows_intern (twins_reached.sound fun _ _ h => h).atoms "x"
  have hcell' : twinsNamed.heap.cell? ⟨0, 0⟩ = some (Cell.new ⟨0⟩ 0 .plain) := hcell
  have hn : twinsNamed.heap.shapes.lookup? ⟨0⟩ (twins.heap.intern "x").1 = none := by
    refine ((twins_reached.sound fun _ _ h => h).housed.shapes.indexed ⟨0⟩).lookup?_eq_none.mpr ?_
    simp [hempty]
  have hnamed : twinsNamed.heap.Named (Cell.new ⟨0⟩ 0 .plain).kind (twins.heap.intern "x").1 :=
    ⟨(fun h => by cases h), fun h => by rcases h with h | h <;> cases h⟩
  obtain ⟨-, -, hsp⟩ := Action.spares (hfirst.spelled.1.sound fun _ _ h => h) hset rfl
  have hlive : twinsApart.heap.isLive ⟨0, 0⟩ = true := by
    obtain ⟨d, hd, -⟩ := Option.map_eq_some_iff.mp (setProperty_lengthens hcell' hnamed hn .null).shape
    rw [twinsApart, Action.run, Ledger.heap_write]
    exact isLive_iff.mpr ⟨d, hd⟩
  have hother : twinsApart.heap.isLive ⟨1, 0⟩ = true := by
    obtain ⟨d, hd⟩ := isLive_iff.mp twins_live.2
    exact isLive_iff.mpr ⟨d, (hsp.cells ⟨1, 0⟩ (by decide)).trans hd⟩
  exact ⟨.step hfirst hset (.set .null hcell' hnamed hn) hlive,
    .step hsecond hset (.elsewhere (by decide)) hother, hsp.size.trans htwo⟩

/-- Twins of which one has got a property have different shapes. -/
theorem interned_shapes_apart : Grown ⟨0⟩ ⟨0, 0⟩ twinsApart [((twins.heap.intern "x").1, .none)] ∧
    Grown ⟨0⟩ ⟨1, 0⟩ twinsApart [] ∧ ∃ x y, twinsApart.heap.shapeOf? ⟨0, 0⟩ = some x ∧
      twinsApart.heap.shapeOf? ⟨1, 0⟩ = some y ∧ x ≠ y := by
  obtain ⟨hfirst, hsecond, htwo⟩ := twinsApart_grown
  refine ⟨hfirst, hsecond, ?_⟩
  rcases interned_shapes hfirst hsecond (by decide) (by decide) with hlarge | ⟨x, y, hx, hy, hiff⟩
  · rw [htwo] at hlarge
    exact absurd hlarge (by decide)
  · exact ⟨x, y, hx, hy, fun h => by cases hiff.mp h⟩

end Heap

end ScriptMachine
