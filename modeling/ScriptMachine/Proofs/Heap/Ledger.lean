import ScriptMachine.Proofs.Heap.Edits

/-! # What is done with a heap

`Heap.Action` lists what can be done with a heap from outside: cells are allocated on empty shapes,
their properties are written, defined and deleted, their prototypes are changed, and collections run.
A write that found or added a property reports where, and a caller may replay it on any cell of the
same shape, without a lookup. A `Heap.Ledger` is a heap with the reports of the writes made to it;
reports that mention a reclaimed shape are struck out when the shape goes.

A ledger is sound (`Ledger.Sound`) when cells are housed in an intact table of shapes and every report
is still true. Sound ledgers stay sound (`Sound.run`), so all ledgers that actions lead to are. -/

namespace ScriptMachine

/-- What a write reported. -/
structure Report where
  /-- The name that was written. -/
  name : Atom
  /-- The shape the cell had. -/
  source : ShapeId
  /-- The shape the cell has now. -/
  target : ShapeId
  /-- Where the value is stored. -/
  offset : Nat

/-- An empty shape of a kind that was not derived from another one. -/
def ShapeTable.Origin (t : ShapeTable) (kind : CellKind) (id : ShapeId) : Prop :=
  t.isLive id = true ∧ (t.get id).previous = none ∧ (t.get id).kind = kind

namespace Heap

/-- Changes of what a collection starts from. -/
inductive Anchoring where
  /-- A persistent root is registered. -/
  | addRoot (value : Value)
  /-- A persistent root gets another value. -/
  | setRoot (root : RootId) (value : Value)
  /-- A persistent root is removed. -/
  | removeRoot (root : RootId)
  /-- A value is protected. -/
  | pushTemporary (value : Value)
  /-- Some temporaries are released. -/
  | truncateTemporaries (mark : Nat)
  /-- All temporaries are released. -/
  | clearTemporaries

/-- The heap after a change of its roots. -/
def anchor (h : Heap) : Anchoring → Heap
  | .addRoot value => (h.addRoot value).2
  | .setRoot root value => h.setRoot root value
  | .removeRoot root => h.removeRoot root
  | .pushTemporary value => h.pushTemporary value
  | .truncateTemporaries mark => h.truncateTemporaries mark
  | .clearTemporaries => h.clearTemporaries

/-- **What can be done with a heap.** -/
inductive Action where
  /-- A name is interned. -/
  | intern (name : String)
  /-- An empty shape is looked up. -/
  | rootShape (kind : CellKind) (prototype : Value)
  /-- A cell is allocated. -/
  | allocate (shape : ShapeId) (payload : Payload)
  /-- A property is written. -/
  | setProperty (id : Handle) (name : Atom) (value : Value)
  /-- An index is written. -/
  | setIndex (id : Handle) (index : UInt32) (value : Value)
  /-- The length of an array is written. -/
  | setArrayLength (id : Handle) (length : Value)
  /-- A property is defined. -/
  | defineProperty (id : Handle) (name : Atom) (value : Value) (attributes : Attributes)
  /-- A property is deleted. -/
  | deleteProperty (id : Handle) (name : Atom)
  /-- The prototype is changed. -/
  | setPrototype (id : Handle) (prototype : Value)
  /-- A reported write is replayed with another value. -/
  | replay (id : Handle) (report : Report) (value : Value)
  /-- A variable of a scope record is written. -/
  | setVariable (id : Handle) (index : Nat) (value : Value)
  /-- The roots are changed. -/
  | anchor (change : Anchoring)
  /-- A collection runs. -/
  | collect (values : List Value) (words : List UInt64)

/-- The cell an action is applied to. -/
def Action.target? : Action → Option Handle
  | .setProperty id .. | .setIndex id .. | .setArrayLength id .. | .defineProperty id ..
  | .deleteProperty id .. | .setPrototype id .. | .replay id .. | .setVariable id .. => some id
  | .intern .. | .rootShape .. | .allocate .. | .anchor .. | .collect .. => none

/-- What a write reports that took a heap to another one, if it neither met nor made a
dictionary. -/
def report? (before after : Heap) (name : Atom) : PutOutcome → Option Report
  | .replaced shape offset =>
    if (before.shapes.get shape).dictionary then none else some ⟨name, shape, shape, offset⟩
  | .added source target offset =>
    if (before.shapes.get source).dictionary || (after.shapes.get target).dictionary then none
    else some ⟨name, source, target, offset⟩
  | .element | .readOnly => none

/-- **A heap and the reports** of the writes made to it, the latest first. -/
structure Ledger where
  /-- The heap. -/
  heap : Heap
  /-- The reports. -/
  reports : List Report := []

/-- The ledger after a write of a name. -/
def Ledger.write (s : Ledger) (name : Atom) : EStateM.Result PropertyFault Heap PutOutcome → Ledger
  | .ok outcome h => ⟨h, (s.heap.report? h name outcome).toList ++ s.reports⟩
  | .error _ h => ⟨h, s.reports⟩

theorem Ledger.heap_write (s : Ledger) (name : Atom)
    (result : EStateM.Result PropertyFault Heap PutOutcome) :
    (s.write name result).heap = leaves result := by
  cases result <;> rfl

/-- **The ledger after an action.** -/
def Action.run (s : Ledger) : Action → Ledger
  | .intern name => { s with heap := (s.heap.intern name).2 }
  | .rootShape kind prototype => { s with heap := (s.heap.rootShape kind prototype).2 }
  | .allocate shape payload => { s with heap := (s.heap.allocate shape payload).2 }
  | .setProperty id name value => s.write name (Heap.setProperty id name value s.heap)
  | .setIndex id index value =>
    s.write (s.heap.internIndex index).1 (Heap.setIndex id index value s.heap)
  | .setArrayLength id length =>
    { s with heap := leaves (Heap.setArrayLength id length s.heap) }
  | .defineProperty id name value attributes =>
    { s with heap := leaves (Heap.defineProperty id name value attributes s.heap) }
  | .deleteProperty id name => { s with heap := leaves (Heap.deleteProperty id name s.heap) }
  | .setPrototype id prototype =>
    { s with heap := leaves (Heap.setPrototype id prototype s.heap) }
  | .replay id report value =>
    { s with heap := s.heap.writeSlot id report.target report.offset value }
  | .setVariable id index value =>
    { s with heap := s.heap.modifyCell id (Cell.mapScope fun scope =>
        { scope with slots := scope.slots.setIfInBounds index value }) }
  | .anchor change => { s with heap := s.heap.anchor change }
  | .collect values words =>
    let h := (s.heap.collect values words).2
    ⟨h, s.reports.filter fun r => h.shapes.isLive r.source && h.shapes.isLive r.target⟩

/-- **What may be done.** Cells are allocated on empty shapes of their kind, names are atoms of the
heap, and a report is replayed on cells of the shape it is about. -/
def Action.Allowed (s : Ledger) : Action → Prop
  | .allocate shape payload => s.heap.shapes.Origin payload.kind shape
  | .setProperty _ name _ | .defineProperty _ name _ _ | .deleteProperty _ name =>
    s.heap.atoms.Knows name
  | .replay id report _ => report ∈ s.reports ∧ s.heap.shapeOf? id = some report.source
  | _ => True

/-- **The ledgers** that actions lead to, each of which may be done then. -/
inductive Ledger.Reached (may : Ledger → Action → Prop) : Ledger → Prop
  /-- A new heap. -/
  | new (limits : HeapLimits) : Reached may { heap := .new limits }
  /-- One more action. -/
  | step {s : Ledger} {a : Action} : Reached may s → may s a → Reached may (a.run s)

end Heap

/-! ### Reports -/

/-- **A true report**: the shapes it mentions are shared, and the name is where it says, before or
after an addition along a listed edge. -/
structure Report.Valid (h : Heap) (r : Report) : Prop where
  /-- The name is an atom of the heap. -/
  known : h.atoms.Knows r.name
  /-- The first shape is shared. -/
  source : h.shapes.Shared r.source
  /-- The second shape is shared. -/
  target : h.shapes.Shared r.target
  /-- The second shape has the property at the offset. -/
  found : ∃ p, h.shapes.lookup? r.target r.name = some p ∧ p.offset = r.offset
  /-- The shapes are the same, or the edge of the addition joins them. -/
  edge : r.target = r.source ∨ h.shapes.lookup? r.source r.name = none ∧
    h.shapes.additions[(r.source, r.name, Attributes.none)]? = some r.target

/-- A report stays true as long as its shapes, their edge and its name stay. -/
theorem Report.Valid.transfer {h h' : Heap} {r : Report} (hv : r.Valid h)
    (hk : h'.atoms.Extends h.atoms)
    (hs : ∀ id, id = r.source ∨ id = r.target → h.shapes.Shared id →
      h'.shapes.Shared id ∧ h'.shapes.get id = h.shapes.get id)
    (ha : h.shapes.additions[(r.source, r.name, Attributes.none)]? = some r.target →
      h'.shapes.additions[(r.source, r.name, Attributes.none)]? = some r.target) : r.Valid h' := by
  obtain ⟨hsource, hgets⟩ := hs r.source (.inl rfl) hv.source
  obtain ⟨htarget, hgett⟩ := hs r.target (.inr rfl) hv.target
  refine ⟨hk.knows hv.known, hsource, htarget, ?_, hv.edge.imp_right fun ⟨hn, hedge⟩ => ⟨?_, ha hedge⟩⟩
  · rw [ShapeTable.lookup?, hgett]
    exact hv.found
  · rw [ShapeTable.lookup?, hgets]
    exact hn

namespace Heap

variable {h h' : Heap} {id : Handle} {c : Cell} {name : Atom} {value : Value} {r : Report}
  {outcome : PutOutcome}

theorem addNamed_frame (h : Heap) (id : Handle) (shape : ShapeId) (name : Atom) (value : Value)
    (attributes : Attributes) :
    (h.addNamed id shape name value attributes).shapes =
      (h.shapes.addProperty shape name attributes).2.2 ∧
    (h.addNamed id shape name value attributes).atoms = h.atoms := by
  unfold addNamed
  rw [refreshFootprint_frame]
  exact ⟨rfl, rfl⟩

/-- **What a write of a named property reports is true.** -/
theorem putNamed_report (hh : h.Housed) (hk : h.atoms.Knows name)
    (hput : putNamed id name value .none h = .ok outcome h')
    (hr : h.report? h' name outcome = some r) : r.Valid h' := by
  cases hcell : h.cell? id with
  | none =>
    rw [putNamed_stale hcell] at hput
    cases hput
  | some c =>
    have hlive := hh.live id c hcell
    cases hl : h.shapes.lookup? c.shape name with
    | some p =>
      rw [putNamed_some hcell hl] at hput
      split at hput
      case isTrue =>
        cases hput
        cases hr
      case isFalse =>
        cases hput
        simp only [report?] at hr
        split at hr
        case isTrue => cases hr
        case isFalse hd =>
          cases hr
          have hshared : h.shapes.Shared c.shape := ⟨hlive, by simpa using hd⟩
          exact ⟨hk, hshared, hshared, ⟨p, hl, rfl⟩, .inl rfl⟩
    | none =>
      rw [putNamed_none hcell hl] at hput
      cases hput
      obtain ⟨hshapes, hatoms⟩ := addNamed_frame h id c.shape name value .none
      obtain ⟨hm, -, he, hlisted⟩ := ShapeTable.addProperty_spec hh.shapes hlive hl .none
      simp only [report?, hshapes] at hr
      split at hr
      case isTrue => cases hr
      case isFalse hd =>
        cases hr
        obtain ⟨hd, hd'⟩ : (h.shapes.get c.shape).dictionary = false ∧
            ((h.shapes.addProperty c.shape name .none).2.2.get
              (h.shapes.addProperty c.shape name .none).1).dictionary = false := by simpa using hd
        obtain ⟨hsource, hget⟩ := hm.grows.shared ⟨hlive, hd⟩
        refine ⟨by rw [hatoms]; exact hk, by rw [hshapes]; exact hsource,
          by rw [hshapes]; exact ⟨hm.live, hd'⟩, ?_, .inr ⟨?_, by rw [hshapes]; exact hlisted hd hd'⟩⟩
        · rw [hshapes]
          have hx := hh.shapes.indexed c.shape
          exact ⟨_, (hx.lookup?_push (hm.grows.ordered.indexed _) he hl).trans (if_pos rfl), rfl⟩
        · rw [hshapes, ShapeTable.lookup?, hget]
          exact hl

/-- The name of an index that is interned already is found. -/
theorem internIndex_of_arrayIndex? (ho : h.atoms.Ordered) {index : UInt32}
    (hi : h.atoms.arrayIndex? name = some index) : h.internIndex index = (name, h) := by
  have := AtomTable.get?_indexName ho hi
  unfold AtomTable.get? at this
  simp only [internIndex, intern, AtomTable.intern, this]

/-- A write of an index reports a place only if it is a write of the name of the index. -/
theorem setIndex_put (ho : h.shapes.Ordered) (hcell : h.cell? id = some c) (index : UInt32)
    (value : Value) :
    (∀ outcome h', setIndex id index value h = .ok outcome h' →
      outcome = .element ∨ outcome = .readOnly) ∨
    setIndex id index value h =
      putNamed id (h.internIndex index).1 value .none (h.internIndex index).2 := by
  rcases setIndex_cases hcell index value with
    ⟨heq, -⟩ | heq | ⟨e, named, -, -, -, heq⟩ | ⟨p, hn, -, heq⟩
  · exact .inr heq
  · refine .inl fun outcome h' hput => .inr ?_
    rw [heq] at hput
    cases hput
    rfl
  · refine .inl fun outcome h' hput => .inl ?_
    rcases putElement_cases hcell index.toNat e.items.size e.capacity named value with
      hfail | ⟨room, hok⟩
    · rw [heq, hfail] at hput
      cases hput
    · rw [heq, hok] at hput
      cases hput
      rfl
  · right
    have hname : h.internIndex index = (p.name, h) := by
      unfold namedIndex? at hn
      split at hn
      case h_1 => cases hn
      case h_2 atom hatom =>
        rw [hcell] at hn
        rw [((ho.indexed _).name_of_lookup? hn).2]
        unfold AtomTable.get? at hatom
        simp only [internIndex, intern, AtomTable.intern, hatom]
    rw [heq, hname]

/-- **What a write of an index reports is true.** -/
theorem setIndex_report (hh : h.Housed) (ho : h.atoms.Ordered) {index : UInt32}
    (hput : setIndex id index value h = .ok outcome h')
    (hr : h.report? h' (h.internIndex index).1 outcome = some r) : r.Valid h' := by
  cases hcell : h.cell? id with
  | none =>
    simp only [setIndex, bind, EStateM.bind, requireCell_none hcell] at hput
    cases hput
  | some c =>
    rcases setIndex_put hh.shapes hcell index value with hplace | heq
    · rcases hplace outcome h' hput with rfl | rfl <;> cases hr
    · have hh' : (h.internIndex index).2.Housed :=
        hh.congr (hh.white.congr rfl) (cell?_congr rfl) rfl
      exact putNamed_report hh' (AtomTable.knows_intern ho _) (heq.symm.trans hput) hr

/-- **What a write of a property reports is true.** -/
theorem setProperty_report (hh : h.Housed) (ho : h.atoms.Ordered) (hk : h.atoms.Knows name)
    (hput : setProperty id name value h = .ok outcome h')
    (hr : h.report? h' name outcome = some r) : r.Valid h' := by
  cases hcell : h.cell? id with
  | none =>
    simp only [setProperty, bind, EStateM.bind, requireCell_none hcell] at hput
    cases hput
  | some c =>
    rcases setProperty_cases hcell name value with
      ⟨index, -, hi, heq⟩ | ⟨-, -, heq⟩ | heq | ⟨-, heq⟩
    · rw [heq] at hput
      refine setIndex_report hh ho hput ?_
      rw [internIndex_of_arrayIndex? ho hi]
      exact hr
    · rw [heq] at hput
      cases hset : setArrayLength id value h <;>
        simp only [hset, bind, EStateM.bind, pure, EStateM.pure] at hput <;> cases hput
      cases hr
    · rw [heq] at hput
      cases hput
      cases hr
    · exact putNamed_report hh hk (heq.symm.trans hput) hr

/-! ### Replays -/

/-- **Replaying a true report** on a cell of its shape writes the property the cell has, or adds the
property. -/
theorem writeSlot_replay (hcell : h.cell? id = some c) (hv : r.Valid h) (hs : r.source = c.shape)
    (value : Value) :
    (∃ p, h.shapes.lookup? c.shape r.name = some p ∧
      h.writeSlot id r.target r.offset value = h.modifyCell id (·.setSlot p.offset value)) ∨
    (h.shapes.lookup? c.shape r.name = none ∧
      h.writeSlot id r.target r.offset value = h.addNamed id c.shape r.name value .none) := by
  obtain ⟨p, hp, ho⟩ := hv.found
  rcases hv.edge with hsame | ⟨hn, hedge⟩
  · left
    rw [hsame, hs] at hp
    rw [hsame, hs, ← ho]
    exact ⟨p, hp, writeSlot_same hcell p.offset value⟩
  · right
    have hd : (h.shapes.get c.shape).dictionary = false := hs ▸ hv.source.2
    rw [hs] at hn hedge
    rw [← ho]
    exact ⟨hn, (writeSlot_edge hcell hd hn hedge hp value).2⟩

/-! ### Sound ledgers -/

/-- **A sound ledger.** -/
structure Ledger.Sound (s : Ledger) : Prop where
  /-- Cells are housed. -/
  housed : s.heap.Housed
  /-- The table of shapes is intact. -/
  intact : s.heap.shapes.Intact
  /-- The names are in order. -/
  atoms : s.heap.atoms.Ordered
  /-- So is the free list, as long as all slots have handles. -/
  listed : s.heap.slots.size ≤ 2 ^ 32 → s.heap.FreeListed
  /-- Every report is true. -/
  reports : ∀ r ∈ s.reports, r.Valid s.heap

variable {s : Ledger} {a : Action}

/-- An empty shape is shared and has no properties. -/
theorem origin_spec {t : ShapeTable} (hi : t.Intact) {kind : CellKind} {id : ShapeId}
    (ho : t.Origin kind id) : t.Shared id ∧ (t.get id).properties = #[] := by
  have heq := (hi.derived id ho.1).origin ho.2.1
  exact ⟨⟨ho.1, by rw [heq]⟩, by rw [heq]⟩

/-- **An action on a cell is a chain of edits** of that cell. -/
theorem Action.edits (hs : s.Sound) (ha : a.Allowed s) (ht : a.target? = some id) :
    Edits id s.heap (a.run s).heap := by
  cases a with
  | setProperty id name value =>
    cases ht
    rw [Action.run, Ledger.heap_write]
    exact setProperty_edits s.heap id name value
  | setIndex id index value =>
    cases ht
    rw [Action.run, Ledger.heap_write]
    exact setIndex_edits s.heap id index value
  | setArrayLength id length =>
    cases ht
    exact setArrayLength_edits s.heap id length
  | defineProperty id name value attributes =>
    cases ht
    exact defineProperty_edits s.heap id name value attributes
  | deleteProperty id name =>
    cases ht
    exact deleteProperty_edits s.heap id name
  | setPrototype id prototype =>
    cases ht
    exact setPrototype_edits s.heap id prototype
  | replay id r value =>
    cases ht
    obtain ⟨hr, hshape⟩ := ha
    obtain ⟨c, hcell, hsource⟩ := Option.map_eq_some_iff.mp hshape
    rcases writeSlot_replay hcell (hs.reports r hr) hsource.symm value with ⟨p, -, heq⟩ | ⟨hn, heq⟩
    · rw [Action.run, heq]
      exact .single (.slot hcell p.offset value)
    · rw [Action.run, heq]
      exact addNamed_edits hcell hn value .none
  | setVariable id index value =>
    cases ht
    cases hcell : s.heap.cell? id with
    | none => rw [Action.run, modifyCell_of_none _ hcell]
    | some c =>
      obtain ⟨hshape, hkind⟩ := mapScope_frame
        (fun scope => { scope with slots := scope.slots.setIfInBounds index value }) c
      exact .single (.stay hcell hshape hkind)
  | intern | rootShape | allocate | anchor | collect => cases ht

/-- **An action on a cell spares all others.** -/
theorem Action.spares (hs : s.Sound) (ha : a.Allowed s) (ht : a.target? = some id) :
    (a.run s).heap.Housed ∧ (a.run s).heap.shapes.Intact ∧ Spares id s.heap (a.run s).heap :=
  hs.housed.edits hs.intact (Action.edits hs ha ht)

theorem size_le_allocated (h : Heap) (shape : ShapeId) (payload : Payload) :
    h.slots.size ≤ (h.allocate shape payload).2.slots.size := by
  rcases allocate_cases h shape payload with ⟨_, heq⟩ | ⟨bytes, -, heq⟩
  · rw [heq]
  · rw [heq]
    exact size_place _ bytes

theorem anchor_frame (h : Heap) (change : Anchoring) :
    (h.anchor change).slots = h.slots ∧ (h.anchor change).freeList = h.freeList ∧
      (h.anchor change).shapes = h.shapes ∧ (h.anchor change).atoms = h.atoms := by
  cases change with
  | addRoot value =>
    simp only [anchor, addRoot]
    split <;> exact ⟨rfl, rfl, rfl, rfl⟩
  | setRoot root value => exact ⟨rfl, rfl, rfl, rfl⟩
  | removeRoot root =>
    simp only [anchor, removeRoot]
    split <;> exact ⟨rfl, rfl, rfl, rfl⟩
  | pushTemporary value =>
    obtain ⟨more, heq⟩ := pushTemporary_eq h value
    simp only [anchor, heq, and_self]
  | truncateTemporaries mark =>
    simp only [anchor, truncateTemporaries]
    split <;> exact ⟨rfl, rfl, rfl, rfl⟩
  | clearTemporaries => exact ⟨rfl, rfl, rfl, rfl⟩

/-- What a collection keeps of a shape that is live afterwards. -/
theorem shared_collect (hh : h.Housed) {values : List Value} {words : List UInt64} {id : ShapeId}
    (hs : h.shapes.Shared id) (hl : (h.collect values words).2.shapes.isLive id = true) :
    (h.collect values words).2.shapes.Shared id ∧
      (h.collect values words).2.shapes.get id = h.shapes.get id := by
  obtain ⟨inUse, hshapes, -, -⟩ := collect_shapes hh.white values words
  rw [hshapes] at hl ⊢
  obtain ⟨-, hk⟩ := (ShapeTable.sweep_isLive _ _ _ id).mp hl
  exact ⟨ShapeTable.sweep_shared _ _ _ id hs hk, ShapeTable.sweep_get _ _ _ id (.inl hk)⟩

/-- A report whose shapes outlive a collection stays true. -/
theorem valid_collect (hh : h.Housed) {values : List Value} {words : List UInt64}
    (hv : r.Valid h) (hs : (h.collect values words).2.shapes.isLive r.source = true)
    (ht : (h.collect values words).2.shapes.isLive r.target = true) :
    r.Valid (h.collect values words).2 := by
  have hatoms : (h.collect values words).2.atoms = h.atoms := by
    rw [collect_frame hh.white values words]
  refine hv.transfer (by rw [hatoms]; exact .refl _) (fun id hid hshared => ?_) fun hedge => ?_
  · refine shared_collect hh hshared ?_
    rcases hid with rfl | rfl
    · exact hs
    · exact ht
  · obtain ⟨inUse, hshapes, -, -⟩ := collect_shapes hh.white values words
    rw [hshapes] at hs ht ⊢
    exact (ShapeTable.sweep_additions _ _ _ _ _).mpr ⟨hedge,
      ((ShapeTable.sweep_isLive _ _ _ _).mp hs).2, ((ShapeTable.sweep_isLive _ _ _ _).mp ht).2⟩

/-- **What lasts** as long as nothing is collected: shared shapes, edges and names. -/
structure Lasts (h h' : Heap) : Prop where
  /-- Shared shapes stay as they are. -/
  shared : ∀ s, h.shapes.Shared s → h'.shapes.Shared s ∧ h'.shapes.get s = h.shapes.get s
  /-- The edges of additions stay. -/
  additions : ∀ (key : ShapeId × Atom × Attributes) s, h.shapes.additions[key]? = some s →
    h'.shapes.additions[key]? = some s
  /-- Names stay. -/
  atoms : h'.atoms.Extends h.atoms

theorem Lasts.congr (hs : h'.shapes = h.shapes) (ha : h'.atoms = h.atoms) : h.Lasts h' := by
  constructor
  · rw [hs]
    exact fun _ h => ⟨h, rfl⟩
  · rw [hs]
    exact fun _ _ h => h
  · rw [ha]
    exact .refl _

/-- Reports stay true as long as nothing is collected. -/
theorem Lasts.valid (hl : h.Lasts h') (hv : r.Valid h) : r.Valid h' :=
  hv.transfer hl.atoms (fun s _ => hl.shared s) (hl.additions _ _)

/-- **All but a collection** lasts. -/
theorem Action.lasts (hs : s.Sound) (ha : a.Allowed s)
    (hc : ∀ values words, a ≠ .collect values words) : s.heap.Lasts (a.run s).heap := by
  cases ht : a.target? with
  | some id =>
    obtain ⟨-, -, hsp⟩ := Action.spares hs ha ht
    exact ⟨hsp.shared, hsp.additions, (hsp.atoms hs.atoms).2⟩
  | none =>
    cases a with
    | intern name =>
      exact ⟨fun _ h => ⟨h, rfl⟩, fun _ _ h => h, (AtomTable.intern_spec hs.atoms name).2.1⟩
    | rootShape kind prototype =>
      obtain ⟨hg, -⟩ := ShapeTable.root_spec hs.housed.shapes kind prototype
      exact ⟨fun _ => hg.shared, hg.additions, .refl _⟩
    | allocate shape payload =>
      obtain ⟨hshapes, hatoms, -⟩ := allocate_frame s.heap shape payload
      exact .congr hshapes hatoms
    | anchor change =>
      obtain ⟨-, -, hshapes, hatoms⟩ := anchor_frame s.heap change
      exact .congr hshapes hatoms
    | collect values words => exact absurd rfl (hc values words)
    | setProperty | setIndex | setArrayLength | defineProperty | deleteProperty | setPrototype
    | replay | setVariable => cases ht

/-- **A report is an old one or true.** -/
theorem Action.reports (hs : s.Sound) (ha : a.Allowed s) (hr : r ∈ (a.run s).reports) :
    r ∈ s.reports ∨ r.Valid (a.run s).heap := by
  cases a with
  | setProperty id name value =>
    cases hput : Heap.setProperty id name value s.heap with
    | ok outcome h' =>
      simp only [Action.run, hput, Ledger.write] at hr ⊢
      rcases List.mem_append.mp hr with hr | hr
      · exact .inr (setProperty_report hs.housed hs.atoms ha hput (Option.mem_toList.mp hr))
      · exact .inl hr
    | error fault h' =>
      simp only [Action.run, hput, Ledger.write] at hr
      exact .inl hr
  | setIndex id index value =>
    cases hput : Heap.setIndex id index value s.heap with
    | ok outcome h' =>
      simp only [Action.run, hput, Ledger.write] at hr ⊢
      rcases List.mem_append.mp hr with hr | hr
      · exact .inr (setIndex_report hs.housed hs.atoms hput (Option.mem_toList.mp hr))
      · exact .inl hr
    | error fault h' =>
      simp only [Action.run, hput, Ledger.write] at hr
      exact .inl hr
  | collect values words => exact .inl (List.mem_filter.mp hr).1
  | intern | rootShape | allocate | setArrayLength | defineProperty | deleteProperty | setPrototype
  | replay | setVariable | anchor => exact .inl hr

/-- **Sound ledgers stay sound.** -/
theorem Ledger.Sound.run (hs : s.Sound) (ha : a.Allowed s) : (a.run s).Sound := by
  have hreports (hc : ∀ values words, a ≠ .collect values words) (r : Report)
      (hr : r ∈ (a.run s).reports) : r.Valid (a.run s).heap :=
    (Action.reports hs ha hr).elim (fun h => (Action.lasts hs ha hc).valid (hs.reports r h)) id
  cases ht : a.target? with
  | some id =>
    obtain ⟨hh, hi, hsp⟩ := Action.spares hs ha ht
    refine ⟨hh, hi, (hsp.atoms hs.atoms).1, fun hsize => hsp.listed (hs.listed (hsp.size ▸ hsize)),
      hreports fun values words hc => ?_⟩
    rw [hc] at ht
    cases ht
  | none =>
    cases a with
    | intern name =>
      exact ⟨hs.housed.congr (hs.housed.white.congr rfl) (cell?_congr rfl) rfl, hs.intact,
        (AtomTable.intern_spec hs.atoms name).1, fun hsize => (hs.listed hsize).congr rfl rfl,
        hreports (by simp)⟩
    | rootShape kind prototype =>
      exact ⟨hs.housed.root kind prototype, ShapeTable.root_intact hs.intact kind prototype,
        hs.atoms, fun hsize => (hs.listed hsize).congr rfl rfl, hreports (by simp)⟩
    | allocate shape payload =>
      obtain ⟨hshared, -⟩ := origin_spec hs.intact ha
      obtain ⟨hshapes, hatoms, -⟩ := allocate_frame s.heap shape payload
      exact ⟨hs.housed.allocate hshared ha.2.2, hshapes ▸ hs.intact, hatoms ▸ hs.atoms,
        fun hsize => (hs.listed ((size_le_allocated s.heap shape payload).trans hsize)).allocate hsize,
        hreports (by simp)⟩
    | anchor change =>
      obtain ⟨hslots, hfree, hshapes, hatoms⟩ := anchor_frame s.heap change
      refine ⟨hs.housed.congr (hs.housed.white.congr hslots) (cell?_congr hslots) hshapes,
        hshapes ▸ hs.intact, hatoms ▸ hs.atoms, fun hsize => ?_, hreports (by simp)⟩
      rw [Action.run, hslots] at hsize
      exact (hs.listed hsize).congr hslots hfree
    | collect values words =>
      obtain ⟨inUse, hshapes, -, -⟩ := collect_shapes hs.housed.white values words
      have hatoms : (s.heap.collect values words).2.atoms = s.heap.atoms := by
        rw [collect_frame hs.housed.white values words]
      refine ⟨hs.housed.collect values words, ?_, hatoms ▸ hs.atoms, fun hsize => ?_, fun r hr => ?_⟩
      · rw [Action.run, hshapes]
        exact ShapeTable.sweep_intact hs.intact _ _
      · rw [Action.run, size_collect hs.housed.white] at hsize
        exact (hs.listed hsize).collect hs.housed.white values words
      · -- the reports that are left are about shapes that are left
        obtain ⟨hr, hlive⟩ := List.mem_filter.mp hr
        obtain ⟨hsource, htarget⟩ : _ ∧ _ := by simpa using hlive
        exact valid_collect hs.housed (hs.reports r hr) hsource htarget
    | setProperty | setIndex | setArrayLength | defineProperty | deleteProperty | setPrototype
    | replay | setVariable => cases ht

/-- **The ledgers that actions lead to are sound.** -/
theorem Ledger.Reached.sound {may : Ledger → Action → Prop}
    (hmay : ∀ s a, may s a → a.Allowed s) (hr : s.Reached may) : s.Sound := by
  induction hr with
  | new limits =>
    exact ⟨(coherent_new limits).housed, ShapeTable.intact_empty, .empty,
      fun _ => (Regular.new limits).listed, fun r hr => by cases hr⟩
  | step _ ha ih => exact ih.run (hmay _ _ ha)

/-- Two objects on one empty shape. -/
def twins : Ledger :=
  (Action.allocate ⟨0⟩ .plain).run
    ((Action.allocate ⟨0⟩ .plain).run
      ((Action.rootShape .object .null).run { heap := .new {} }))

theorem rooted_heap (kind : CellKind) : ((Heap.new {}).rootShape kind .null).2 = { Heap.new {} with
    shapes := { shapes := #[{ kind, prototype := .null }]
                roots := ({} : ShapeTable).roots.insert (kind, .null) ⟨0⟩ } } := by
  simp [rootShape, Heap.new, ShapeTable.root, ShapeTable.push]

theorem twins_reached : twins.Reached Action.Allowed := by
  have horigin : ((Heap.new {}).rootShape .object .null).2.shapes.Origin Payload.plain.kind ⟨0⟩ := by
    rw [rooted_heap]
    exact ⟨rfl, rfl, rfl⟩
  have horigin' : (((Heap.new {}).rootShape .object .null).2.allocate ⟨0⟩ .plain).2.shapes.Origin
      Payload.plain.kind ⟨0⟩ := by
    rw [(allocate_frame _ _ _).1]
    exact horigin
  exact .step (.step (.step (.new {}) trivial) horigin) horigin'

theorem twins_live : twins.heap.isLive ⟨0, 0⟩ = true ∧ twins.heap.isLive ⟨1, 0⟩ = true := by
  simp only [twins, Action.run, rooted_heap]
  exact ⟨rfl, rfl⟩

end Heap

end ScriptMachine
