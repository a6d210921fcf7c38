import ScriptMachine.Proofs.Heap.Issue
import ScriptMachine.Proofs.Heap.Storage

/-! # The accounts of a heap

A caller that keeps what lookups and writes told it may write where they said, without a lookup.
`Heap.Surveyed` is about heaps together with all that was told about them, dictionaries included; what
mentions a reclaimed shape is dropped with the shape. As long as no cell is put on a dictionary by such
a write, or allocated on one, the counts of the heap are exact (`accounts_are_exact`): cells are
charged the bytes they take, and nothing is subtracted from a count that is less.

A dictionary has one owner, which has room for its slots. A second cell on it does not get the room
that the first one makes (`accounts_miss_shared_dictionary`).

Cells and elements are allocated below the limit of the heap, and the slots that a property is added to
are not. So the bytes come in two parts (`Accounted.liveBytes_split`): the bodies of the cells, which stay
below the limit (`bodies_within_limit`), and overflow storage, which may take more. -/

namespace ScriptMachine

/-! ### What is told -/

/-- **A report that is of use**: where a cell of the second shape has a slot, and how a cell of the
first one gets there. -/
structure Report.Offered (t : ShapeTable) (r : Report) : Prop where
  /-- The first shape is live. -/
  source : t.isLive r.source = true
  /-- So is the second. -/
  target : t.isLive r.target = true
  /-- They are shapes of one kind. -/
  kind : (t.get r.target).kind = (t.get r.source).kind
  /-- The second shape has the slot. -/
  inside : r.offset < (t.get r.target).slotCount
  /-- If that is another shape and no dictionary, the slot is its last. -/
  last : r.target = r.source ∨ (t.get r.target).dictionary = true ∨
    (t.get r.target).slotCount = r.offset + 1

namespace ShapeTable

variable {t t' : ShapeTable} {id : ShapeId} {r : Report}

theorem Widens.kind (hw : t.Widens t') (hl : t.isLive id = true) :
    (t'.get id).kind = (t.get id).kind := by
  obtain ⟨-, hget | ⟨-, -, hk, -⟩⟩ := hw id hl
  · rw [hget]
  · exact hk

theorem Widens.slotCount_le (hw : t.Widens t') (hl : t.isLive id = true) :
    (t.get id).slotCount ≤ (t'.get id).slotCount := by
  obtain ⟨-, hget | ⟨-, -, -, hc⟩⟩ := hw id hl
  · rw [hget]
  · exact hc

/-- Reports are of use as long as shapes only get wider. -/
theorem Widens.offered (hw : t.Widens t') (hr : r.Offered t) : r.Offered t' where
  source := (hw r.source hr.source).1
  target := (hw r.target hr.target).1
  kind := by rw [hw.kind hr.target, hr.kind, hw.kind hr.source]
  inside := hr.inside.trans_le (hw.slotCount_le hr.target)
  last := by
    obtain ⟨-, hget | ⟨-, hd, -, -⟩⟩ := hw r.target hr.target
    · rw [hget]
      exact hr.last
    · exact .inr (.inl hd)

end ShapeTable

/-- What a lookup tells. -/
def PropertyLookup.told (name : Atom) : PropertyLookup → List Report
  | .own shape offset _ _ | .prototype _ shape offset _ _ => [⟨name, shape, shape, offset⟩]
  | .synthesized _ | .missing => []

/-- What a write tells. -/
def PutOutcome.told (name : Atom) : PutOutcome → List Report
  | .replaced shape offset => [⟨name, shape, shape, offset⟩]
  | .added source target offset => [⟨name, source, target, offset⟩]
  | .element | .readOnly => []

namespace Heap

/-- What a write tells that may have failed. -/
def told (name : Atom) : EStateM.Result PropertyFault Heap PutOutcome → List Report
  | .ok outcome _ => outcome.told name
  | .error _ _ => []

/-- What an action tells. -/
def Action.told (h : Heap) : Action → List Report
  | .setProperty id name value => Heap.told name (Heap.setProperty id name value h)
  | .setIndex id index value => Heap.told (h.internIndex index).1 (Heap.setIndex id index value h)
  | _ => []

/-- The heap after an action. -/
def Action.apply (h : Heap) (a : Action) : Heap := (a.run { heap := h }).heap

/-- **What a caller may do** with what it was told: it allocates cells on live shapes of their kind,
and writes to a cell of a shape as a report about that shape says. `may` says which shapes a cell can be
put on in these ways. -/
def Action.Heeds (may : Shape → Prop) (h : Heap) (rs : List Report) : Action → Prop
  | .allocate shape payload =>
    h.shapes.isLive shape = true ∧ (h.shapes.get shape).kind = payload.kind ∧ may (h.shapes.get shape)
  | .replay id r _ => r ∈ rs ∧ (h.shapeOf? id = some r.target ∨
      h.shapeOf? id = some r.source ∧ may (h.shapes.get r.target))
  | _ => True

/-- **Heaps and what was told about them**, the latest first. -/
inductive Surveyed (may : Shape → Prop) : Heap → List Report → Prop
  /-- A new heap. -/
  | new (limits : HeapLimits) : Surveyed may (.new limits) []
  /-- A property is looked up, and the lookup ends. -/
  | look {h : Heap} {rs : List Report} {id : Handle} {name : Atom} {found : PropertyLookup} :
      Surveyed may h rs → h.lookupProperty? id name = some found → Surveyed may h (found.told name ++ rs)
  /-- Something is done; reports about reclaimed shapes are dropped. -/
  | act {h : Heap} {rs : List Report} (a : Action) : Surveyed may h rs → a.Heeds may h rs →
      Surveyed may (a.apply h) ((a.told h ++ rs).filter fun r =>
        (a.apply h).shapes.isLive r.source && (a.apply h).shapes.isLive r.target)

/-- Shapes that belong to no single cell. -/
def NoDictionary (s : Shape) : Prop := s.dictionary = false

variable {h h' : Heap} {id : Handle} {c : Cell} {name label : Atom} {value : Value} {r : Report}
  {rs : List Report} {outcome : PutOutcome} {may : Shape → Prop}

/-- A property of a live shape is where it says, whatever it is told as. -/
theorem Fitted.offered (hf : h.Fitted) {shape : ShapeId} (hl : h.shapes.isLive shape = true)
    {p : Property} (hp : h.shapes.lookup? shape name = some p) (label : Atom) :
    Report.Offered h.shapes ⟨label, shape, shape, p.offset⟩ :=
  ⟨hl, hl, rfl, hf.offset_lt hp, .inl rfl⟩

theorem lookupChain_told (hf : h.Fitted) {fuel depth : Nat} {v : Value} {found : PropertyLookup}
    (hl : h.lookupChain name fuel depth v = some found) (hr : r ∈ found.told name) : r.Offered h.shapes := by
  induction fuel generalizing depth v with
  | zero | succ fuel ih =>
    rw [lookupChain.eq_def] at hl
    dsimp only at hl
    split at hl
    case h_1 =>
      cases hl
      cases hr
    case h_2 holder _ =>
      split at hl
      case h_1 =>
        cases hl
        cases hr
      case h_2 c hcell =>
        split at hl
        case h_1 =>
          cases hl
          cases hr
        case h_2 =>
          split at hl
          case h_1 p hp =>
            cases hl
            obtain rfl := List.mem_singleton.mp hr
            exact hf.offered (hf.housed.live holder c hcell) hp name
          case h_2 => first | exact ih hl | cases hl

/-- **What a lookup tells is of use.** -/
theorem lookupProperty?_told (hf : h.Fitted) {found : PropertyLookup} (hl : h.lookupProperty? id name = some found)
    (hr : r ∈ found.told name) : r.Offered h.shapes := by
  unfold lookupProperty? at hl
  split at hl
  case h_1 =>
    cases hl
    cases hr
  case h_2 c hcell =>
    split at hl
    case h_1 =>
      cases hl
      cases hr
    case h_2 =>
      split at hl
      case h_1 p hp =>
        cases hl
        obtain rfl := List.mem_singleton.mp hr
        exact hf.offered (hf.housed.live id c hcell) hp name
      case h_2 => exact lookupChain_told hf hl hr

/-- **What a write of a named property tells is of use.** -/
theorem putNamed_told (hf : h.Fitted) {attributes : Attributes}
    (hput : putNamed id name value attributes h = .ok outcome h') (hr : r ∈ outcome.told label) :
    r.Offered h'.shapes := by
  cases hcell : h.cell? id with
  | none =>
    rw [putNamed_stale hcell] at hput
    cases hput
  | some c =>
    have hlive := hf.housed.live id c hcell
    cases hl : h.shapes.lookup? c.shape name with
    | some p =>
      rw [putNamed_some hcell hl] at hput
      split at hput <;> cases hput
      · cases hr
      · obtain rfl := List.mem_singleton.mp hr
        exact hf.offered hlive hl label
    | none =>
      rw [putNamed_none hcell hl] at hput
      cases hput
      obtain rfl := List.mem_singleton.mp hr
      obtain ⟨hshapes, -⟩ := addNamed_frame h id c.shape name value attributes
      have hadds := ShapeTable.addProperty_spec hf.intact.toOrdered hlive hl attributes
      have hlays := hf.laid.addProperty hf.intact.toOrdered hlive hl attributes
      have hsource := (hlays.widens c.shape hlive).1
      rw [hshapes]
      refine ⟨hsource, hadds.moves.live, ?_, ?_, .inr ?_⟩
      · rw [hadds.moves.kind, hlays.widens.kind hlive]
      · have := hlays.room
        dsimp only
        omega
      · cases hd : ((h.shapes.addProperty c.shape name attributes).2.2.get
            (h.shapes.addProperty c.shape name attributes).1).dictionary with
        | true => exact .inl rfl
        | false => exact .inr ((hlays.laid _).last hd hadds.properties).2

theorem setIndex_told (hf : h.Fitted) {index : UInt32}
    (hput : setIndex id index value h = .ok outcome h') (hr : r ∈ outcome.told label) :
    r.Offered h'.shapes := by
  cases hcell : h.cell? id with
  | none =>
    simp only [setIndex, bind, EStateM.bind, requireCell_none hcell] at hput
    cases hput
  | some c =>
    rcases setIndex_put hf.housed.shapes hcell index value with hplace | heq
    · rcases hplace outcome h' hput with rfl | rfl <;> cases hr
    · exact putNamed_told (Refits.intern h _ hf).1 (heq.symm.trans hput) hr

/-- **What a write of a property tells is of use.** -/
theorem setProperty_told (hf : h.Fitted) (hput : setProperty id name value h = .ok outcome h')
    (hr : r ∈ outcome.told label) : r.Offered h'.shapes := by
  cases hcell : h.cell? id with
  | none =>
    simp only [setProperty, bind, EStateM.bind, requireCell_none hcell] at hput
    cases hput
  | some c =>
    rcases setProperty_cases hcell name value with
      ⟨index, -, hi, heq⟩ | ⟨-, -, heq⟩ | heq | ⟨-, heq⟩
    · exact setIndex_told hf (heq.symm.trans hput) hr
    · rw [heq] at hput
      cases hset : setArrayLength id value h <;>
        simp only [hset, bind, EStateM.bind, pure, EStateM.pure] at hput <;> cases hput
      cases hr
    · rw [heq] at hput
      cases hput
      cases hr
    · exact putNamed_told hf (heq.symm.trans hput) hr

/-! ### What may be done -/

/-- **Writing where a report says**, to a cell of its second shape or to one of its first shape that
gets no dictionary. -/
theorem Refits.replay (hr : r.Offered h.shapes) (hs : h.shapeOf? id = some r.target ∨
    h.shapeOf? id = some r.source ∧ NoDictionary (h.shapes.get r.target)) (value : Value) :
    Refits h (h.writeSlot id r.target r.offset value) := by
  -- a cell of the second shape has the slot
  have hsame {c : Cell} (hcell : h.cell? id = some c) (hc : c.shape = r.target) :
      Refits h (h.writeSlot id r.target r.offset value) := by
    have hinside := hr.inside
    rw [← hc] at hinside ⊢
    rw [writeSlot_same hcell]
    exact .slot hcell (fun _ => hinside) value
  rcases hs with hs | ⟨hs, hd⟩
  · obtain ⟨c, hcell, hc⟩ := Option.map_eq_some_iff.mp hs
    exact hsame hcell hc
  · obtain ⟨c, hcell, hc⟩ := Option.map_eq_some_iff.mp hs
    by_cases heq : c.shape = r.target
    · exact hsame hcell heq
    · have hlast : (h.shapes.get r.target).slotCount = r.offset + 1 := by
        rcases hr.last with hself | hdict | hlast
        · exact absurd (hc.trans hself.symm) heq
        · rw [hd] at hdict
          cases hdict
        · exact hlast
      intro hf
      have hne : (c.shape == r.target) = false := beq_eq_false_iff_ne.mpr heq
      have hcurrent : h.shapeOf? id = some c.shape := by rw [shapeOf?, hcell]; rfl
      simp only [writeSlot, hcurrent, hne, Bool.false_eq_true, if_false]
      refine hf.resize hcell
        ⟨(ShapeTable.Grows.refl hf.intact.toOrdered).from c.shape, hr.target, hc ▸ hr.kind, ?_⟩
        hf.intact ⟨hf.laid, .refl _, hlast⟩ rfl
        (congrArg Payload.kind (c.setSlot_frame r.offset value).2) ?_
      · intro hdict
        rw [hd] at hdict
        cases hdict
      · dsimp only
        rw [Cell.size_setSlot]
        exact Nat.le_max_right _ _

/-- **All but a collection** keeps a heap fitted and its shapes as wide. -/
theorem Action.refits {a : Action} (hr : ∀ r ∈ rs, r.Offered h.shapes)
    (ha : a.Heeds NoDictionary h rs) (hc : ∀ values words, a ≠ .collect values words) :
    Refits h (a.apply h) := by
  cases a with
  | intern name => exact .intern h name
  | rootShape kind prototype => exact .root h kind prototype
  | allocate shape payload => exact .allocate h ⟨ha.1, ha.2.2⟩ ha.2.1
  | setProperty id name value =>
    rw [Action.apply, Action.run, Ledger.heap_write]
    exact setProperty_refits h id name value
  | setIndex id index value =>
    rw [Action.apply, Action.run, Ledger.heap_write]
    exact setIndex_refits h id index value
  | setArrayLength id length => exact setArrayLength_refits h id length
  | defineProperty id name value attributes => exact defineProperty_refits h id name value attributes
  | deleteProperty id name => exact deleteProperty_refits h id name
  | setPrototype id prototype => exact setPrototype_refits h id prototype
  | replay id r value => exact .replay (hr r ha.1) ha.2 value
  | setVariable id index value => exact .scope h id index value
  | anchor change => exact .anchor h change
  | collect values words => exact absurd rfl (hc values words)

/-- **What an action tells is of use.** -/
theorem Action.told_offered (hf : h.Fitted) {a : Action} (hr : r ∈ a.told h) :
    r.Offered (a.apply h).shapes := by
  cases a with
  | setProperty id name value =>
    rw [Action.apply, Action.run, Ledger.heap_write]
    simp only [Action.told] at hr
    cases hput : Heap.setProperty id name value h with
    | ok outcome h' =>
      rw [hput] at hr
      exact setProperty_told hf hput hr
    | error fault h' =>
      rw [hput] at hr
      cases hr
  | setIndex id index value =>
    rw [Action.apply, Action.run, Ledger.heap_write]
    simp only [Action.told] at hr
    cases hput : Heap.setIndex id index value h with
    | ok outcome h' =>
      rw [hput] at hr
      exact setIndex_told hf hput hr
    | error fault h' =>
      rw [hput] at hr
      cases hr
  | intern | rootShape | allocate | setArrayLength | defineProperty | deleteProperty | setPrototype
  | replay | setVariable | anchor | collect => cases hr

/-- A report whose shapes outlive a collection stays of use. -/
theorem Fitted.offered_collect (hf : h.Fitted) {values : List Value} {words : List UInt64}
    (hr : r.Offered h.shapes) (hs : (h.collect values words).2.shapes.isLive r.source = true)
    (ht : (h.collect values words).2.shapes.isLive r.target = true) :
    r.Offered (h.collect values words).2.shapes := by
  have hget {id : ShapeId} (hl : (h.collect values words).2.shapes.isLive id = true) :
      (h.collect values words).2.shapes.get id = h.shapes.get id := by
    obtain ⟨inUse, hshapes, -, -⟩ := collect_shapes hf.housed.white values words
    rw [hshapes] at hl ⊢
    exact ShapeTable.sweep_get _ _ _ id (.inl ((ShapeTable.sweep_isLive _ _ _ id).mp hl).2)
  refine ⟨hs, ht, ?_, ?_, ?_⟩
  · rw [hget hs, hget ht]
    exact hr.kind
  · rw [hget ht]
    exact hr.inside
  · rw [hget ht]
    exact hr.last

/-- **What was told is of use** as long as no cell is put on a dictionary, and the heap is fitted. -/
theorem Surveyed.fitted (hs : Surveyed NoDictionary h rs) :
    h.Fitted ∧ ∀ r ∈ rs, r.Offered h.shapes := by
  induction hs with
  | new limits => exact ⟨.new limits, fun r hr => by cases hr⟩
  | look _ hl ih =>
    obtain ⟨hf, hoffered⟩ := ih
    refine ⟨hf, fun r hr => ?_⟩
    rcases List.mem_append.mp hr with hr | hr
    · exact lookupProperty?_told hf hl hr
    · exact hoffered r hr
  | @act h rs a _ ha ih =>
    obtain ⟨hf, hoffered⟩ := ih
    by_cases hc : ∃ values words, a = .collect values words
    · obtain ⟨values, words, rfl⟩ := hc
      refine ⟨hf.collect values words, fun r hr => ?_⟩
      obtain ⟨hr, hlive⟩ := List.mem_filter.mp hr
      obtain ⟨hsource, htarget⟩ : _ ∧ _ := by simpa using hlive
      exact hf.offered_collect (hoffered r hr) hsource htarget
    · obtain ⟨hf', hwidens⟩ :=
        Action.refits hoffered ha (fun values words heq => hc ⟨values, words, heq⟩) hf
      refine ⟨hf', fun r hr => ?_⟩
      rcases List.mem_append.mp (List.mem_filter.mp hr).1 with hr | hr
      · exact Action.told_offered hf hr
      · exact hwidens.offered (hoffered r hr)

/-- **The accounts are exact.** Whatever was done with a heap, writes where lookups and writes said
included, as long as they and allocations put no cell on a dictionary and every slot has a handle:

* the count of cells is the number of slots that hold one, and every slot is charged the bytes its
  cell takes;
* the count of bytes is the sum of what is charged, so neither counting a cell again nor a collection
  subtracts more than there is;
* a heap without cells has no bytes. -/
theorem accounts_are_exact (hs : Surveyed NoDictionary h rs) (hsize : h.slots.size ≤ 2 ^ 32) :
    h.liveCells = h.cellCount ∧
    (∀ slot ∈ h.slots, slot.bytes = slot.footprint) ∧
    h.liveBytes = slotSum Slot.bytes h.slots ∧
    (∀ slot ∈ h.slots, slot.bytes ≤ h.liveBytes) ∧
    (∀ values words, (h.collect values words).1.freedCells ≤ h.liveCells ∧
      (h.collect values words).1.freedBytes ≤ h.liveBytes) ∧
    (h.liveCells = 0 → h.liveBytes = 0) := by
  obtain ⟨hf, -⟩ := hs.fitted
  have ha := hf.accounted hsize
  refine ⟨ha.cells, ha.charged, ha.bytes, fun slot hslot => ?_, fun values words => ⟨?_, ?_⟩,
    fun hzero => ?_⟩
  · rw [ha.bytes]
    exact le_slotSum Slot.bytes hslot
  · have := collect_cellCount hf.housed.white values words
    have := ha.cells
    omega
  · have := collect_chargedBytes hf.housed.white values words
    have := ha.bytes
    omega
  · rw [ha.liveBytes_eq]
    refine slotSum_eq_zero fun slot hslot => ?_
    have hempty := le_slotSum (fun slot : Slot => if slot.cell.isSome then 1 else 0) hslot
    have hcells := ha.cells
    unfold cellCount at hcells
    unfold Slot.footprint
    cases hcell : slot.cell with
    | none => rfl
    | some c =>
      simp only [hcell, Option.isSome_some, if_true] at hempty
      omega

/-- What needs no permission may be done one after the other. -/
theorem Surveyed.acts (hs : Surveyed may h rs) {as : List Action}
    (ha : ∀ a ∈ as, ∀ h rs, a.Heeds may h rs) : ∃ rs, Surveyed may (as.foldl Action.apply h) rs := by
  induction as generalizing h rs with
  | nil => exact ⟨rs, hs⟩
  | cons a as ih =>
    exact ih (hs.act a (ha a List.mem_cons_self h rs)) fun a h => ha a (List.mem_cons_of_mem _ h)

/-- The shapes of an object with one property, and the empty one it comes from. -/
def ownerShapes : ShapeTable where
  shapes := #[{ kind := .object, prototype := .null },
    { kind := .object, prototype := .null, properties := #[⟨⟨0⟩, 0, .none⟩]
      index := ({} : Std.TreeMap Atom Nat).insert ⟨0⟩ 0, previous := some ⟨0⟩, transitionCount := 1
      slotCount := 1 }]
  roots := ({} : ShapeTable).roots.insert (.object, .null) ⟨0⟩
  additions := ({} : ShapeTable).additions.insert (⟨0⟩, ⟨0⟩, .none) ⟨1⟩

/-- An object with one property. -/
def owner : Heap := { Heap.new {} with
  slots := #[{ bytes := 136, cell := some ((Cell.new ⟨1⟩ 1 .plain).setSlot 0 .null) }]
  shapes := ownerShapes
  atoms := { entries := #[⟨"p", none⟩], lookup := ({} : AtomTable).lookup.insert "p" ⟨0⟩ }
  liveBytes := 136
  liveCells := 1
  temporaries := #[.cell ⟨0, 0⟩]
  stats := { cellsAllocated := 1 } }

theorem addProperty_owner :
    ({ shapes := #[{ kind := .object, prototype := .null }]
       roots := ({} : ShapeTable).roots.insert (.object, .null) ⟨0⟩ } : ShapeTable).addProperty
      ⟨0⟩ ⟨0⟩ .none = (⟨1⟩, 0, ownerShapes) := by
  simp [ShapeTable.addProperty, ShapeTable.get, maxTransitionLength, Shape.insert, ShapeTable.push,
    ownerShapes]

theorem owner_eq : owner = (Action.setProperty ⟨0, 0⟩ ⟨0⟩ .null).apply
    ((Action.allocate ⟨0⟩ .plain).apply ((Action.rootShape .object .null).apply
      ((Action.intern "p").apply (.new {})))) := by
  have hintern : (Action.intern "p").apply (.new {}) = { Heap.new {} with atoms := owner.atoms } := by
    simp [Action.apply, Action.run, intern, AtomTable.intern, Heap.new, arrayIndexOf?, owner]
    decide
  have hroot : (Action.rootShape .object .null).apply { Heap.new {} with atoms := owner.atoms } =
      { ((Heap.new {}).rootShape .object .null).2 with atoms := owner.atoms } := rfl
  have hput (h : Heap) (hcell : h.cell? ⟨0, 0⟩ = some (Cell.new ⟨0⟩ 0 .plain))
      (hl : h.shapes.lookup? ⟨0⟩ ⟨0⟩ = none) :
      (Action.setProperty ⟨0, 0⟩ ⟨0⟩ .null).apply h = h.addNamed ⟨0, 0⟩ ⟨0⟩ ⟨0⟩ .null .none := by
    have hn : h.Named (Cell.new ⟨0⟩ 0 .plain).kind ⟨0⟩ :=
      ⟨fun hk => (by cases hk), fun hk => (by rcases hk with hk | hk <;> cases hk)⟩
    rw [Action.apply, Action.run, Ledger.heap_write, setProperty_named hcell hn,
      putNamed_none hcell hl]
    rfl
  have hshapes (h : Heap) : ((Action.allocate ⟨0⟩ .plain).apply h).shapes = h.shapes :=
    (allocate_frame h ⟨0⟩ .plain).1
  rw [hintern, hroot, rooted_heap, hput _ rfl rfl, addNamed, hshapes]
  dsimp only
  rw [addProperty_owner]
  rfl

/-- The object is what a few actions make. -/
theorem owner_surveyed (hmay : may { kind := .object, prototype := .null }) :
    ∃ rs, Surveyed may owner rs := by
  have hroot : ((Action.rootShape .object .null).apply ((Action.intern "p").apply (.new {}))).shapes =
      ((Heap.new {}).rootShape .object .null).2.shapes := by
    simp only [Action.apply, Action.run, rootShape]
    rfl
  rw [owner_eq]
  refine ⟨_, .act _ (.act (.allocate ⟨0⟩ .plain) (.act (.rootShape .object .null)
    (.act (.intern "p") (.new {}) trivial) trivial) ?_) trivial⟩
  rw [Action.Heeds, hroot, rooted_heap]
  exact ⟨rfl, rfl, hmay⟩

/-- The object moves to a dictionary. -/
def detach : Action := .defineProperty ⟨0, 0⟩ ⟨0⟩ .null { dontEnum := true }

/-- The object gets six more properties. -/
def fill : List Action :=
  ["a", "b", "c", "d", "e", "f"].zipIdx.flatMap fun (name, i) =>
    [.intern name, .setProperty ⟨0, 0⟩ ⟨i.toUInt32 + 1⟩ .null]

/-- A second object gets the property where a lookup found it, and the first one moves to a dictionary
that grows. -/
def detached : Heap :=
  fill.foldl Action.apply (detach.apply
    ((Action.replay ⟨1, 0⟩ ⟨⟨0⟩, ⟨1⟩, ⟨1⟩, 0⟩ .null).apply
      ((Action.allocate ⟨1⟩ .plain).apply owner)))

theorem fill_heeds {a : Action} (ha : a ∈ fill) (h : Heap) (rs : List Report) : a.Heeds may h rs := by
  simp [fill] at ha
  rcases ha with rfl | rfl | rfl | rfl | rfl | rfl | rfl | rfl | rfl | rfl | rfl | rfl <;> trivial

theorem detached_surveyed : ∃ rs, Surveyed NoDictionary detached rs := by
  obtain ⟨rs, hs⟩ : ∃ rs, Surveyed NoDictionary owner rs := owner_surveyed rfl
  have hlook := hs.look (show owner.lookupProperty? ⟨0, 0⟩ ⟨0⟩ = some (.own ⟨1⟩ 0 .none .null) by decide +kernel)
  have hallocate := hlook.act (.allocate ⟨1⟩ .plain) ⟨rfl, rfl, rfl⟩
  have hreplay := hallocate.act (.replay ⟨1, 0⟩ ⟨⟨0⟩, ⟨1⟩, ⟨1⟩, 0⟩ .null) ⟨?_, .inl rfl⟩
  · exact (hreplay.act detach trivial).acts fun a ha h rs => fill_heeds ha h rs
  · -- the lookup in the first object told where the property is
    exact List.mem_filter.mpr ⟨List.mem_append_right _ (List.mem_append_left _ List.mem_cons_self), rfl⟩

/-- The bytes of an object that outgrew its inline slots, and of another one. -/
theorem accounts_are_exact_detached : (∃ rs, Surveyed NoDictionary detached rs) ∧
    detached.slots.size ≤ 2 ^ 32 ∧ (detached.slots.map (·.bytes)) = #[264, 136] ∧
    (∀ slot ∈ detached.slots, slot.bytes = slot.footprint) ∧
    detached.liveBytes = slotSum Slot.bytes detached.slots := by
  obtain ⟨rs, hs⟩ := detached_surveyed
  have hsize : detached.slots.size ≤ 2 ^ 32 := by decide +kernel
  obtain ⟨-, hcharged, hbytes, -⟩ := accounts_are_exact hs hsize
  exact ⟨⟨rs, hs⟩, hsize, by decide +kernel, hcharged, hbytes⟩

/-- Two objects on one dictionary, which grew for the first one. -/
def entangled : Heap :=
  (Action.setProperty ⟨1, 0⟩ ⟨6⟩ .null).apply
    (fill.foldl Action.apply ((Action.allocate ⟨2⟩ .plain).apply (detach.apply owner)))

/-- **A cell on the dictionary of another one** takes bytes that it is not charged. -/
theorem accounts_miss_shared_dictionary : (∃ rs, Surveyed (fun _ => True) entangled rs) ∧
    entangled.slots.size ≤ 2 ^ 32 ∧
    ∃ slot ∈ entangled.slots, slot.cell.isSome ∧ slot.bytes ≠ slot.footprint := by
  refine ⟨?_, by decide +kernel, by decide +kernel⟩
  obtain ⟨rs, hs⟩ : ∃ rs, Surveyed (fun _ => True) owner rs := owner_surveyed trivial
  have hallocate := (hs.act detach trivial).act (.allocate ⟨2⟩ .plain)
    ⟨by decide +kernel, by decide +kernel, trivial⟩
  obtain ⟨rs, hs⟩ := hallocate.acts fun a ha h rs => fill_heeds ha h rs
  exact ⟨_, hs.act (.setProperty ⟨1, 0⟩ ⟨6⟩ .null) trivial⟩

end Heap

/-! ## The limit -/

/-- The bytes of a cell that do not depend on its named properties. -/
def Slot.body (slot : Slot) : Nat :=
  match slot.cell with
  | some c => cellBytes + c.payload.bytes
  | none => 0

/-- The bytes of the overflow storage of a cell. -/
def Slot.overflow (slot : Slot) : Nat :=
  match slot.cell with
  | some c => c.overflowCapacity * valueBytes
  | none => 0

theorem Slot.footprint_eq (slot : Slot) : slot.footprint = slot.body + slot.overflow := by
  unfold footprint body overflow
  cases slot.cell with
  | none => rfl
  | some c =>
    dsimp only
    unfold Cell.footprint
    omega

namespace Heap

/-- **The bodies of a heap**: the bytes of its cells without overflow storage. -/
def bodies (h : Heap) : Nat := slotSum Slot.body h.slots

/-- The bytes of the overflow storage of its cells. -/
def overflows (h : Heap) : Nat := slotSum Slot.overflow h.slots

/-- **From a heap to another one** with as many bytes of bodies and the same limit. -/
structure Flat (h h' : Heap) : Prop where
  limits : h'.limits = h.limits
  total : h'.bodies = h.bodies

/-- **From a heap to another one** whose bodies are below the limit if they take more. -/
structure Checked (h h' : Heap) : Prop where
  limits : h'.limits = h.limits
  total : h'.bodies ≤ h.bodies ∨ h'.bodies ≤ h.limits.maxBytes

variable {h h' h'' : Heap} {id : Handle} {c : Cell} {name : Atom} {value : Value} {t : ShapeTable}
  {rs : List Report} {shape : ShapeId} {payload : Payload}

theorem Accounted.liveBytes_split (ha : h.Accounted) : h.liveBytes = h.bodies + h.overflows := by
  rw [ha.liveBytes_eq, footprints, bodies, overflows, slotSum_add]
  exact slotSum_congr fun slot _ => slot.footprint_eq

theorem Flat.refl (h : Heap) : h.Flat h := ⟨rfl, rfl⟩

theorem Flat.trans (he : h.Flat h') (he' : h'.Flat h'') : h.Flat h'' :=
  ⟨he'.limits.trans he.limits, he'.total.trans he.total⟩

theorem Flat.checked (he : h.Flat h') : h.Checked h' := ⟨he.limits, .inl he.total.le⟩

theorem Flat.then_checked (he : h.Flat h') (hc : h'.Checked h'') : h.Checked h'' :=
  ⟨hc.limits.trans he.limits, by rw [← he.limits, ← he.total]; exact hc.total⟩

/-- Only slots matter, and the limit. -/
theorem Flat.congr (hs : h'.slots = h.slots) (hl : h'.limits = h.limits) : h.Flat h' :=
  ⟨hl, by unfold bodies; rw [hs]⟩

/-! ### One cell -/

/-- A cell that changes adds what its payload takes more. -/
theorem bodies_modifyCell (hcell : h.cell? id = some c) (f : Cell → Cell) :
    (h.modifyCell id f).bodies + c.payload.bytes = h.bodies + (f c).payload.bytes := by
  obtain ⟨slot, hs, hg, hslot⟩ := cell?_eq_some.mp hcell
  have hsum := slotSum_modify Slot.body (fun _ => { slot with cell := some (f c) }) hs
  rw [← slots_modifyCell f hs hg hslot] at hsum
  simp only [Slot.body, hslot] at hsum
  unfold bodies
  omega

theorem Flat.modifyCell {f : Cell → Cell}
    (hf : ∀ c, h.cell? id = some c → (f c).payload.bytes = c.payload.bytes) :
    h.Flat (h.modifyCell id f) := by
  cases hcell : h.cell? id with
  | none =>
    rw [modifyCell_of_none f hcell]
    exact .refl h
  | some c =>
    have hsum := bodies_modifyCell hcell f
    rw [hf c hcell] at hsum
    exact ⟨rfl, Nat.add_right_cancel hsum⟩

/-- **A cell moves** to another shape and keeps its payload. -/
theorem Flat.move {f : Cell → Cell} (hf : ∀ c, (f c).payload = c.payload) :
    h.Flat ({ h with shapes := t }.modifyCell id f) := by
  have hshapes : h.Flat { h with shapes := t } := .congr rfl rfl
  exact hshapes.trans (.modifyCell fun c _ => by rw [hf c])

/-- Counting bytes again changes no cell. -/
theorem Flat.count (h : Heap) (id : Handle) : h.Flat (h.refreshFootprint id) := by
  cases hcell : h.cell? id with
  | none =>
    rw [refreshFootprint_of_none hcell]
    exact .refl h
  | some c =>
    obtain ⟨slot, hs, hg, hslot⟩ := cell?_eq_some.mp hcell
    have hsum := slotSum_modify Slot.body (fun slot => { slot with bytes := c.footprint }) hs
    rw [refreshFootprint_of_cell? hs hg hslot]
    exact ⟨rfl, Nat.add_right_cancel hsum⟩

theorem Flat.slot (h : Heap) (id : Handle) (offset : Nat) (value : Value) :
    h.Flat (h.modifyCell id (·.setSlot offset value)) :=
  .modifyCell fun c _ => by rw [(c.setSlot_frame offset value).2]

/-- Elements change within their storage. -/
theorem Flat.elements (h : Heap) (id : Handle) {f : Elements → Elements}
    (hf : ∀ e, (f e).capacity = e.capacity) : h.Flat (h.modifyCell id (Cell.mapElements f)) := by
  refine .modifyCell fun c _ => ?_
  obtain ⟨shape, slots, capacity, payload⟩ := c
  cases payload with
  | array e => simp only [Cell.mapElements, Payload.bytes, hf]
  | plain | string | function | activation => rfl

theorem Flat.scope (h : Heap) (id : Handle) (index : Nat) (value : Value) :
    h.Flat (h.modifyCell id (Cell.mapScope fun scope =>
      { scope with slots := scope.slots.setIfInBounds index value })) := by
  refine .modifyCell fun c _ => ?_
  obtain ⟨shape, slots, capacity, payload⟩ := c
  cases payload with
  | activation | plain | string | function | array => rfl

/-- **Elements get other storage**: as much as they had, or so much more that the bodies stay below the
limit. -/
theorem Checked.elements (hcell : h.cell? id = some c) {e : Elements} (he : c.payload = .array e)
    {f : Elements → Elements} (hroom : (f e).capacity ≤ e.capacity ∨
      h.bodies + ((f e).capacity - e.capacity) * valueBytes ≤ h.limits.maxBytes) :
    h.Checked ((h.modifyCell id (Cell.mapElements f)).refreshFootprint id) := by
  have hcount := Flat.count (h.modifyCell id (Cell.mapElements f)) id
  have hsum := bodies_modifyCell hcell (Cell.mapElements f)
  have hpayload : (c.mapElements f).payload = .array (f e) := by
    obtain ⟨shape, slots, capacity, payload⟩ := c
    cases he
    rfl
  rw [hpayload, he, Payload.bytes, Payload.bytes] at hsum
  refine ⟨hcount.limits, ?_⟩
  rw [hcount.total]
  unfold valueBytes at *
  omega

/-! ### Named properties -/

theorem addNamed_flat (h : Heap) (id : Handle) (shape : ShapeId) (name : Atom) (value : Value)
    (attributes : Attributes) : h.Flat (h.addNamed id shape name value attributes) := by
  unfold addNamed
  generalize h.shapes.addProperty shape name attributes = added
  obtain ⟨target, offset, shapes⟩ := added
  have hmove : h.Flat ({ h with shapes }.modifyCell id fun cell =>
      { cell.setSlot offset value with shape := target }) :=
    .move fun c => (c.setSlot_frame offset value).2
  exact hmove.trans (.count _ id)

theorem putNamed_flat (h : Heap) (id : Handle) (name : Atom) (value : Value)
    (attributes : Attributes) : h.Flat (leaves (putNamed id name value attributes h)) := by
  cases hcell : h.cell? id with
  | none =>
    rw [putNamed_stale hcell]
    exact .refl h
  | some c =>
    cases hl : h.shapes.lookup? c.shape name with
    | none =>
      rw [putNamed_none hcell hl]
      exact addNamed_flat h id c.shape name value attributes
    | some p =>
      rw [putNamed_some hcell hl]
      split
      case isTrue => exact .refl h
      case isFalse => exact .slot h id p.offset value

/-- **Removing a property** moves the cell and keeps its payload. -/
theorem removeNamed_moves (h : Heap) (id : Handle) (shape : ShapeId) (name : Atom) :
    ∃ (t : ShapeTable) (f : Cell → Cell), (∀ c, (f c).payload = c.payload) ∧
      h.removeNamed id shape name = { h with shapes := t }.modifyCell id f := by
  unfold removeNamed
  generalize h.shapes.removeProperty shape name = result
  obtain ⟨target, removed, t⟩ := result
  refine ⟨t, _, fun c => ?_, rfl⟩
  cases removed with
  | none => rfl
  | some p => exact (Cell.setSlot_frame { c with shape := target } p.offset .undefined).2

theorem removeNamed_flat (h : Heap) (id : Handle) (shape : ShapeId) (name : Atom) :
    h.Flat (h.removeNamed id shape name) := by
  obtain ⟨t, f, hf, heq⟩ := removeNamed_moves h id shape name
  rw [heq]
  exact .move hf

theorem writeSlot_flat (h : Heap) (id : Handle) (shape : ShapeId) (offset : Nat) (value : Value) :
    h.Flat (h.writeSlot id shape offset value) := by
  have hwrite : h.Flat (h.modifyCell id fun cell => { cell.setSlot offset value with shape }) :=
    .modifyCell fun c _ => by rw [(c.setSlot_frame offset value).2]
  unfold writeSlot
  cases h.shapeOf? id with
  | none => exact .refl h
  | some current =>
    dsimp only
    split
    case isTrue => exact hwrite
    case isFalse => exact hwrite.trans (.count _ id)

/-! ### Elements -/

theorem clearElement_flat (h : Heap) (id : Handle) (name : Atom) :
    h.Flat (h.clearElement id name) := by
  unfold clearElement
  cases h.atoms.arrayIndex? name with
  | none => exact .refl h
  | some index => exact .elements h id fun e => rfl

/-- The property of an index goes, and the elements of the cell stay. -/
theorem dropNamed_flat (hcell : h.cell? id = some c) (named : Option Property) :
    h.Flat (h.dropNamed id c.shape named) ∧
      ∃ c', (h.dropNamed id c.shape named).cell? id = some c' ∧ c'.payload = c.payload := by
  cases named with
  | none => exact ⟨.refl h, c, hcell, rfl⟩
  | some p =>
    refine ⟨removeNamed_flat h id c.shape p.name, ?_⟩
    obtain ⟨t, f, hf, heq⟩ := removeNamed_moves h id c.shape p.name
    refine ⟨f c, ?_, hf c⟩
    rw [dropNamed, heq, cell?_move hcell, if_pos rfl]

theorem putElement_checked (ha : h.Accounted) (hcell : h.cell? id = some c) {e : Elements}
    (he : c.payload = .array e) (position : Nat) (named : Option Property) (value : Value) :
    h.Checked (leaves (putElement id position e.items.size e.capacity named value h)) := by
  rcases putElement_fits hcell position e.items.size e.capacity named value with
    heq | ⟨room, hroom, heq⟩
  · rw [heq]
    exact (Flat.refl h).checked
  · obtain ⟨hdrop, c', hcell', hp⟩ := dropNamed_flat hcell named
    have hbodies : h.bodies ≤ h.liveBytes := ha.liveBytes_split ▸ Nat.le_add_right _ _
    rw [heq]
    refine hdrop.then_checked ?_
    unfold storeElement
    split
    case isTrue => exact Flat.checked (.elements _ id fun e => rfl)
    case isFalse =>
      refine .elements hcell' (hp.trans he) ?_
      rw [hdrop.total, hdrop.limits]
      dsimp only
      omega

theorem setIndex_checked (ha : h.Accounted) (id : Handle) (index : UInt32) (value : Value) :
    h.Checked (leaves (setIndex id index value h)) := by
  cases hcell : h.cell? id with
  | none =>
    simp only [setIndex, bind, EStateM.bind, requireCell_none hcell]
    exact (Flat.refl h).checked
  | some c =>
    rcases setIndex_cases hcell index value with
      ⟨heq, -⟩ | heq | ⟨e, named, he, -, -, heq⟩ | ⟨p, -, -, heq⟩
    · have hintern : h.Flat (h.internIndex index).2 := .congr rfl rfl
      rw [heq]
      exact (hintern.trans (putNamed_flat _ id _ value .none)).checked
    · rw [heq]
      exact (Flat.refl h).checked
    · rw [heq]
      exact putElement_checked ha hcell he index.toNat named value
    · rw [heq]
      exact (putNamed_flat h id p.name value .none).checked

theorem setArrayLength_checked (ha : h.Accounted) (id : Handle) (length : Value) :
    h.Checked (leaves (setArrayLength id length h)) := by
  rcases setArrayLength_fits h id length with
    ⟨fault, -, heq⟩ | heq | ⟨c, e, n, hcell, he, hroom, heq⟩
  · rw [heq]
    exact (Flat.refl h).checked
  · rw [heq]
    exact (Flat.refl h).checked
  · have hbodies : h.bodies ≤ h.liveBytes := ha.liveBytes_split ▸ Nat.le_add_right _ _
    rw [heq]
    refine .elements hcell he ?_
    split
    case isTrue => exact .inl le_rfl
    case isFalse =>
      rcases hroom with hle | hfits
      · exact .inl (Nat.max_le.mpr ⟨le_rfl, hle⟩)
      · right
        have hmore : max e.capacity n - e.capacity = n - e.capacity := by omega
        dsimp only
        rw [hmore]
        omega

/-! ### Properties of any name -/

theorem setProperty_checked (ha : h.Accounted) (id : Handle) (name : Atom) (value : Value) :
    h.Checked (leaves (setProperty id name value h)) := by
  cases hcell : h.cell? id with
  | none =>
    simp only [setProperty, bind, EStateM.bind, requireCell_none hcell]
    exact (Flat.refl h).checked
  | some c =>
    rcases setProperty_cases hcell name value with
      ⟨index, -, -, heq⟩ | ⟨-, -, heq⟩ | heq | ⟨-, heq⟩
    · rw [heq]
      exact setIndex_checked ha id index value
    · have := setArrayLength_checked ha id value
      rw [heq]
      cases hset : setArrayLength id value h <;>
        simpa [hset, leaves, bind, EStateM.bind, pure, EStateM.pure] using this
    · rw [heq]
      exact (Flat.refl h).checked
    · rw [heq]
      exact (putNamed_flat h id name value .none).checked

theorem defineProperty_flat (h : Heap) (id : Handle) (name : Atom) (value : Value)
    (attributes : Attributes) : h.Flat (leaves (defineProperty id name value attributes h)) := by
  cases hcell : h.cell? id with
  | none =>
    simp only [defineProperty, bind, EStateM.bind, requireCell_none hcell]
    exact .refl h
  | some c =>
    refine (clearElement_flat h id name).trans ?_
    rcases defineProperty_cases hcell name value attributes with
      ⟨-, heq⟩ | ⟨p, -, ⟨-, heq⟩ | ⟨-, heq⟩⟩
    · rw [heq]
      exact putNamed_flat _ id name value attributes
    · rw [heq]
      exact .slot _ id p.offset value
    · rw [heq]
      exact .move fun c => (c.setSlot_frame p.offset value).2

theorem deleteProperty_flat (h : Heap) (id : Handle) (name : Atom) :
    h.Flat (leaves (deleteProperty id name h)) := by
  cases hcell : h.cell? id with
  | none =>
    simp only [deleteProperty, bind, EStateM.bind, requireCell_none hcell]
    exact .refl h
  | some c =>
    rcases deleteProperty_cases hcell name with heq | heq | heq
    · rw [heq]
      exact .refl h
    · rw [heq]
      exact clearElement_flat h id name
    · rw [heq]
      exact removeNamed_flat h id c.shape name

theorem setPrototype_flat (h : Heap) (id : Handle) (prototype : Value) :
    h.Flat (leaves (setPrototype id prototype h)) := by
  cases hcell : h.cell? id with
  | none =>
    simp only [setPrototype, bind, EStateM.bind, requireCell_none hcell]
    exact .refl h
  | some c =>
    rcases setPrototype_cases hcell prototype with heq | heq
    · rw [heq]
      exact .refl h
    · rw [heq]
      exact .move fun c => rfl

/-! ### Other steps -/

theorem anchor_flat (h : Heap) (change : Anchoring) : h.Flat (h.anchor change) := by
  refine .congr (anchor_frame h change).1 ?_
  cases change <;> simp only [Heap.anchor, addRoot, removeRoot, pushTemporary, truncateTemporaries]
  case addRoot | removeRoot | pushTemporary | truncateTemporaries => split <;> rfl
  case setRoot | clearTemporaries => rfl

/-- **An allocation** leaves the heap as it is, or takes bytes that fit below the limit. -/
theorem allocate_checked (ha : (h.allocate shape payload).2.Accounted) :
    h.Checked (h.allocate shape payload).2 := by
  have hcases : (h.allocate shape payload).2 = h ∨
      (h.allocate shape payload).2.limits = h.limits ∧
        (h.allocate shape payload).2.liveBytes ≤ h.limits.maxBytes := by
    unfold allocate
    generalize Cell.new shape (h.shapes.get shape).slotCount payload = cell
    dsimp only
    split
    case isTrue => exact .inl rfl
    case isFalse hfits =>
      right
      unfold place
      split <;> exact ⟨rfl, Nat.le_of_not_lt hfits⟩
  rcases hcases with heq | ⟨hlimits, hfits⟩
  · rw [heq]
    exact (Flat.refl h).checked
  · refine ⟨hlimits, .inr (Nat.le_trans ?_ hfits)⟩
    rw [ha.liveBytes_split]
    exact Nat.le_add_right _ _

/-- The bodies of a heap after a collection were there before. -/
theorem collect_checked (hw : h.AllWhite) (values : List Value) (words : List UInt64) :
    h.Checked (h.collect values words).2 := by
  refine ⟨by rw [collect_frame hw], .inl ?_⟩
  have hsum : slotSum (fun slot => if slot.dead then slot.body else 0)
      (h.mark (h.allRoots values words)).slots + (h.collect values words).2.bodies = h.bodies := by
    unfold bodies
    rw [slotSum_mark hw Slot.body (h.allRoots values words) fun _ _ => rfl]
    change _ + slotSum _ (h.mark _).sweep.2.slots = _
    rw [sweep_slots, slotSum_map, slotSum_add]
    refine slotSum_congr fun slot _ => ?_
    by_cases hd : slot.dead
    · simp [hd, swept_of_dead hd, Slot.freed, Slot.body]
    · simp [hd, swept_of_not_dead hd, Slot.body]
  omega

/-- **Every action** takes bytes for bodies below the limit only. -/
theorem Action.checked (h : Heap) (a : Action) (ha : h.Accounted) (ha' : (a.apply h).Accounted)
    (hw : h.AllWhite) : h.Checked (a.apply h) := by
  cases a with
  | intern name => exact Flat.checked (.congr rfl rfl)
  | rootShape kind prototype => exact Flat.checked (.congr rfl rfl)
  | allocate shape payload => exact allocate_checked ha'
  | setProperty id name value =>
    rw [Action.apply, Action.run, Ledger.heap_write]
    exact setProperty_checked ha id name value
  | setIndex id index value =>
    rw [Action.apply, Action.run, Ledger.heap_write]
    exact setIndex_checked ha id index value
  | setArrayLength id length => exact setArrayLength_checked ha id length
  | defineProperty id name value attributes =>
    exact (defineProperty_flat h id name value attributes).checked
  | deleteProperty id name => exact (deleteProperty_flat h id name).checked
  | setPrototype id prototype => exact (setPrototype_flat h id prototype).checked
  | replay id r value => exact (writeSlot_flat h id r.target r.offset value).checked
  | setVariable id index value => exact (Flat.scope h id index value).checked
  | anchor change => exact (anchor_flat h change).checked
  | collect values words => exact collect_checked hw values words

/-- The bodies of a heap are below its limit, as long as every slot has a handle. -/
theorem Surveyed.bodies_le (hs : Surveyed NoDictionary h rs) :
    h.slots.size ≤ 2 ^ 32 → h.bodies ≤ h.limits.maxBytes := by
  induction hs with
  | new limits => exact fun _ => Nat.zero_le _
  | look _ _ ih => exact ih
  | @act h rs a hs ha ih =>
    intro hsize
    have hf := hs.fitted.1
    have hf' := (hs.act a ha).fitted.1
    have hle := (size_le_action (s := { heap := h }) hf.housed.white a).1.trans hsize
    have hchecked := Action.checked h a (hf.accounted hle) (hf'.accounted hsize) hf.housed.white
    rw [hchecked.limits]
    exact hchecked.total.elim (·.trans (ih hle)) id

/-- **Bodies stay below the limit.** Whatever was done with a heap, as long as writes where lookups and
writes said, and allocations, put no cell on a dictionary, and every slot has a handle:

* the bytes of its cells and of what they hold, named properties beyond the inline ones apart, are
  together below the limit;
* what the heap is charged beyond that is the overflow storage of its cells;
* a heap none of whose cells has overflow storage is charged no more than the limit. -/
theorem bodies_within_limit (hs : Surveyed NoDictionary h rs) (hsize : h.slots.size ≤ 2 ^ 32) :
    h.bodies ≤ h.limits.maxBytes ∧
    h.liveBytes = h.bodies + h.overflows ∧
    ((∀ slot ∈ h.slots, slot.overflow = 0) → h.liveBytes ≤ h.limits.maxBytes) := by
  have hbodies := hs.bodies_le hsize
  have hsplit := (hs.fitted.1.accounted hsize).liveBytes_split
  refine ⟨hbodies, hsplit, fun hnone => ?_⟩
  have hzero : h.overflows = 0 := slotSum_eq_zero hnone
  omega

/-- Two objects of which one has overflow storage. -/
example : detached.bodies = 272 ∧ detached.overflows = 128 := by decide +kernel

end Heap

end ScriptMachine
