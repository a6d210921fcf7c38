import ScriptMachine.Proofs.Heap.Accounting

/-! # What a collection does

Marking colors the cells that can be reached and sweeping frees the others. So a collection keeps
exactly the reachable cells, with their handles, shapes, properties and payloads, reports what it
freed and what is left, and leaves all slots white (`collect_exact`).

`Heap.Built` is the class of heaps that programs can have. They are white, their counts are true and
their free list is in order (`Built.regular`). -/

namespace ScriptMachine

namespace Heap

variable {h : Heap} {roots : List Value} {id : Handle} {c : Cell}

/-! ### Slots after marking and sweeping -/

theorem mark_frame (hw : h.AllWhite) (roots : List Value) :
    h.mark roots = { h with slots := (h.mark roots).slots } := (mark_marking hw roots).frame

/-- **Nothing else changes** in a collection: the interned names, the limits and the roots stay. -/
theorem collect_frame (hw : h.AllWhite) (values : List Value) (words : List UInt64) :
    (h.collect values words).2 = { h with
      slots := (h.collect values words).2.slots
      freeList := (h.collect values words).2.freeList
      shapes := (h.collect values words).2.shapes
      liveCells := h.liveCells - (h.collect values words).1.freedCells
      liveBytes := h.liveBytes - (h.collect values words).1.freedBytes
      nextCollection := (h.collect values words).2.nextCollection
      stats := (h.collect values words).2.stats } := by
  have hsweep := sweep_frame (h.mark (h.allRoots values words))
  rw [mark_frame hw] at hsweep
  simp only [collect]
  rw [mark_frame hw, hsweep]

theorem swept_of_dead {slot : Slot} (hd : slot.dead) : slot.swept = slot.freed := if_pos hd

/-- A slot whose cell survives, or that has none, changes nothing but its color. -/
theorem swept_of_not_dead {slot : Slot} (hd : ¬slot.dead) :
    slot.swept = { slot with color := if slot.cell.isSome then .white else slot.color } := by
  rw [Slot.swept, if_neg hd]
  split <;> rfl

/-- What a handle names after a sweep: its cell, unless that is white. -/
theorem cell?_sweep (h : Heap) (id : Handle) :
    h.sweep.2.cell? id = if h.color? id = some .white then none else h.cell? id := by
  unfold cell? color?
  rw [sweep_slots, Array.getElem?_map]
  cases h.slots[id.index.toNat]? with
  | none => simp
  | some slot =>
    by_cases hd : slot.dead
    · by_cases hg : slot.generation = id.generation
      · simp [swept_of_dead hd, Slot.freed, hg, hd.1, hd.2]
      · simp [swept_of_dead hd, Slot.freed, hg]
    · by_cases hg : slot.generation = id.generation
      · have : ¬(slot.cell.isSome = true ∧ slot.color = .white) := hd
        simp [swept_of_not_dead hd, hg]
        grind
      · simp [swept_of_not_dead hd, hg]

/-- **What a handle names after a collection**: its cell, if that can be reached. -/
theorem cell?_collect (hw : h.AllWhite) (values : List Value) (words : List UInt64) :
    (h.collect values words).2.cell? id = some c ↔
      h.cell? id = some c ∧ h.Reachable (h.allRoots values words) id := by
  have hsweep : (h.collect values words).2.cell? id =
      (h.mark (h.allRoots values words)).sweep.2.cell? id := rfl
  rw [hsweep, cell?_sweep, (mark_marking hw _).cell?]
  split
  case isTrue hk =>
    refine ⟨fun hc => (by cases hc), fun ⟨hc, hr⟩ => ?_⟩
    exact absurd hk ((mark_reachable hw _ (isLive_of_cell? hc)).mp hr)
  case isFalse hk =>
    exact ⟨fun hc => ⟨hc, (mark_reachable hw _ (isLive_of_cell? hc)).mpr hk⟩, And.left⟩

/-- **The shapes after a collection**: the table is swept, with the shapes of the survivors in use and
the prototypes that are still cells alive. -/
theorem collect_shapes (hw : h.AllWhite) (values : List Value) (words : List UInt64) :
    ∃ inUse, (h.collect values words).2.shapes =
        (h.shapes.sweep inUse (h.collect values words).2.prototypeAlive).2 ∧
      (h.collect values words).1.freedShapes =
        (h.shapes.sweep inUse (h.collect values words).2.prototypeAlive).1 ∧
      ∀ id c, (h.collect values words).2.cell? id = some c → c.shape ∈ inUse := by
  have hm := mark_marking hw (h.allRoots values words)
  have hswept := swept_sweep (h.mark (h.allRoots values words))
  have hshapes : ((h.mark (h.allRoots values words)).sweepTo
      (h.mark (h.allRoots values words)).slots.size).heap.shapes = h.shapes := by
    rw [hswept.frame, mark_frame hw]
  refine ⟨_, congrArg (fun t => (ShapeTable.sweep t _ _).2) hshapes,
    congrArg (fun t => (ShapeTable.sweep t _ _).1) hshapes, fun id c hc => ?_⟩
  obtain ⟨hc, hr⟩ := (cell?_collect hw values words).mp hc
  have hk := (mark_reachable hw _ (isLive_of_cell? hc)).mp hr
  rw [← hm.cell?] at hc
  obtain ⟨slot, hs, hg, hcell⟩ := cell?_eq_some.mp hc
  have hne : slot.color ≠ .white := fun e => hk (by simp [color?, hs, hg, hcell, e])
  exact (hswept.inUse c.shape).mpr
    ⟨_, (Array.getElem?_eq_some_iff.mp hs).1, slot, c, hs, hcell, hne, rfl⟩

/-- The shapes of survivors survive. -/
theorem shape_collect (hw : h.AllWhite) (values : List Value) (words : List UInt64)
    (hc : (h.collect values words).2.cell? id = some c) :
    (h.collect values words).2.shapes.get c.shape = h.shapes.get c.shape := by
  obtain ⟨inUse, hs, -, hmem⟩ := collect_shapes hw values words
  rw [hs]
  exact ShapeTable.get_sweep _ (hmem id c hc) _

/-! ### Counts -/

/-- A sum over the slots before a collection, as a sum over the marked slots. -/
theorem slotSum_mark (hw : h.AllWhite) (f : Slot → Nat) (roots : List Value)
    (hf : ∀ slot k, f { slot with color := k } = f slot) :
    slotSum f h.slots = slotSum f (h.mark roots).slots := by
  rw [← (mark_marking hw roots).slots, slotSum_map]
  exact slotSum_congr fun slot _ => hf slot _

/-- What is freed and what is left make up what was there. -/
theorem collect_cellCount (hw : h.AllWhite) (values : List Value) (words : List UInt64) :
    (h.collect values words).1.freedCells + (h.collect values words).2.cellCount =
      h.cellCount := by
  unfold cellCount
  rw [slotSum_mark hw _ (h.allRoots values words) fun _ _ => rfl]
  change (h.mark _).sweep.1.freedCells + slotSum _ (h.mark _).sweep.2.slots = _
  rw [sweep_freedCells, sweep_slots, slotSum_map, slotSum_add]
  refine slotSum_congr fun slot _ => ?_
  by_cases hd : slot.dead
  · simp [hd, swept_of_dead hd, Slot.freed, hd.1]
  · simp [hd, swept_of_not_dead hd]

theorem collect_chargedBytes (hw : h.AllWhite) (values : List Value) (words : List UInt64) :
    (h.collect values words).1.freedBytes + slotSum Slot.bytes (h.collect values words).2.slots =
      slotSum Slot.bytes h.slots := by
  rw [slotSum_mark hw _ (h.allRoots values words) fun _ _ => rfl]
  change (h.mark _).sweep.1.freedBytes + slotSum _ (h.mark _).sweep.2.slots = _
  rw [sweep_freedBytes, sweep_slots, slotSum_map, slotSum_add]
  refine slotSum_congr fun slot _ => ?_
  by_cases hd : slot.dead
  · simp [hd, swept_of_dead hd, Slot.freed]
  · simp [hd, swept_of_not_dead hd]

/-- Every slot after a collection comes from one before: freed, or as it was. -/
theorem mem_collect_slots (hw : h.AllWhite) {values : List Value} {words : List UInt64}
    {slot : Slot} (hs : slot ∈ (h.collect values words).2.slots) :
    ∃ old ∈ h.slots, slot = old.freed ∨ slot = old := by
  change slot ∈ (h.mark _).sweep.2.slots at hs
  have hm := mark_marking hw (h.allRoots values words)
  rw [sweep_slots] at hs
  obtain ⟨marked, hmem, rfl⟩ := Array.mem_map.mp hs
  have hold : { marked with color := .white } ∈ h.slots := by
    rw [← hm.slots]
    exact Array.mem_map_of_mem hmem
  refine ⟨_, hold, ?_⟩
  by_cases hd : marked.dead
  · left
    rw [swept_of_dead hd, Slot.freed, Slot.freed, hd.2]
  · right
    rw [swept_of_not_dead hd]
    cases hc : marked.cell with
    | none => simp [hm.empty marked hmem hc]
    | some c => simp

theorem AllWhite.collect (hw : h.AllWhite) (values : List Value) (words : List UInt64) :
    (h.collect values words).2.AllWhite := by
  intro slot hs
  obtain ⟨old, hold, rfl | rfl⟩ := mem_collect_slots hw hs
  · exact hw old hold
  · exact hw slot hold

/-- **The counts of a heap stay true** through a collection. -/
theorem Accounted.collect (ha : h.Accounted) (hw : h.AllWhite) (values : List Value)
    (words : List UInt64) : (h.collect values words).2.Accounted := by
  have hcells : (h.collect values words).2.liveCells =
    h.liveCells - (h.collect values words).1.freedCells := by rw [collect_frame hw]
  have hbytes : (h.collect values words).2.liveBytes =
    h.liveBytes - (h.collect values words).1.freedBytes := by rw [collect_frame hw]
  refine ⟨?_, ?_, fun slot hs => ?_⟩
  · have := collect_cellCount hw values words
    have := ha.cells
    omega
  · have := collect_chargedBytes hw values words
    have := ha.bytes
    omega
  · obtain ⟨old, hold, rfl | rfl⟩ := mem_collect_slots hw hs
    · rfl
    · exact ha.charged slot hold

theorem collect_footprints (ha : h.Accounted) (hw : h.AllWhite) (values : List Value)
    (words : List UInt64) :
    (h.collect values words).1.freedBytes + (h.collect values words).2.footprints =
      h.footprints := by
  have := collect_chargedBytes hw values words
  rw [← ha.liveBytes_eq, ← (ha.collect hw values words).liveBytes_eq, ha.bytes,
    (ha.collect hw values words).bytes]
  exact this

/-! ### The free list -/

theorem FreeListed.sweepSlot {s : Sweep} (hf : s.heap.FreeListed) (k : Nat) :
    (sweepSlot s k).heap.FreeListed := by
  cases hs : s.heap.slots[k]? with
  | none => simpa [Heap.sweepSlot, hs] using hf
  | some slot =>
    have hlt := (Array.getElem?_eq_some_iff.mp hs).1
    have hk : k.toUInt32.toNat = k := by
      rw [Nat.toUInt32, UInt32.toNat_ofNat', Nat.mod_eq_of_lt (lt_of_lt_of_le hlt hf.size)]
    cases hc : slot.cell with
    | none => rwa [sweepSlot_empty hs hc]
    | some c =>
      -- a listed slot is empty, so it is not the one swept here
      have hne {i : UInt32} (hi : i ∈ s.heap.freeList) : k ≠ i.toNat := by
        rintro rfl
        obtain ⟨slot', hs', hc'⟩ := hf.empty i hi
        rw [hs, Option.some.injEq] at hs'
        simp [← hs', hc] at hc'
      have keep (g : Slot → Slot) (i : UInt32) (hi : i ∈ s.heap.freeList) :
          ∃ slot, (s.heap.slots.modify k g)[i.toNat]? = some slot ∧ slot.cell = none := by
        obtain ⟨slot', hs', hc'⟩ := hf.empty i hi
        exact ⟨slot', by simp [Array.getElem?_modify, hne hi, hs'], hc'⟩
      by_cases hw : slot.color = .white
      · rw [sweepSlot_dead hs ⟨by simp [hc], hw⟩]
        refine ⟨fun i hi => ?_, ?_, by simpa using hf.size⟩
        · simp only at hi
          split at hi
          case isTrue =>
            rcases Array.mem_push.mp hi with hi | rfl
            · exact keep _ i hi
            · exact ⟨slot.freed, by simp [hk, Array.getElem?_modify, hs], rfl⟩
          case isFalse => exact keep _ i hi
        · simp only
          split
          case isTrue =>
            rw [Array.toList_push, List.nodup_append]
            refine ⟨hf.nodup, by simp, ?_⟩
            rintro i hi j hj rfl
            rw [List.mem_singleton] at hj
            exact hne (Array.mem_toList_iff.mp hi) (by rw [hj, hk])
          case isFalse => exact hf.nodup
      · rw [sweepSlot_marked hs hc hw]
        exact ⟨keep _, hf.nodup, by simpa using hf.size⟩

theorem FreeListed.mark (hf : h.FreeListed) (hw : h.AllWhite) (roots : List Value) :
    (h.mark roots).FreeListed := by
  have hm := mark_marking hw roots
  have hsize : (h.mark roots).slots.size = h.slots.size := by
    rw [← hm.slots, Array.size_map]
  rw [mark_frame hw]
  refine ⟨fun i hi => ?_, hf.nodup, by rw [hsize]; exact hf.size⟩
  obtain ⟨slot, hs, hc⟩ := hf.empty i hi
  rw [← hm.slots, Array.getElem?_map] at hs
  obtain ⟨slot', hs', rfl⟩ := Option.map_eq_some_iff.mp hs
  exact ⟨slot', hs', hc⟩

theorem FreeListed.collect (hf : h.FreeListed) (hw : h.AllWhite) (values : List Value)
    (words : List UInt64) : (h.collect values words).2.FreeListed := by
  have := List.foldlRecOn (motive := fun s : Sweep => s.heap.FreeListed)
    (List.range (h.mark (h.allRoots values words)).slots.size) Heap.sweepSlot
    (b := { heap := h.mark (h.allRoots values words) }) (hf.mark hw _)
    fun s hs k _ => hs.sweepSlot k
  exact this.congr rfl rfl

/-! ### Heaps of programs -/

/-- **The heaps that programs can have**: changes of a heap are made of these steps. -/
inductive Built : Heap → Prop
  /-- An empty heap. -/
  | new (limits : HeapLimits) : Built (.new limits)
  /-- A cell is allocated. -/
  | allocate {h : Heap} (shape : ShapeId) (payload : Payload) :
      Built h → h.HasRoom → Built (h.allocate shape payload).2
  /-- A cell is changed and keeps its size. -/
  | modify {h : Heap} (id : Handle) (f : Cell → Cell) :
      Built h → (∀ c, h.cell? id = some c → (f c).footprint = c.footprint) →
      Built (h.modifyCell id f)
  /-- A cell is changed and counted again. -/
  | resize {h : Heap} (id : Handle) (f : Cell → Cell) :
      Built h → Built ((h.modifyCell id f).refreshFootprint id)
  /-- A collection runs. -/
  | collect {h : Heap} (values : List Value) (words : List UInt64) :
      Built h → Built (h.collect values words).2
  /-- Shapes, names, roots or statistics change. -/
  | other {h h' : Heap} : Built h → h'.slots = h.slots → h'.freeList = h.freeList →
      h'.liveBytes = h.liveBytes → h'.liveCells = h.liveCells → Built h'

/-- What is true of a heap whenever no collection is running. -/
structure Regular (h : Heap) : Prop where
  /-- No slot is colored. -/
  white : h.AllWhite
  /-- The counts are true. -/
  accounted : h.Accounted
  /-- The free list is in order. -/
  listed : h.FreeListed

theorem AllWhite.congr {h' : Heap} (hw : h.AllWhite) (hs : h'.slots = h.slots) : h'.AllWhite := by
  unfold AllWhite
  rw [hs]
  exact hw

theorem Regular.new (limits : HeapLimits) : (Heap.new limits).Regular where
  white := by simp [AllWhite, Heap.new]
  accounted := ⟨rfl, rfl, by simp [Heap.new]⟩
  listed := ⟨by simp [Heap.new], by simp [Heap.new], by simp [Heap.new]⟩

theorem Regular.allocate (hg : h.Regular) (hr : h.HasRoom) (shape : ShapeId) (payload : Payload) :
    (h.allocate shape payload).2.Regular := by
  refine ⟨?_, hg.accounted.allocate hg.listed shape payload, ?_⟩
  · unfold Heap.allocate
    dsimp only
    split
    case isTrue => exact hg.white
    case isFalse => exact (hg.white.place _ _).congr rfl
  · unfold Heap.allocate
    dsimp only
    split
    case isTrue => exact hg.listed
    case isFalse => exact (hg.listed.place hr _ _).congr rfl rfl

/-- **Heaps of programs** are white, truly counted and have their free list in order. -/
theorem Built.regular (hb : h.Built) : h.Regular := by
  induction hb with
  | new limits => exact .new limits
  | allocate shape payload _ hr ih => exact ih.allocate hr shape payload
  | modify id f _ hf ih =>
    exact ⟨ih.white.modifyCell f, ih.accounted.modifyCell hf, ih.listed.modifyCell f⟩
  | resize id f _ ih =>
    exact ⟨(ih.white.modifyCell f).refreshFootprint, ih.accounted.refresh f,
      (ih.listed.modifyCell f).refreshFootprint⟩
  | collect values words _ ih =>
    exact ⟨ih.white.collect values words, ih.accounted.collect ih.white values words,
      ih.listed.collect ih.white values words⟩
  | other _ hs hl hb hc ih =>
    exact ⟨ih.white.congr hs, ih.accounted.congr hs hb hc, ih.listed.congr hs hl⟩

/-! ### The contract of collections -/

theorem mem_allRoots {values : List Value} {words : List UInt64} {v : Value} :
    v ∈ h.allRoots values words ↔
      v ∈ values ∨ v.word ∈ words ∨ some v ∈ h.roots ∨ v ∈ h.temporaries := by
  obtain ⟨w⟩ := v
  simp [allRoots]

/-- **A collection keeps exactly the reachable cells and changes nothing else.** From a heap whose
slots are white it

* ends, its worklist being empty after one step for each slot;
* starts from the values and words given, the persistent roots and the temporaries;
* keeps a handle's cell, as it is, if and only if the cell can be reached, and with it its shape;
* leaves names, limits, roots and temporaries as they are and all slots white;
* and, if the counts were true before, reports the true ones. -/
theorem collect_exact (hw : h.AllWhite) (values : List Value) (words : List UInt64) :
    let roots := h.allRoots values words
    let summary := (h.collect values words).1
    let after := (h.collect values words).2
    (∀ fuel, h.slots.size ≤ fuel → drain fuel (roots.foldl shade (h, [])) = h.mark roots) ∧
    (∀ v, v ∈ roots ↔ v ∈ values ∨ v.word ∈ words ∨ some v ∈ h.roots ∨ v ∈ h.temporaries) ∧
    (∀ id, after.isLive id ↔ h.isLive id ∧ h.Reachable roots id) ∧
    (∀ id c, after.cell? id = some c →
      h.cell? id = some c ∧ after.shapes.get c.shape = h.shapes.get c.shape) ∧
    (after.atoms = h.atoms ∧ after.limits = h.limits ∧ after.roots = h.roots ∧
      after.freeRoots = h.freeRoots ∧ after.temporaries = h.temporaries) ∧
    after.AllWhite ∧
    (h.Accounted →
      summary.freedCells + after.cellCount = h.cellCount ∧
      summary.freedBytes + after.footprints = h.footprints ∧
      summary.liveCells = after.cellCount ∧ summary.liveBytes = after.footprints ∧
      after.Accounted) := by
  intro roots summary after
  refine ⟨fun fuel => drain_of_le hw roots, fun v => mem_allRoots, fun id => ?_, fun id c hc => ?_,
    ?_, hw.collect values words, fun ha => ?_⟩
  · rw [isLive_iff, isLive_iff]
    constructor
    · rintro ⟨c, hc⟩
      have := (cell?_collect hw values words).mp hc
      exact ⟨⟨c, this.1⟩, this.2⟩
    · rintro ⟨⟨c, hc⟩, hr⟩
      exact ⟨c, (cell?_collect hw values words).mpr ⟨hc, hr⟩⟩
  · exact ⟨((cell?_collect hw values words).mp hc).1, shape_collect hw values words hc⟩
  · simp only [after]
    rw [collect_frame hw]
    exact ⟨rfl, rfl, rfl, rfl, rfl⟩
  · have hafter := ha.collect hw values words
    exact ⟨collect_cellCount hw values words, collect_footprints ha hw values words, hafter.cells,
      hafter.liveBytes_eq, hafter⟩

/-- An empty heap with the shapes of objects and arrays. -/
def atticFloor : Heap :=
  { Heap.new {} with
    shapes := { shapes := #[{ kind := .object, prototype := .null }, { kind := .array, prototype := .null }] } }

/-- An object, an array with it as its element and a root, and another object. -/
def attic : Heap :=
  let h := (atticFloor.allocate ⟨0⟩ .plain).2
  let h := (h.allocate ⟨1⟩ (.array (.ofArray #[.cell ⟨0, 0⟩]))).2
  ((h.allocate ⟨0⟩ .plain).2.addRoot (.cell ⟨1, 0⟩)).2.clearTemporaries

theorem attic_built : attic.Built := by
  have hfloor : atticFloor.Built := .other (.new {}) rfl rfl rfl rfl
  have hobject := hfloor.allocate ⟨0⟩ .plain fun _ => by decide
  have harray := hobject.allocate ⟨1⟩ (.array (.ofArray #[.cell ⟨0, 0⟩])) fun _ => by decide
  exact .other (harray.allocate ⟨0⟩ .plain fun _ => by decide) rfl rfl rfl rfl

/-- What the root leads to is kept; a cell that nothing refers to is freed, and counted. -/
theorem collect_exact_unreached :
    attic.AllWhite ∧ attic.Accounted ∧
      (attic.Reachable (attic.allRoots [] []) ⟨0, 0⟩ ∧ (attic.collect [] []).2.isLive ⟨0, 0⟩) ∧
      (¬attic.Reachable (attic.allRoots [] []) ⟨2, 0⟩ ∧ attic.isLive ⟨2, 0⟩ ∧
        (attic.collect [] []).2.isLive ⟨2, 0⟩ = false) ∧
      (attic.collect [] []).1.freedBytes = cellBytes ∧
      cellBytes + (attic.collect [] []).2.footprints = attic.footprints := by
  obtain ⟨hw, ha, -⟩ := attic_built.regular
  obtain ⟨-, -, hlive, -, -, -, hcounts⟩ := collect_exact hw [] []
  have harray : attic.Reachable (attic.allRoots [] []) ⟨1, 0⟩ := .root (by decide) (by decide)
  have helement : attic.Reachable (attic.allRoots [] []) ⟨0, 0⟩ :=
    .step harray rfl (.element rfl (Array.mem_singleton.mpr rfl)) (by decide)
  have hgone : (attic.collect [] []).2.isLive ⟨2, 0⟩ = false := by decide +kernel
  have hother : attic.isLive ⟨2, 0⟩ := by decide
  have hfreed : (attic.collect [] []).1.freedBytes = cellBytes := by decide +kernel
  have hbytes := (hcounts ha).2.1
  rw [hfreed] at hbytes
  refine ⟨hw, ha, ⟨helement, (hlive _).mpr ⟨by decide, helement⟩⟩, ⟨fun hreached => ?_, hother, hgone⟩,
    hfreed, hbytes⟩
  have hkept := (hlive _).mpr ⟨hother, hreached⟩
  rw [hgone] at hkept
  cases hkept

end Heap

end ScriptMachine
