import ScriptMachine.Proofs.Heap.Collection
import ScriptMachine.Proofs.Heap.Faults
import ScriptMachine.Proofs.Shape.Layout

/-! # Bytes that are asked for

A heap refuses a request only when its bytes do not fit below the limit. The bytes are known before:
those of a cell on a shape without overflow, as the root shapes are, are the fixed ones and those of the
payload (`allocate_fits`), and those of a write are what the elements of an array grow by
(`Heap.propertyBytes`). A write that fails says why (`Explained`).

A collection of any heap, in order or not, leaves the survivors and their shapes as they are, so that a
write that is tried again asks for the same bytes (`bytes_collect`). -/

namespace ScriptMachine

/-- The bytes that one more element takes: none while there is room. -/
def Elements.appendBytes (e : Elements) : Nat :=
  if e.items.size = e.capacity then (Heap.grownCapacity e.capacity - e.capacity) * valueBytes else 0

/-- A cell whose properties all lie inside of it takes the fixed bytes and those of its payload. -/
theorem Cell.footprint_new {count : Nat} (hcount : count ≤ inlineSlots) (shape : ShapeId)
    (payload : Payload) : (Cell.new shape count payload).footprint = cellBytes + payload.bytes := by
  have hroom : Cell.new shape count payload =
      ⟨shape, Array.replicate inlineSlots Value.undefined, 0, payload⟩ :=
    if_pos (by simpa using hcount)
  rw [hroom, footprint, Nat.zero_mul, Nat.add_zero]

/-- The shape that is listed for a kind and a prototype has no slots. -/
theorem ShapeTable.slotCount_root {t : ShapeTable} (hi : t.Ordered) (hl : t.Laid) {id : ShapeId}
    {kind : CellKind} {prototype : Value} (hroot : t.roots[(kind, prototype)]? = some id) :
    (t.get id).slotCount = 0 := by
  obtain ⟨hshared, -, -, hempty⟩ := hi.root kind prototype id hroot
  rw [((hl id).packed hshared.2).2.1, hempty]
  rfl

/-- What is given back is empty, so that no shape gets more slots in a sweep. -/
theorem ShapeTable.slotCount_sweep_le (t : ShapeTable) (inUse : List ShapeId) (alive : Value → Bool)
    (id : ShapeId) : ((t.sweep inUse alive).2.get id).slotCount ≤ (t.get id).slotCount := by
  by_cases hgone : t.isLive id = true ∧ t.keeps inUse alive id = false
  · rw [t.sweep_get_reclaimed inUse alive hgone.1 hgone.2]
    exact Nat.zero_le _
  · rw [t.sweep_get inUse alive id (by grind)]

namespace Heap

variable {h h' : Heap} {id : Handle} {c : Cell} {values : List Value} {words : List UInt64}

/-! ### Collections of any heap -/

/-- The second heap is the first one but for colors. -/
structure Recolored (h h' : Heap) : Prop where
  rest : h' = { h with slots := h'.slots }
  cells : h'.cell? = h.cell?

theorem Recolored.setColor (hr : h.Recolored h') (index : UInt32) (color : MarkColor) :
    h.Recolored (h'.setColor index color) := by
  refine ⟨by rw [Heap.setColor, hr.rest], hr.cells ▸ funext fun id => ?_⟩
  simp only [cell?, Heap.setColor, Array.getElem?_modify]
  by_cases hi : index.toNat = id.index.toNat
  · simp only [hi, if_true]
    cases h'.slots[id.index.toNat]? <;> rfl
  · simp only [hi, if_false]

theorem Recolored.shade {s : Heap × List Handle} (hr : h.Recolored s.1) (values : List Value) :
    h.Recolored (values.foldl Heap.shade s).1 := by
  induction values generalizing s with
  | nil => exact hr
  | cons v values ih =>
    refine ih ?_
    unfold Heap.shade
    cases v.cell? with
    | none => exact hr
    | some id =>
      dsimp only
      split
      · exact hr.setColor _ _
      · exact hr

theorem Recolored.drain (fuel : Nat) {s : Heap × List Handle} (hr : h.Recolored s.1) :
    h.Recolored (Heap.drain fuel s) := by
  induction fuel generalizing s with
  | zero => exact hr
  | succ fuel ih =>
    obtain ⟨h', worklist⟩ := s
    cases worklist with
    | nil => exact hr
    | cons id worklist => exact ih ((hr.setColor id.index .black).shade _)

/-- **Marking** colors slots and does nothing else. -/
theorem recolored_mark (h : Heap) (values : List Value) : h.Recolored (h.mark values) :=
  .drain _ (.shade (s := (h, [])) ⟨rfl, rfl⟩ values)

/-- **What every collection keeps**: the names and the limits, the cells that are left, and their shapes.
There are not more bytes than before. -/
theorem collect_keeps (h : Heap) (values : List Value) (words : List UInt64) :
    (h.collect values words).2.atoms = h.atoms ∧
    (h.collect values words).2.limits = h.limits ∧
    (h.collect values words).2.liveBytes ≤ h.liveBytes ∧
    (∀ id, ((h.collect values words).2.shapes.get id).slotCount ≤ (h.shapes.get id).slotCount) ∧
    ∀ id c, (h.collect values words).2.cell? id = some c →
      h.cell? id = some c ∧ (h.collect values words).2.shapes.get c.shape = h.shapes.get c.shape := by
  have hmark := h.recolored_mark (h.allRoots values words)
  have hcollect : ∀ {β : Type} (f : Heap → β), (∀ (k : Heap) stats next,
      f { k with stats, nextCollection := next } = f k) →
      f (h.collect values words).2 = f (h.mark (h.allRoots values words)).sweep.2 :=
    fun f hf => hf _ _ _
  generalize h.mark (h.allRoots values words) = marked at hmark hcollect
  have hswept := swept_sweep marked
  have hshapes : marked.sweep.2.shapes = (h.shapes.sweep
      (marked.sweepTo marked.slots.size).inUse
      (marked.sweepTo marked.slots.size).heap.prototypeAlive).2 := by
    simp only [sweep, sweepTo_eq_foldl]
    rw [hswept.frame, hmark.rest]
  rw [hcollect Heap.atoms fun _ _ _ => rfl, hcollect Heap.limits fun _ _ _ => rfl,
    hcollect Heap.liveBytes fun _ _ _ => rfl, hcollect Heap.shapes fun _ _ _ => rfl,
    hcollect Heap.cell? fun _ _ _ => rfl, hshapes]
  refine ⟨?_, ?_, ?_, fun id => ShapeTable.slotCount_sweep_le _ _ _ _, fun id c hc => ?_⟩
  · rw [sweep_frame, hmark.rest]
  · rw [sweep_frame, hmark.rest]
  · rw [sweep_frame, hmark.rest]
    exact Nat.sub_le _ _
  · rw [cell?_sweep] at hc
    split at hc
    case isTrue => cases hc
    case isFalse hcolor =>
      refine ⟨hmark.cells ▸ hc, ShapeTable.get_sweep _ ?_ _⟩
      obtain ⟨slot, hs, hg, hcell⟩ := cell?_eq_some.mp hc
      have hne : slot.color ≠ .white := fun e => hcolor (by simp [color?, hs, hg, hcell, e])
      exact (hswept.inUse c.shape).mpr
        ⟨_, (Array.getElem?_eq_some_iff.mp hs).1, slot, c, hs, hcell, hne, rfl⟩

/-! ### Cells -/

/-- **An allocation on a shape without overflow** is refused only if the fixed bytes and those of the
payload do not fit. -/
theorem allocate_fits {shape : ShapeId} (hs : (h.shapes.get shape).slotCount ≤ inlineSlots)
    (payload : Payload) :
    (h.limits.maxBytes < h.liveBytes + (cellBytes + payload.bytes) ∧
      h.allocate shape payload = (.error (.outOfMemory h.limits.maxBytes), h)) ∨
    h.liveBytes + (cellBytes + payload.bytes) ≤ h.limits.maxBytes ∧
      ∃ id, (h.allocate shape payload).1 = .ok id := by
  unfold allocate
  dsimp only
  rw [Cell.footprint_new hs]
  split
  case isTrue hmore => exact .inl ⟨hmore, rfl⟩
  case isFalse hmore => exact .inr ⟨Nat.le_of_not_lt hmore, _, rfl⟩

/-! ### Elements -/

/-- The elements of an array. -/
def elements? (h : Heap) (id : Handle) : Option Elements := (h.cell? id).bind Cell.elements?

/-- **The bytes a write to an index asks for**: those of an append, if that is where the write goes. -/
def indexBytes (h : Heap) (id : Handle) (index : UInt32) : Nat :=
  match h.elements? id with
  | some e =>
    if index.toNat = e.items.size ∧ (h.namedIndex? id index).all (·.attributes == .none) then
      e.appendBytes
    else 0
  | none => 0

/-- The bytes a new length asks for. -/
def lengthBytes (h : Heap) (id : Handle) (length : Value) : Nat :=
  match h.elements? id, length.arrayIndex? with
  | some e, some n => (n.toNat - e.capacity) * valueBytes
  | _, _ => 0

/-- **The bytes a write to a property asks for.** -/
def propertyBytes (h : Heap) (id : Handle) (name : Atom) (value : Value) : Nat :=
  match h.atoms.arrayIndex? name with
  | some index => h.indexBytes id index
  | none => if h.atoms.name name = "length" then h.lengthBytes id value else 0

/-- **A write asks for the same bytes after a collection** that kept the cell. -/
theorem bytes_collect (hc : (h.collect values words).2.cell? id = some c) :
    (∀ index, (h.collect values words).2.indexBytes id index = h.indexBytes id index) ∧
    ∀ name value, (h.collect values words).2.propertyBytes id name value =
      h.propertyBytes id name value := by
  obtain ⟨hatoms, -, -, -, hkeep⟩ := collect_keeps h values words
  obtain ⟨hcell, hshape⟩ := hkeep id c hc
  have helements : (h.collect values words).2.elements? id = h.elements? id := by
    simp only [elements?, hc, hcell]
  have hnamed (index : UInt32) :
      (h.collect values words).2.namedIndex? id index = h.namedIndex? id index := by
    simp only [namedIndex?, hatoms, hc, hcell, ShapeTable.lookup?, hshape]
  have hindex (index : UInt32) :
      (h.collect values words).2.indexBytes id index = h.indexBytes id index := by
    simp only [indexBytes, helements, hnamed]
  refine ⟨hindex, fun name value => ?_⟩
  simp only [propertyBytes, lengthBytes, hatoms, hindex, helements]

/-- **A failure that is explained**: the handle is stale, or so many bytes do not fit. -/
def Explained {α : Type} (n : Nat) (x : HeapM α) (h : Heap) : Prop :=
  ∀ fault h', x h = .error fault h' → h' = h ∧ (fault = .staleHandle ∨
    fault = .outOfMemory ∧ 0 < n ∧ h.limits.maxBytes < h.liveBytes + n)

theorem explained_of_stale {α : Type} {f : Cell → HeapM α} (n : Nat) (hcell : h.cell? id = none) :
    Explained n (requireCell id >>= f) h := by
  intro fault h' herr
  simp only [bind, EStateM.bind, requireCell_none hcell] at herr
  obtain ⟨rfl, rfl⟩ := EStateM.Result.error.inj herr
  exact ⟨rfl, .inl rfl⟩

/-- An append fails if the greater storage does not fit, and other writes of elements do not fail. -/
theorem putElement_error {position length capacity : Nat} {named : Option Property} {value : Value}
    {fault : PropertyFault} (hcell : h.cell? id = some c)
    (herr : putElement id position length capacity named value h = .error fault h') :
    fault = .outOfMemory ∧ position = length ∧ length = capacity ∧
      h.limits.maxBytes < h.liveBytes + (grownCapacity capacity - capacity) * valueBytes := by
  cases hfull : position == length && length == capacity with
  | false =>
    exfalso
    by_cases hlt : position < length <;> cases named <;>
      simp only [putElement, hfull, Bool.false_eq_true, if_false, if_true, bind, EStateM.bind,
        requireCell_some hcell, modify_apply, hlt] at herr <;> cases herr
  | true =>
    by_cases hm : h.liveBytes + (grownCapacity capacity - capacity) * valueBytes ≤ h.limits.maxBytes
    · exfalso
      by_cases hlt : position < length <;> cases named <;>
        simp only [putElement, hfull, bind, EStateM.bind, reserveBytes_apply, hm, if_true, if_false,
          requireCell_some hcell, modify_apply, hlt] at herr <;> cases herr
    · simp only [putElement, hfull, bind, EStateM.bind, reserveBytes_apply, hm, if_true,
        if_false] at herr
      obtain ⟨rfl, -⟩ := EStateM.Result.error.inj herr
      simp only [Bool.and_eq_true, beq_iff_eq] at hfull
      exact ⟨rfl, hfull.1, hfull.2, Nat.lt_of_not_le hm⟩

theorem appendBytes_pos {e : Elements} (hfull : e.items.size = e.capacity) : 0 < e.appendBytes := by
  have hgrows : e.capacity < grownCapacity e.capacity := by unfold grownCapacity; omega
  rw [Elements.appendBytes, if_pos hfull]
  exact Nat.mul_pos (Nat.sub_pos_of_lt hgrows) (by decide)

/-- **A write to an index.** -/
theorem setIndex_explained (index : UInt32) (value : Value) :
    Explained (h.indexBytes id index) (setIndex id index value) h := by
  cases hcell : h.cell? id with
  | none => exact explained_of_stale _ hcell
  | some c =>
    intro fault h' herr
    refine ⟨(setIndex_sturdy index fault h' herr).1, ?_⟩
    have named {k : Heap} {c' : Cell} {name : Atom} (hk : k.cell? id = some c')
        (hput : putNamed id name value .none k = .error fault h') : False := by
      obtain ⟨outcome, k', hok⟩ : ∃ outcome k', putNamed id name value .none k = .ok outcome k' :=
        putNamed_ok hk
      rw [hok] at hput
      cases hput
    rcases setIndex_cases hcell index value with
      ⟨heq, -⟩ | heq | ⟨e, named?, he, -, hnamed?, heq⟩ | ⟨p, -, -, heq⟩
    · exact (named (k := (h.internIndex index).2) hcell (heq.symm.trans herr)).elim
    · cases heq.symm.trans herr
    · right
      obtain ⟨rfl, hsize, hfull, hmore⟩ := putElement_error hcell (heq.symm.trans herr)
      have hunfilled : ¬c.Filled index.toNat := by
        rintro ⟨e', v, he', hitem, -⟩
        obtain rfl := Payload.array.inj (he.symm.trans he')
        rw [hsize, Array.getElem?_eq_none (Nat.le_refl _)] at hitem
        cases hitem
      -- a property with attributes would have taken the value
      have hplain : (h.namedIndex? id index).all (·.attributes == .none) = true := by
        cases hn : h.namedIndex? id index with
        | none => rfl
        | some p =>
          by_contra hattributes
          have heq := setIndex_unfilled hcell he (Nat.le_of_eq hsize) hunfilled value
          rw [hn] at heq
          simp only [Option.all_some] at hattributes
          simp only [hattributes] at heq
          exact named hcell (heq.symm.trans herr)
      have hbytes : h.indexBytes id index = e.appendBytes := by
        simp only [indexBytes, elements?, hcell, Option.bind_some, Cell.elements?, he, hsize, hplain,
          and_self, if_true]
      rw [hbytes]
      refine ⟨rfl, appendBytes_pos hfull, ?_⟩
      rwa [Elements.appendBytes, if_pos hfull]
    · exact (named hcell (heq.symm.trans herr)).elim

/-- A length that is refused is no length, or its storage does not fit. -/
theorem setArrayLength_error {length : Value} {fault : PropertyFault}
    (herr : setArrayLength id length h = .error fault h') :
    fault = .invalidArrayLength ∧ h.lengthBytes id length = 0 ∨
    fault = .outOfMemory ∧ 0 < h.lengthBytes id length ∧
      h.limits.maxBytes < h.liveBytes + h.lengthBytes id length := by
  unfold setArrayLength at herr
  cases hlength : length.arrayIndex? with
  | none =>
    rw [hlength] at herr
    refine .inl ⟨(EStateM.Result.error.inj herr).1.symm, ?_⟩
    unfold lengthBytes
    rw [hlength]
    cases h.elements? id <;> rfl
  | some n =>
    rw [hlength] at herr
    cases hcell : h.cell? id with
    | none =>
      simp only [bind, EStateM.bind, get_apply, hcell] at herr
      cases herr
    | some c =>
      simp only [bind, EStateM.bind, get_apply, hcell] at herr
      cases hp : c.payload with
      | plain | string _ | function _ | activation _ =>
        rw [hp] at herr
        cases herr
      | array e =>
        rw [hp] at herr
        have hbytes : h.lengthBytes id length = (n.toNat - e.capacity) * valueBytes := by
          simp only [lengthBytes, elements?, hcell, Option.bind_some, Cell.elements?, hp, hlength]
        by_cases hroom : n.toNat > e.capacity
        · by_cases hm : h.liveBytes + (n.toNat - e.capacity) * valueBytes ≤ h.limits.maxBytes
          · simp only [hroom, if_true, EStateM.bind, reserveBytes_apply, hm] at herr
            cases herr
          · simp only [hroom, if_true, EStateM.bind, reserveBytes_apply, hm, if_false] at herr
            rw [hbytes]
            exact .inr ⟨(EStateM.Result.error.inj herr).1.symm,
              Nat.mul_pos (Nat.sub_pos_of_lt hroom) (by decide), Nat.lt_of_not_le hm⟩
        · simp only [hroom, if_false] at herr
          cases herr

/-- **A write to a property that asks for bytes.** -/
theorem setProperty_explained {name : Atom} {value : Value}
    (hpos : 0 < h.propertyBytes id name value) :
    Explained (h.propertyBytes id name value) (setProperty id name value) h := by
  cases hcell : h.cell? id with
  | none => exact explained_of_stale _ hcell
  | some c =>
    intro fault h' herr
    have hsame := (setProperty_sturdy fault h' herr).1
    cases hindex : h.atoms.arrayIndex? name with
    | some index =>
      have hbytes : h.propertyBytes id name value = h.indexBytes id index := by
        rw [propertyBytes, hindex]
      have hkind : c.kind = .array := by
        rw [hbytes, indexBytes, elements?, hcell] at hpos
        obtain ⟨shape, slots, capacity, payload⟩ := c
        cases payload with
        | array e => rfl
        | plain | string _ | function _ | activation _ => cases hpos
      have heq : setProperty id name value h = setIndex id index value h := by
        simp only [setProperty, bind, EStateM.bind, requireCell_some hcell, get_apply, hkind, hindex]
      rw [hbytes]
      exact setIndex_explained index value fault h' (heq.symm.trans herr)
    | none =>
      rcases setProperty_cases hcell name value with
        ⟨index, -, hsome, -⟩ | ⟨-, hname, heq⟩ | heq | ⟨-, heq⟩
      · rw [hindex] at hsome
        cases hsome
      · have hbytes : h.propertyBytes id name value = h.lengthBytes id value := by
          simp only [propertyBytes, hindex, hname, if_true]
        have hset : setArrayLength id value h = .error fault h' := by
          have herr := heq.symm.trans herr
          simp only [bind, EStateM.bind] at herr
          cases hset : setArrayLength id value h with
          | ok _ k =>
            rw [hset] at herr
            cases herr
          | error fault' k =>
            rw [hset] at herr
            obtain ⟨rfl, rfl⟩ := EStateM.Result.error.inj herr
            rfl
        rw [hbytes] at hpos ⊢
        refine ⟨hsame, (setArrayLength_error hset).elim (fun hzero => ?_) .inr⟩
        exact absurd hzero.2 (Nat.ne_of_gt hpos)
      · cases heq.symm.trans herr
      · obtain ⟨outcome, k', hok⟩ : ∃ outcome k', putNamed id name value .none h = .ok outcome k' :=
          putNamed_ok hcell
        cases hok.symm.trans (heq.symm.trans herr)

end Heap

end ScriptMachine
