import Mathlib.Data.List.Sort
import ScriptMachine.Proofs.Heap.Enumeration
import ScriptMachine.Proofs.Heap.Faults

/-! # Deleting properties

Deleting does not fail on a live cell. It refuses exactly what cannot be deleted (`Heap.Undeletable`), and
then nothing changes. Otherwise the cell has no property of the name afterwards, wherever it was: among the
elements, where there is a hole now, or in a slot, which is free and undefined now, or nowhere
(`Heap.Deleted`). Whatever else the cell has stays as it was, in its order.

No slot that is free holds anything, in any heap that actions lead to, and a property that gets such a slot is
read as what it was given: what was deleted does not come back.

The main statement is `deleteProperty_removes`. -/

namespace ScriptMachine

/-! ### Holes -/

namespace Cell

variable {c c' : Cell} {i j : Nat}

/-- Makes a hole of an element. -/
def punch (c : Cell) (i : Nat) : Cell :=
  c.mapElements fun e => { e with items := e.items.setIfInBounds i .hole }

theorem punch_frame (c : Cell) (i : Nat) :
    (c.punch i).shape = c.shape ∧ (c.punch i).slots = c.slots ∧ (c.punch i).kind = c.kind :=
  Heap.mapElements_frame _ c

theorem filled_punch : (c.punch i).Filled j ↔ c.Filled j ∧ j ≠ i := by
  obtain ⟨shape, slots, capacity, payload⟩ := c
  cases payload with
  | array e =>
    simp only [punch, mapElements, Filled, Payload.array.injEq, ↓existsAndEq, true_and]
    by_cases hij : j = i
    · subst hij
      simp [Array.getElem?_setIfInBounds_self, Value.isHole, Value.hole]
    · simp [Array.getElem?_setIfInBounds_ne (Ne.symm hij), hij]
  | plain | string _ | function _ | activation _ => simp [punch, mapElements, Filled]

theorem present_congr (hp : c'.payload = c.payload) : c'.present = c.present := by
  simp only [present, elements?, hp]

theorem present_punch (c : Cell) (i : Nat) : (c.punch i).present = c.present.filter (· ≠ i) := by
  refine List.Pairwise.eq_of_mem_iff (c.punch i).present_increasing (c.present_increasing.filter _) fun j => ?_
  rw [mem_present, filled_punch, List.mem_filter, mem_present, decide_eq_true_iff]

end Cell

namespace Heap

variable {h h' : Heap} {s : Ledger} {id : Handle} {c c' : Cell} {name other : Atom} {value : Value}
  {index : UInt32} {attributes : Attributes}

theorem clearElement_eq (hi : h.atoms.arrayIndex? name = some index) :
    h.clearElement id name = h.modifyCell id (·.punch index.toNat) := by
  rw [clearElement, hi]
  rfl

theorem cell?_punch (hcell : h.cell? id = some c) (i : Nat) :
    (h.modifyCell id (·.punch i)).cell? id = some (c.punch i) := by
  rw [cell?_modifyCell_self, hcell]
  rfl

/-- A hole changes what is read under no name but that of its index. -/
theorem synthesized?_punch (ho : h.atoms.Ordered) (hi : h.atoms.arrayIndex? name = some index)
    (hne : other ≠ name) (c : Cell) : h.synthesized? (c.punch index.toNat) other = h.synthesized? c other := by
  obtain ⟨shape, slots, capacity, payload⟩ := c
  cases payload with
  | array e =>
    simp only [synthesized?, Cell.punch, Cell.mapElements]
    cases hj : h.atoms.arrayIndex? other with
    | none => simp only [Array.size_setIfInBounds]
    | some position =>
      have hpos : index.toNat ≠ position.toNat := fun heq =>
        hne (eq_of_arrayIndex? ho hi ((UInt32.toNat_inj.mp heq) ▸ hj))
      simp only [Array.getElem?_setIfInBounds_ne hpos]
  | plain | string _ | function _ | activation _ => rfl

/-- **Clearing an element** leaves everything else of the cell as it is. -/
theorem clearElement_keeps (ho : h.atoms.Ordered) (hcell : h.cell? id = some c) (name : Atom) :
    (∀ other, other ≠ name → (h.clearElement id name).own? id other = h.own? id other) ∧
      (h.clearElement id name).arrayLength? id = h.arrayLength? id := by
  cases hi : h.atoms.arrayIndex? name with
  | none =>
    rw [clearElement, hi]
    exact ⟨fun _ _ => rfl, rfl⟩
  | some index =>
    have hread := cell?_punch hcell index.toNat
    rw [clearElement_eq hi]
    refine ⟨fun other hne => ?_, ?_⟩
    · have hsynthesized : (h.modifyCell id (·.punch index.toNat)).synthesized? (c.punch index.toNat) other =
          h.synthesized? c other := synthesized?_punch ho hi hne c
      have hlisted : (h.modifyCell id (·.punch index.toNat)).shapes.listed? (c.punch index.toNat) other =
          h.shapes.listed? c other := by
        change h.shapes.listed? _ _ = _
        simp only [ShapeTable.listed?, Cell.slot, (c.punch_frame index.toNat).1, (c.punch_frame index.toNat).2.1]
      rw [own?_of_cell hread, own?_of_cell hcell, property?, property?, hsynthesized, hlisted]
    · rw [arrayLength?, hread, arrayLength?, hcell]
      obtain ⟨shape, slots, capacity, payload⟩ := c
      cases payload with
      | array e => simp [Cell.punch, Cell.mapElements, Cell.elements?]
      | plain | string _ | function _ | activation _ => rfl

/-! ### What can be deleted -/

/-- **The length** of an array or a string. -/
def Measures (h : Heap) (c : Cell) (name : Atom) : Prop :=
  h.atoms.name name = "length" ∧ (c.kind = .array ∨ c.kind = .string)

/-- **What cannot be deleted**: a length, and a property that says so. -/
def Undeletable (h : Heap) (c : Cell) (name : Atom) : Prop :=
  h.Measures c name ∨ ∃ p, h.shapes.lookup? c.shape name = some p ∧ p.attributes.dontDelete = true

/-- What no shape lists is an element or a length. -/
theorem isSome_synthesized? (ho : h.atoms.Ordered) (c : Cell) (name : Atom) :
    (h.synthesized? c name).isSome ↔
      (∃ index, h.atoms.arrayIndex? name = some index ∧ c.Filled index.toNat) ∨ h.Measures c name := by
  obtain ⟨shape, slots, capacity, payload⟩ := c
  cases payload with
  | array e =>
    cases hi : h.atoms.arrayIndex? name with
    | none => simp [synthesized?, hi, Measures, Cell.kind, Payload.kind]
    | some index =>
      have hn : h.atoms.name name ≠ "length" := fun hn => by cases (arrayIndex?_length ho hn).symm.trans hi
      rw [synthesized?_index rfl hi, Option.isSome_filter]
      simp [Measures, hn, Cell.Filled, Option.any_eq_true]
  | string text => simp [synthesized?, Measures, Cell.kind, Payload.kind, Cell.Filled]
  | plain | function _ | activation _ => simp [synthesized?, Measures, Cell.kind, Payload.kind, Cell.Filled]

theorem isSome_denseElement? (hcell : h.cell? id = some c) (index : UInt32) :
    (h.denseElement? id index).isSome ↔ c.Filled index.toNat := by
  obtain ⟨shape, slots, capacity, payload⟩ := c
  cases payload with
  | array e =>
    simp only [denseElement?, hcell, Cell.Filled, Payload.array.injEq, ↓existsAndEq, true_and]
    cases e.items[index.toNat]? with
    | none => simp
    | some value => cases hh : value.isHole <;> simp [hh]
  | plain | string _ | function _ | activation _ => simp [denseElement?, hcell, Cell.Filled]

/-- **What deleting does to a live cell**: nothing, if the property must stay; else it makes a hole of an
element, or removes a listed property, or there was none. -/
theorem deleteProperty_result (hc : h.Coherent) (hfit : h.atoms.Fits) (hcell : h.cell? id = some c)
    (name : Atom) :
    h.Undeletable c name ∧ deleteProperty id name h = .ok false h ∨
    ¬h.Undeletable c name ∧
      ((∃ index, h.atoms.arrayIndex? name = some index ∧ c.Filled index.toNat ∧
        deleteProperty id name h = .ok true (h.modifyCell id (·.punch index.toNat))) ∨
      h.synthesized? c name = none ∧ h.shapes.lookup? c.shape name = none ∧
        deleteProperty id name h = .ok true h ∨
      h.synthesized? c name = none ∧ (h.shapes.lookup? c.shape name).isSome ∧
        deleteProperty id name h = .ok true (h.removeNamed id c.shape name)) := by
  have hsynthesized := isSome_synthesized? hc.atoms c name
  by_cases hfilled : ∃ index, h.atoms.arrayIndex? name = some index ∧ c.Filled index.toNat
  · -- an element; no shape lists its index, and it is no length
    obtain ⟨index, hi, hfill⟩ := hfilled
    have hl := hc.single hfit id c name index hcell hi hfill
    refine .inr ⟨?_, .inl ⟨index, hi, hfill, ?_⟩⟩
    · rintro (⟨hn, -⟩ | ⟨p, hp, -⟩)
      · cases (arrayIndex?_length hc.atoms hn).symm.trans hi
      · cases hl.symm.trans hp
    · have hdense := (isSome_denseElement? hcell index).mpr hfill
      simp only [deleteProperty, bind, EStateM.bind, requireCell_some hcell, get_apply, hi, hdense, if_true,
        modify_apply, clearElement_eq hi]
      rfl
  · have heq : deleteProperty id name h = h.deleteNamed id c name h := by
      cases hi : h.atoms.arrayIndex? name with
      | none =>
        simp only [deleteProperty, bind, EStateM.bind, requireCell_some hcell, get_apply, hi]
        rfl
      | some index =>
        have hdense : ¬(h.denseElement? id index).isSome := fun hd =>
          hfilled ⟨index, hi, (isSome_denseElement? hcell index).mp hd⟩
        simp only [deleteProperty, bind, EStateM.bind, requireCell_some hcell, get_apply, hi, hdense]
        rfl
    rw [or_iff_right hfilled] at hsynthesized
    rw [heq, deleteNamed]
    by_cases hm : h.Measures c name
    · rw [if_pos (hsynthesized.mpr hm)]
      exact .inl ⟨.inl hm, rfl⟩
    · have hnone : h.synthesized? c name = none := by
        rw [← Option.not_isSome_iff_eq_none, hsynthesized]
        exact hm
      rw [if_neg (by rw [hnone]; exact Bool.false_ne_true)]
      cases hl : h.shapes.lookup? c.shape name with
      | none =>
        exact .inr ⟨by simp [Undeletable, hm, hl], .inr (.inl ⟨hnone, rfl, rfl⟩)⟩
      | some p =>
        dsimp only
        by_cases hd : p.attributes.dontDelete = true
        · rw [if_pos hd]
          exact .inl ⟨.inr ⟨p, hl, hd⟩, rfl⟩
        · rw [if_neg hd]
          exact .inr ⟨by simp [Undeletable, hm, hl, hd], .inr (.inr ⟨hnone, rfl, rfl⟩)⟩

/-! ### What is left -/

/-- **A name has been deleted** from a cell. -/
structure Deleted (h : Heap) (id : Handle) (name : Atom) (h' : Heap) : Prop where
  /-- The cell has no property of the name. -/
  absent : h'.hasOwnProperty id name = false
  /-- Other properties keep their values and their attributes. -/
  others : ∀ other, other ≠ name → h'.own? id other = h.own? id other
  /-- Names keep their order. -/
  names : h'.names id = (h.names id).filter (· ≠ name)
  /-- So does what the cell enumerates. -/
  keys : (h'.ownKeys id).1 = (h.ownKeys id).1.filter (· ≠ name)
  /-- An array keeps its length. -/
  length : h'.arrayLength? id = h.arrayLength? id
  /-- The slot of the property is free and undefined. -/
  freed : ∀ c p, h.cell? id = some c → h.shapes.lookup? c.shape name = some p →
    ∃ c', h'.cell? id = some c' ∧ p.offset ∈ (h'.shapes.get c'.shape).freeOffsets ∧
      c'.slot p.offset = .undefined

theorem hasOwnProperty_eq (hcell : h.cell? id = some c) :
    h.hasOwnProperty id name = ((h.synthesized? c name).isSome || (h.shapes.lookup? c.shape name).isSome) := by
  rw [hasOwnProperty, hcell]

/-- The indices of a cell are interned alike in heaps of the same names. -/
theorem internIndices_congr (ha : h'.atoms = h.atoms) (indices : List Nat) :
    (h'.internIndices indices).1 = (h.internIndices indices).1 := by
  induction indices generalizing h h' with
  | nil => rfl
  | cons i rest ih =>
    have hfirst : h'.internIndex i.toUInt32 =
        ((h.internIndex i.toUInt32).1, { h' with atoms := (h.internIndex i.toUInt32).2.atoms }) := by
      simp only [internIndex, intern, ha]
    simp only [internIndices, hfirst]
    exact congrArg _ (ih rfl)

/-- An index that has a name is not interned anew. -/
theorem internIndex_of_index (ho : h.atoms.Ordered) (hi : h.atoms.arrayIndex? name = some index) :
    h.internIndex index = (name, h) := by
  have hget := AtomTable.get?_indexName ho hi
  unfold AtomTable.get? at hget
  simp only [internIndex, intern, AtomTable.intern, hget]

/-- Leaving out an index that has a name leaves out the name only. -/
theorem internIndices_filter (ho : h.atoms.Ordered) (hi : h.atoms.arrayIndex? name = some index)
    {indices : List Nat} (hfit : (h.internIndices indices).2.atoms.Fits)
    (hsmall : ∀ i ∈ indices, i < UInt32.size - 1) :
    (h.internIndices (indices.filter (· ≠ index.toNat))).1 = (h.internIndices indices).1.filter (· ≠ name) := by
  induction indices generalizing h with
  | nil => rfl
  | cons i rest ih =>
    obtain ⟨hi', hrest⟩ := List.forall_mem_cons.mp hsmall
    obtain ⟨ho', hext, -⟩ := AtomTable.intern_spec ho (indexName i.toUInt32)
    obtain ⟨-, hext', -⟩ := internIndices_spec (h := (h.internIndex i.toUInt32).2) ho' rest
    have hsame : i.toUInt32.toNat = i := UInt32.toNat_ofNat_of_lt' (by omega)
    -- the name is that of the index, before and after
    have hknown : h.atoms.Knows name := ho.knows (AtomTable.get?_indexName ho hi)
    have hname : ((h.internIndex i.toUInt32).2.internIndices (rest.filter (· ≠ index.toNat))).1 =
        ((h.internIndex i.toUInt32).2.internIndices rest).1.filter (· ≠ name) :=
      ih ho' ((hext.arrayIndex? hknown).trans hi) hfit hrest
    by_cases heq : i = index.toNat
    · have hstays : h.internIndex i.toUInt32 = (name, h) := by
        rw [show i.toUInt32 = index from UInt32.toNat_inj.mp (by rw [hsame, heq])]
        exact internIndex_of_index ho hi
      rw [hstays] at hname
      rw [List.filter_cons_of_neg (by simpa using heq), hname, internIndices, hstays]
      exact (List.filter_cons_of_neg (by simp)).symm
    · have hne : (h.internIndex i.toUInt32).1 ≠ name := by
        intro hn
        have hfirst := (AtomTable.arrayIndex?_intern ho (hext'.fits hfit)).trans
          (arrayIndexOf?_indexName (by rw [hsame]; exact hi'))
        rw [show (h.atoms.intern (indexName i.toUInt32)).1 = name from hn, hext.arrayIndex? hknown, hi] at hfirst
        exact heq (by rw [← hsame, Option.some.inj hfirst])
      rw [List.filter_cons_of_pos (by simpa using heq), internIndices, internIndices]
      dsimp only
      rw [hname, List.filter_cons_of_pos (by simpa using hne)]

theorem filter_ne_of_not_mem {names : List Atom} (hn : name ∉ names) : names.filter (· ≠ name) = names :=
  List.filter_eq_self.mpr fun a hmem => decide_eq_true fun heq : a = name => hn (heq ▸ hmem)

/-- The names that a cell enumerates, without the heap where they are interned. -/
theorem fst_ownKeys (hx : h.shapes.Ordered) (hcell : h.cell? id = some c) :
    (h.ownKeys id).1 = (h.internIndices c.present).1 ++ (h.names id).filter (h.enumerates id) := by
  rw [ownKeys_names hx hcell]

section Keys

variable (hc : h.Coherent) (hcell : h.cell? id = some c) (hk : h.atoms.Knows name)
  (hfit : (h.ownKeys id).2.atoms.Fits)
  (hlen : ∀ length, h.arrayLength? id = some length → length < UInt32.size)
include hc hcell hk hfit hlen

/-- The indices that a cell enumerates do not have the name of what is no element. -/
theorem not_mem_indices (hs : h.synthesized? c name = none) : name ∉ (h.internIndices c.present).1 := by
  rw [ownKeys_eq hcell] at hfit
  intro hmem
  obtain ⟨-, hext, hnames⟩ := internIndices_spec hc.atoms c.present
  have hsmall := present_small hcell hlen
  obtain ⟨i, hi, heq⟩ := List.mem_map.mp (hnames hfit hsmall ▸ List.mem_map_of_mem hmem)
  rw [hext.arrayIndex? hk] at heq
  have hfilled : c.Filled i.toUInt32.toNat := by
    rw [UInt32.toNat_ofNat_of_lt' (by have := hsmall i hi; omega)]
    exact Cell.mem_present.mp hi
  have hsome := (isSome_synthesized? hc.atoms c name).mpr (.inl ⟨_, heq.symm, hfilled⟩)
  rw [hs] at hsome
  cases hsome

/-- **A listed property that is gone**, or that was not there. -/
theorem Deleted.of_listed (hs : h.synthesized? c name = none) (hcell' : h'.cell? id = some c')
    (hp : c'.payload = c.payload) (ha : h'.atoms = h.atoms) (hx' : h'.shapes.Ordered)
    (hn : h'.names id = (h.names id).filter (· ≠ name))
    (hl : ∀ other, h'.shapes.lookup? c'.shape other =
      if other = name then none else h.shapes.lookup? c.shape other)
    (ho : ∀ other, other ≠ name → h'.shapes.listed? c' other = h.shapes.listed? c other)
    (hfreed : ∀ p, h.shapes.lookup? c.shape name = some p →
      p.offset ∈ (h'.shapes.get c'.shape).freeOffsets ∧ c'.slot p.offset = .undefined) :
    h.Deleted id name h' where
  absent := by
    rw [hasOwnProperty_eq hcell', synthesized?_congr ha hp, hs, hl, if_pos rfl]
    rfl
  others other hne := by
    rw [own?_of_cell hcell', own?_of_cell hcell, property?, property?, synthesized?_congr ha hp, ho other hne]
  names := hn
  keys := by
    have hindices := not_mem_indices hc hcell hk hfit hlen hs
    have henumerates (other : Atom) (hne : other ≠ name) : h'.enumerates id other = h.enumerates id other := by
      simp only [enumerates, hcell', hcell, hl, if_neg hne]
    rw [fst_ownKeys hx' hcell', fst_ownKeys hc.shapes hcell, List.filter_append, hn, Cell.present_congr hp,
      internIndices_congr ha, filter_ne_of_not_mem hindices, List.filter_comm (q := (h.enumerates id))]
    refine congrArg _ (List.filter_congr fun other hmem => henumerates other ?_)
    simpa using (List.mem_filter.mp hmem).2
  length := arrayLength?_congr hcell hcell' hp
  freed d p hd hp := by
    obtain rfl := Option.some.inj (hcell.symm.trans hd)
    exact ⟨c', hcell', hfreed p hp⟩

/-- **A listed property that is removed**. -/
theorem Deleted.removeNamed (hf : h.Fitted) (hs : h.synthesized? c name = none) :
    h.Deleted id name (h.removeNamed id c.shape name) := by
  obtain ⟨c', hcell', hp, ha, hl⟩ := removeNamed_cell hc hcell name
  obtain ⟨d, hd, -, ho⟩ := listed?_removeNamed hf hcell name
  obtain rfl := Option.some.inj (hcell'.symm.trans hd)
  obtain ⟨d, hd, hshape, hslot, -⟩ := slot_removeNamed hf hcell name
  obtain rfl := Option.some.inj (hcell'.symm.trans hd)
  have hlive := hf.housed.live id c hcell
  obtain ⟨hm, -, -, he⟩ := ShapeTable.removeProperty_spec hf.intact.toOrdered hlive name
  have hlays := hf.laid.removeProperty hf.intact.toOrdered hlive name
  refine .of_listed hc hcell hk hfit hlen hs hcell' hp ha hm.grows.ordered (names_removeNamed hf hcell name).1 hl
    ho fun p hlp => ⟨?_, hslot p hlp⟩
  -- the shape has as many slots as before, and none of its properties is in this one
  have hx := hf.intact.indexed c.shape
  obtain ⟨hpm, hpn⟩ := hx.name_of_lookup? hlp
  have hin := (hlays.laid (h.shapes.removeProperty c.shape name).1).filled.mem_iff (a := p.offset)
  rw [List.mem_range, hlays.room, List.mem_append, ← hshape] at hin
  refine (hin.mpr (hf.offset_lt hlp)).resolve_left fun hmem => ?_
  obtain ⟨q, hq, hoffset⟩ := List.mem_map.mp hmem
  rw [hshape, he] at hq
  obtain ⟨hqm, hqn⟩ := hx.mem_remove.mp (Array.mem_toList_iff.mp hq)
  exact hqn ((hf.laid c.shape).eq_of_offset hqm hpm hoffset ▸ hpn)

omit hk in
/-- **An element that becomes a hole**. -/
theorem Deleted.punch (hi : h.atoms.arrayIndex? name = some index) (hfill : c.Filled index.toNat) :
    h.Deleted id name (h.modifyCell id (·.punch index.toNat)) := by
  have hcell' := cell?_punch hcell index.toNat
  have hshape := (c.punch_frame index.toNat).1
  obtain ⟨-, hext, -⟩ := internIndices_spec hc.atoms c.present
  have hfits : h.atoms.Fits := by
    rw [ownKeys_eq hcell] at hfit
    exact hext.fits hfit
  have hnone : h.shapes.lookup? c.shape name = none := hc.single hfits id c name index hcell hi hfill
  have hstill := clearElement_still h id name
  obtain ⟨hothers, hlength⟩ := clearElement_keeps hc.atoms hcell name
  rw [clearElement_eq hi] at hstill hothers hlength
  have hnames : name ∉ h.names id := by
    rw [mem_names hc.shapes hcell, hnone]
    simp
  have hfilter := filter_ne_of_not_mem hnames
  refine ⟨?_, hothers, hstill.names.trans hfilter.symm, ?_, hlength, fun d p hd hp => ?_⟩
  · have habsent : h.synthesized? (c.punch index.toNat) name = none := by
      rw [← Option.not_isSome_iff_eq_none, isSome_synthesized? hc.atoms]
      rintro (⟨i, hi', hfill'⟩ | ⟨hn, -⟩)
      · obtain rfl := Option.some.inj (hi.symm.trans hi')
        exact (Cell.filled_punch.mp hfill').2 rfl
      · cases (arrayIndex?_length hc.atoms hn).symm.trans hi
    rw [hasOwnProperty_eq hcell', hshape]
    exact congrArg₂ (fun a b => Option.isSome a || Option.isSome b) habsent hnone
  · have henumerates (other : Atom) : (h.modifyCell id (·.punch index.toNat)).enumerates id other =
        h.enumerates id other := by
      simp only [enumerates, hcell', hcell, hshape]
      rfl
    have hsmall := present_small hcell hlen
    rw [ownKeys_eq hcell] at hfit
    rw [fst_ownKeys (h := h.modifyCell id _) hc.shapes hcell', fst_ownKeys hc.shapes hcell, hstill.names,
      List.filter_append, Cell.present_punch, List.filter_comm, hfilter]
    have hindices := internIndices_congr (show (h.modifyCell id (·.punch index.toNat)).atoms = h.atoms from rfl)
      (c.present.filter (· ≠ index.toNat))
    refine congrArg₂ (· ++ ·) (hindices.trans ?_) (List.filter_congr fun other _ => henumerates other)
    exact internIndices_filter hc.atoms hi hfit hsmall
  · obtain rfl := Option.some.inj (hcell.symm.trans hd)
    cases hnone.symm.trans hp

end Keys

/-! ### The result -/

/-- **A property that is added** is read as what it was given, whatever was in its slot. -/
theorem own?_added (hf : h.Fitted) (hcell : h.cell? id = some c) (hs : h.synthesized? c name = none)
    (hl : h.shapes.lookup? c.shape name = none) (value : Value) (attributes : Attributes) :
    (leaves (putNamed id name value attributes h)).own? id name = some (value, some attributes) := by
  obtain ⟨c', hcell', hp, hlisted⟩ := listed?_addNamed hf hcell hl value attributes
  rw [putNamed_none hcell hl]
  dsimp only [leaves]
  rw [own?_of_cell hcell', property?_of_none
    ((synthesized?_congr (addNamed_frame h id c.shape name value attributes).2 hp name).trans hs), hlisted,
    if_pos rfl]

/-- **Deleting removes, and removes only that.** In whatever was reached with care, deleting a property of a live
cell does not fail. It is refused exactly for a length and for a property that must stay, and then nothing
changes; else the cell has lost the property and nothing else. No free slot of the cell holds anything, and a
property that is added is read as what it was given: nothing that was deleted comes back. All this holds as long
as numbers of 32 bits tell names and elements apart. -/
theorem deleteProperty_removes (hr : s.Reached Action.Careful) (hcell : s.heap.cell? id = some c)
    (hk : s.heap.atoms.Knows name) (hfit : (s.heap.ownKeys id).2.atoms.Fits)
    (hlen : ∀ length, s.heap.arrayLength? id = some length → length < UInt32.size) :
    (∃ deleted h', deleteProperty id name s.heap = .ok deleted h' ∧
      (deleted = false ↔ s.heap.Undeletable c name) ∧ (deleted = false → h' = s.heap) ∧
      (deleted = true → s.heap.Deleted id name h')) ∧
    (∀ offset ∈ (s.heap.shapes.get c.shape).freeOffsets, c.slot offset = .undefined) ∧
    (s.heap.synthesized? c name = none → s.heap.shapes.lookup? c.shape name = none → ∀ value attributes,
      (leaves (putNamed id name value attributes s.heap)).own? id name = some (value, some attributes)) := by
  obtain ⟨hs, hc⟩ := hr.coherent
  obtain ⟨hf, htidy⟩ := hr.tidy fun _ _ ha => ha.1
  have hfits : s.heap.atoms.Fits := by
    rw [ownKeys_eq hcell] at hfit
    exact (internIndices_spec hc.atoms c.present).2.1.fits hfit
  refine ⟨?_, fun offset hfree => htidy id c hcell offset fun p hp heq => ?_,
    fun hsyn hl value attributes => own?_added hf hcell hsyn hl value attributes⟩
  · rcases deleteProperty_result hc hfits hcell name with ⟨hu, heq⟩ |
      ⟨hu, ⟨index, hi, hfill, heq⟩ | ⟨hsyn, hl, heq⟩ | ⟨hsyn, -, heq⟩⟩
    · exact ⟨false, _, heq, by simp [hu], fun _ => rfl, nofun⟩
    · exact ⟨true, _, heq, by simp [hu], nofun, fun _ => .punch hc hcell hfit hlen hi hfill⟩
    · have hnames : name ∉ s.heap.names id := by
        rw [mem_names hc.shapes hcell, hl]
        simp
      refine ⟨true, _, heq, by simp [hu], nofun, fun _ => .of_listed hc hcell hk hfit hlen hsyn hcell rfl rfl
        hc.shapes (filter_ne_of_not_mem hnames).symm (fun other => ?_) (fun _ _ => rfl) fun p hp => ?_⟩
      · split
        case isTrue h => rw [h, hl]
        case isFalse => rfl
      · cases hl.symm.trans hp
    · exact ⟨true, _, heq, by simp [hu], nofun, fun _ => .removeNamed hc hcell hk hfit hlen hf hsyn⟩
  · -- no property is in a free slot
    exact (List.nodup_append.mp (hf.laid c.shape).nodup).2.2 _
      (List.mem_map_of_mem (Array.mem_toList_iff.mpr hp)) _ hfree heq

/-- The first of two properties is deleted. -/
theorem deleteProperty_removes_paired : ∃ h', deleteProperty ⟨0, 0⟩ ⟨0⟩ paired = .ok true h' ∧
    paired.Deleted ⟨0, 0⟩ ⟨0⟩ h' ∧ h'.names ⟨0, 0⟩ = [⟨1⟩] := by
  obtain ⟨past, s, ht, hs⟩ := passed_paired
  have hcell : (paired.cell? ⟨0, 0⟩).isSome = true := by decide +kernel
  obtain ⟨c, hcell⟩ := Option.isSome_iff_exists.mp hcell
  have hlength : paired.arrayLength? ⟨0, 0⟩ = none := by decide +kernel
  have hfits : (paired.ownKeys ⟨0, 0⟩).2.atoms.entries.size ≤ UInt32.size := by decide +kernel
  have hknown : s.heap.atoms.Knows ⟨0⟩ := by
    rw [hs]
    exact show (0 : Nat) < paired.atoms.entries.size by decide +kernel
  have hnames : paired.names ⟨0, 0⟩ = [⟨0⟩, ⟨1⟩] := by decide +kernel
  obtain ⟨⟨deleted, h', heq, -, -, hdeleted⟩, -, -⟩ := deleteProperty_removes ht.reached (hs ▸ hcell)
    hknown (by rw [hs]; exact hfits) (by rw [hs, hlength]; nofun)
  rw [hs] at heq hdeleted
  have htrue : deleted = true := by
    have hdone : (match deleteProperty ⟨0, 0⟩ ⟨0⟩ paired with | .ok d _ => d | .error _ _ => false) = true := by
      decide +kernel
    rw [heq] at hdone
    exact hdone
  subst htrue
  refine ⟨h', heq, hdeleted rfl, ?_⟩
  rw [(hdeleted rfl).names, hnames]
  rfl

end Heap

end ScriptMachine
