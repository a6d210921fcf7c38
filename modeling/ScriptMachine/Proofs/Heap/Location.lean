import ScriptMachine.Proofs.Heap.Ledger

/-! # Where an array index lives

An array has a filled element for an index, or a property of that name, or neither, but never both.
This is part of coherence (`Heap.Coherent.single`), and everything that is done with care keeps a heap
coherent (`Ledger.Reached.coherent`): a report is not replayed on an array if its name is an index.

Reading an index is therefore reading the property of its name (`Coherent.getIndex?_eq`), and the
names of a cell are listed once each (`Coherent.ownKeys_nodup`). `index_lives_in_one_place` puts the
three together for all heaps that careful actions lead to. -/

namespace ScriptMachine

/-- The indices of the elements of a cell that are present. -/
def Cell.present (c : Cell) : List Nat :=
  match c.elements? with
  | some e => e.items.toList.zipIdx.filterMap fun p => if p.1.isHole then none else some p.2
  | none => []

namespace Heap

variable {h : Heap} {s : Ledger} {a : Action} {id : Handle} {c : Cell} {name : Atom}

/-- **What is done with care**: no report about an index is replayed on an array. -/
def Action.Careful (s : Ledger) (a : Action) : Prop :=
  a.Allowed s ∧ ∀ id r value c, a = .replay id r value → s.heap.cell? id = some c →
    c.kind = .array → s.heap.atoms.arrayIndex? r.name = none

/-! ### Coherent ledgers -/

theorem Coherent.anchor (hc : h.Coherent) (change : Anchoring) : (h.anchor change).Coherent := by
  obtain ⟨hslots, -, hshapes, hatoms⟩ := anchor_frame h change
  exact hc.congr (hc.white.congr hslots) (cell?_congr hslots) hshapes hatoms

/-- Replaying a report with care is a chain of changes. -/
theorem writeSlot_changes {P : Value → Prop} {value : Value} (hP : Storable P) (hv : P value)
    (hc : h.Coherent) (hcell : h.cell? id = some c) {r : Report} (hr : r.Valid h)
    (hs : r.source = c.shape) (hcare : c.kind = .array → h.atoms.arrayIndex? r.name = none) :
    Changes P h (h.writeSlot id r.target r.offset value) := by
  rcases writeSlot_replay hcell hr hs value with ⟨p, -, heq⟩ | ⟨hn, heq⟩
  · rw [heq]
    exact .single (.slot hP hv hc hcell p.offset)
  · rw [heq]
    refine addNamed_changes hP hv hc hcell hn hr.known fun _ index hi hf => ?_
    refine Cell.not_filled (fun hkind => ?_) index.toNat hf
    rw [hcare hkind] at hi
    cases hi

/-- **Whatever is done with care** keeps the heap coherent. -/
theorem Action.coherent (hs : s.Sound) (hc : s.heap.Coherent) (ha : a.Careful s) :
    (a.run s).heap.Coherent := by
  obtain ⟨ha, hcare⟩ := ha
  have hP : Storable fun _ => True := ⟨trivial, trivial⟩
  cases a with
  | intern name => exact (hc.intern name).1
  | rootShape kind prototype => exact (hc.root kind prototype).1
  | allocate shape payload =>
    obtain ⟨hshared, hempty⟩ := origin_spec hs.intact ha
    exact (hc.allocate_on hshared ha.2.2 hempty).1
  | setProperty id name value =>
    rw [Action.run, Ledger.heap_write]
    exact ((setProperty_changes hP trivial hc id ha).coherent hc).1
  | setIndex id index value =>
    rw [Action.run, Ledger.heap_write]
    exact ((setIndex_changes hP trivial hc id index).coherent hc).1
  | setArrayLength id length => exact ((setArrayLength_changes hP hc id length).coherent hc).1
  | defineProperty id name value attributes =>
    exact ((defineProperty_changes hP trivial hc id ha attributes).coherent hc).1
  | deleteProperty id name => exact ((deleteProperty_changes hP hc id name).coherent hc).1
  | setPrototype id prototype =>
    exact (setPrototype_coherent hc id prototype).1
  | replay id r value =>
    obtain ⟨hr, hshape⟩ := ha
    obtain ⟨c, hcell, hsource⟩ := Option.map_eq_some_iff.mp hshape
    exact ((writeSlot_changes hP trivial hc hcell (hs.reports r hr) hsource.symm
      (hcare id r value c rfl hcell)).coherent hc).1
  | setVariable id index value =>
    cases hcell : s.heap.cell? id with
    | none =>
      rw [Action.run, modifyCell_of_none _ hcell]
      exact hc
    | some c => exact ((Change.scope (P := fun _ => True) trivial hc hcell index).coherent hc).1
  | anchor change => exact hc.anchor change
  | collect values words => exact hc.collect values words

/-- **The ledgers that careful actions lead to** are sound and their heaps coherent. -/
theorem Ledger.Reached.coherent (hr : s.Reached Action.Careful) : s.Sound ∧ s.heap.Coherent := by
  induction hr with
  | new limits =>
    have hr : Ledger.Reached Action.Allowed { heap := .new limits } := .new limits
    exact ⟨hr.sound fun _ _ h => h, coherent_new limits⟩
  | step _ ha ih => exact ⟨ih.1.run ha.1, Action.coherent ih.1 ih.2 ha⟩

/-! ### Reading an index -/

theorem denseElement?_spec {index : UInt32} {value : Value}
    (hd : h.denseElement? id index = some value) : ∃ c e, h.cell? id = some c ∧
      c.payload = .array e ∧ e.items[index.toNat]? = some value ∧ value.isHole = false := by
  unfold denseElement? at hd
  split at hd
  case h_2 => cases hd
  case h_1 c hcell =>
    split at hd
    case h_2 => cases hd
    case h_1 e hp =>
      split at hd
      case h_2 => cases hd
      case h_1 v hitem =>
        split at hd
        case isTrue => cases hd
        case isFalse hh =>
          cases hd
          exact ⟨c, e, hcell, hp, hitem, by simpa using hh⟩

/-- **Reading an index is reading the property of its name.** The largest number of 32 bits is the
length of an array but no index of one. -/
theorem Coherent.getIndex?_eq (hc : h.Coherent) (id : Handle) {index : UInt32}
    (hfit : (h.internIndex index).2.atoms.Fits)
    (hlen : index.toNat + 1 = UInt32.size → ∀ length, h.arrayLength? id = some length →
      length < UInt32.size) :
    (h.getIndex? id index).1 =
      (h.internIndex index).2.getProperty? id (h.internIndex index).1 := by
  unfold getIndex?
  cases hd : h.denseElement? id index with
  | none => rfl
  | some value =>
    obtain ⟨c, e, hcell, hp, hitem, hh⟩ := denseElement?_spec hd
    have hlt : index.toNat < UInt32.size - 1 := by
      have hsmall := index.toNat_lt_size
      have hinside := (Array.getElem?_eq_some_iff.mp hitem).1
      by_contra hlast
      have := hlen (by omega) e.items.size (by simp only [arrayLength?, hcell, Cell.elements?, hp]; rfl)
      omega
    have hindex : (h.internIndex index).2.atoms.arrayIndex? (h.internIndex index).1 = some index :=
      (AtomTable.arrayIndex?_intern hc.atoms hfit).trans (arrayIndexOf?_indexName hlt)
    have hcell' : (h.internIndex index).2.cell? id = some c := hcell
    simp only [getProperty?, lookupProperty?, hcell', synthesized?, hp, hindex, hitem, hh,
      Bool.false_eq_true, if_false, Option.map_some, PropertyLookup.value]

/-! ### The names of a cell -/

/-- **The atoms of some indices** name them. -/
theorem internIndices_spec (ho : h.atoms.Ordered) (indices : List Nat) :
    (h.internIndices indices).2.atoms.Ordered ∧ (h.internIndices indices).2.atoms.Extends h.atoms ∧
      ((h.internIndices indices).2.atoms.Fits → (∀ i ∈ indices, i < UInt32.size - 1) →
        (h.internIndices indices).1.map (h.internIndices indices).2.atoms.arrayIndex? =
          indices.map fun i => some i.toUInt32) := by
  induction indices generalizing h with
  | nil => exact ⟨ho, .refl _, fun _ _ => rfl⟩
  | cons i rest ih =>
    obtain ⟨ho', hext, -⟩ := AtomTable.intern_spec ho (indexName i.toUInt32)
    have hknows := AtomTable.knows_intern ho (indexName i.toUInt32)
    obtain ⟨ho'', hext', hrest⟩ := ih (h := (h.internIndex i.toUInt32).2) ho'
    refine ⟨ho'', hext'.trans hext, fun hfit hsmall => ?_⟩
    have hi := hsmall i (List.mem_cons_self ..)
    have hsame : i.toUInt32.toNat = i := UInt32.toNat_ofNat_of_lt' (by omega)
    have hfirst : (h.internIndices (i :: rest)).2.atoms.arrayIndex? (h.internIndex i.toUInt32).1 =
        some i.toUInt32 :=
      (hext'.arrayIndex? hknows).trans ((AtomTable.arrayIndex?_intern ho (hext'.fits hfit)).trans
        (arrayIndexOf?_indexName (by rw [hsame]; exact hi)))
    exact congrArg₂ List.cons hfirst
      (hrest hfit fun j hj => hsmall j (List.mem_cons_of_mem _ hj))

/-- What is picked from a list without repetitions has none. -/
theorem nodup_filterMap {α β : Type} {l : List α} {f : α → Option β} {g : α → β}
    (hf : ∀ a b, f a = some b → b = g a) (hn : (l.map g).Nodup) : (l.filterMap f).Nodup := by
  rw [List.Nodup, List.pairwise_filterMap]
  refine (List.pairwise_map.mp hn).imp fun hne b hb b' hb' => ?_
  rw [hf _ _ hb, hf _ _ hb']
  exact hne

theorem present_spec (c : Cell) : c.present.Nodup ∧
    ∀ i ∈ c.present, ∃ e, c.elements? = some e ∧ i < e.items.size ∧ c.Filled i := by
  unfold Cell.present
  cases he : c.elements? with
  | none => exact ⟨List.nodup_nil, nofun⟩
  | some e =>
    have hp : c.payload = .array e := by
      unfold Cell.elements? at he
      split at he <;> cases he
      assumption
    refine ⟨nodup_filterMap (g := Prod.snd) (fun p b hb => ?_) ?_, fun i hi => ?_⟩
    · simp only [Option.ite_none_left_eq_some, Option.some.injEq] at hb
      exact hb.2.symm
    · rw [List.zipIdx_map_snd]
      exact List.nodup_range'
    · obtain ⟨⟨v, j⟩, hmem, hv⟩ := List.mem_filterMap.mp hi
      simp only [Option.ite_none_left_eq_some, Option.some.injEq] at hv
      obtain ⟨hh, rfl⟩ := hv
      have hitem : e.items[j]? = some v := by simpa using List.mem_zipIdx_iff_getElem?.mp hmem
      exact ⟨e, rfl, (Array.getElem?_eq_some_iff.mp hitem).1, e, v, hp, hitem, by simpa using hh⟩

/-- The indices of an array that is not too long are array indices. -/
theorem present_small (hcell : h.cell? id = some c)
    (hlen : ∀ length, h.arrayLength? id = some length → length < UInt32.size) (i : Nat) (hi : i ∈ c.present) :
    i < UInt32.size - 1 := by
  obtain ⟨e, he, hlt, -⟩ := (present_spec c).2 i hi
  have := hlen e.items.size (by simp only [arrayLength?, hcell, he]; rfl)
  omega

theorem ownKeys_eq (hcell : h.cell? id = some c) :
    h.ownKeys id = ((h.internIndices c.present).1 ++
      (h.shapes.get c.shape).properties.toList.filterMap fun p =>
        if p.attributes.dontEnum then none else some p.name, (h.internIndices c.present).2) := by
  unfold ownKeys Cell.present
  generalize h.cell? id = found at hcell ⊢
  subst hcell
  rfl

/-- **No name of a cell is listed twice**, if its array is no longer than there are indices. -/
theorem Coherent.ownKeys_nodup (hc : h.Coherent) (hi : h.shapes.Intact) (id : Handle)
    (hfit : (h.ownKeys id).2.atoms.Fits)
    (hlen : ∀ length, h.arrayLength? id = some length → length < UInt32.size) :
    (h.ownKeys id).1.Nodup := by
  cases hcell : h.cell? id with
  | none =>
    simp only [ownKeys, hcell]
    exact List.nodup_nil
  | some c =>
    obtain ⟨hdistinct, hpresent⟩ := present_spec c
    have hsmall := present_small hcell hlen
    rw [ownKeys_eq hcell] at hfit ⊢
    obtain ⟨-, hext, hnames⟩ := internIndices_spec hc.atoms c.present
    have hindex := hnames hfit hsmall
    have hindices : (h.internIndices c.present).1.Nodup := by
      refine List.Nodup.of_map (h.internIndices c.present).2.atoms.arrayIndex? ?_
      rw [hindex]
      refine hdistinct.map_on fun i hi j hj hij => ?_
      have hsame := congrArg UInt32.toNat (Option.some.inj hij)
      rwa [UInt32.toNat_ofNat_of_lt' (by have := hsmall i hi; omega),
        UInt32.toNat_ofNat_of_lt' (by have := hsmall j hj; omega)] at hsame
    refine List.nodup_append.mpr ⟨hindices, ?_, ?_⟩
    · refine nodup_filterMap (fun p name hp => ?_) (hi.derived c.shape (hc.live id c hcell)).distinct
      simp only [Option.ite_none_left_eq_some, Option.some.injEq] at hp
      exact hp.2.symm
    · rintro atom hatom _ hname rfl
      obtain ⟨p, hmem, hp⟩ := List.mem_filterMap.mp hname
      simp only [Option.ite_none_left_eq_some, Option.some.injEq] at hp
      obtain ⟨-, rfl⟩ := hp
      -- the name of the property is the one of a filled element
      obtain ⟨i, hi, heq⟩ := List.mem_map.mp (hindex ▸ List.mem_map_of_mem hatom)
      rw [hext.arrayIndex? (hc.named id c p hcell (Array.mem_toList_iff.mp hmem))] at heq
      obtain ⟨-, -, -, hfilled⟩ := hpresent i hi
      refine (hc.shapes.indexed _).lookup?_eq_none.mp
        (hc.single (hext.fits hfit) id c p.name _ hcell heq.symm ?_)
        p (Array.mem_toList_iff.mp hmem) rfl
      rwa [UInt32.toNat_ofNat_of_lt' (by have := hsmall i hi; omega)]

/-- **Nor is an index.** -/
theorem Coherent.ownKeys_indices (hc : h.Coherent) (id : Handle) (hn : (h.ownKeys id).1.Nodup) :
    ((h.ownKeys id).1.filterMap (h.ownKeys id).2.atoms.arrayIndex?).Nodup := by
  have ho : (h.ownKeys id).2.atoms.Ordered := by
    cases hcell : h.cell? id with
    | none =>
      simp only [ownKeys, hcell]
      exact hc.atoms
    | some c =>
      rw [ownKeys_eq hcell]
      exact (internIndices_spec hc.atoms c.present).1
  refine hn.filterMap fun name other index hi hi' => ?_
  have hname := AtomTable.get?_indexName ho hi
  exact Option.some.inj (hname.symm.trans (AtomTable.get?_indexName ho hi'))

/-- **An array index lives in one place.** A cell that has a filled element has no property whose
name is the index of the element. So an index reads as the property of its name, and no index is
listed twice. All this holds as long as numbers of 32 bits tell names and elements apart. -/
theorem index_lives_in_one_place (hr : s.Reached Action.Careful) :
    (s.heap.atoms.Fits → ∀ id c name index, s.heap.cell? id = some c → c.Filled index.toNat →
      s.heap.atoms.arrayIndex? name = some index → s.heap.shapes.lookup? c.shape name = none) ∧
    (∀ id index, (s.heap.internIndex index).2.atoms.Fits →
      (index.toNat + 1 = UInt32.size → ∀ length, s.heap.arrayLength? id = some length →
        length < UInt32.size) →
      (s.heap.getIndex? id index).1 =
        (s.heap.internIndex index).2.getProperty? id (s.heap.internIndex index).1) ∧
    ∀ id, (s.heap.ownKeys id).2.atoms.Fits →
      (∀ length, s.heap.arrayLength? id = some length → length < UInt32.size) →
      (s.heap.ownKeys id).1.Nodup ∧
        ((s.heap.ownKeys id).1.filterMap (s.heap.ownKeys id).2.atoms.arrayIndex?).Nodup := by
  obtain ⟨hs, hc⟩ := hr.coherent
  refine ⟨fun hfit id c name index hcell hf hi => hc.single hfit id c name index hcell hi hf,
    fun id index hfit hlen => hc.getIndex?_eq id hfit hlen, fun id hfit hlen => ?_⟩
  have hn := hc.ownKeys_nodup hs.intact id hfit hlen
  exact ⟨hn, hc.ownKeys_indices id hn⟩

/-- An array with one element. -/
def row : Ledger :=
  (Action.allocate ⟨0⟩ (.array ⟨#[.null], 1⟩)).run
    ((Action.rootShape .array .null).run { heap := .new {} })

theorem row_reached : row.Reached Action.Careful := by
  have horigin : ((Heap.new {}).rootShape .array .null).2.shapes.Origin
      (Payload.array ⟨#[.null], 1⟩).kind ⟨0⟩ := by
    rw [rooted_heap]
    exact ⟨rfl, rfl, rfl⟩
  exact .step (.step (.new {}) ⟨trivial, nofun⟩) ⟨horigin, nofun⟩

/-- The element of the array is the property of its name. -/
theorem index_lives_in_one_place_row :
    (∃ c, row.heap.cell? ⟨0, 0⟩ = some c ∧ c.Filled 0) ∧
    row.heap.getIndex? ⟨0, 0⟩ 0 = (some .null, row.heap) ∧
    (row.heap.internIndex 0).2.getProperty? ⟨0, 0⟩ (row.heap.internIndex 0).1 = some .null := by
  obtain ⟨c, hcell, hf, hread, hatoms⟩ : ∃ c, row.heap.cell? ⟨0, 0⟩ = some c ∧ c.Filled 0 ∧
      row.heap.getIndex? ⟨0, 0⟩ 0 = (some .null, row.heap) ∧ row.heap.atoms = {} := by
    simp only [row, Action.run, rooted_heap]
    exact ⟨_, rfl, ⟨_, _, rfl, rfl, rfl⟩, rfl, rfl⟩
  have hfit : (row.heap.internIndex 0).2.atoms.Fits := by
    simp [internIndex, intern, AtomTable.intern, AtomTable.Fits, hatoms]
  refine ⟨⟨c, hcell, hf⟩, hread, ?_⟩
  rw [← (index_lives_in_one_place row_reached).2.1 ⟨0, 0⟩ 0 hfit (by decide), hread]

end Heap

end ScriptMachine
