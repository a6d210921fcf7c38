import ScriptMachine.Proofs.Heap.Budget
import ScriptMachine.Proofs.Heap.Location

/-! # Heaps that differ in names

Interning a text changes the table of names and nothing else, and few operations look at that table
(`Heap.Nameless`): neither a collection (`Heap.collect_withAtoms`), nor a write of a named property or of
an element. So reading an index, or writing to it, is the same before its name is interned and after
(`Heap.getIndex?_naming`, `Heap.setIndex_naming`), and where the name has been interned it is reading the
name, or writing to it (`Heap.setProperty_index`).

A handle to a name is a number, and a host may make one up. Under such a name a cell can have a property
before the name is interned, which a write to the index does not find. `Heap.Vouches` says that there is
none, as in all coherent heaps. -/

namespace ScriptMachine

/-- What an action ends in, taken to another state. -/
def endingIn {ε σ α : Type} (f : σ → σ) : EStateM.Result ε σ α → EStateM.Result ε σ α
  | .ok a s => .ok a (f s)
  | .error e s => .error e (f s)

namespace Heap

variable {h : Heap} {id : Handle} {c : Cell} {t : AtomTable} {text : String}

/-- The heap with another table of names. -/
def withAtoms (h : Heap) (t : AtomTable) : Heap := { h with atoms := t }

/-- The heap after a text was interned. -/
def naming (h : Heap) (text : String) : Heap := (h.intern text).2

theorem naming_eq (h : Heap) (text : String) :
    h.naming text = h.withAtoms (h.atoms.intern text).2 := rfl

/-- A text that has been interned is interned once. -/
theorem naming_of_get? {a : Atom} (ha : h.atoms.get? text = some a) :
    h.intern text = (a, h) ∧ h.naming text = h := by
  have hintern : h.atoms.intern text = (a, h.atoms) := by
    unfold AtomTable.intern
    rw [show h.atoms.lookup[text]? = some a from ha]
  have heq : h.intern text = (a, h) := by rw [intern, hintern]
  exact ⟨heq, congrArg Prod.snd heq⟩

/-- A text that was interned stays so. -/
theorem intern_naming (ho : h.atoms.Ordered) (text : String) :
    (h.naming text).intern text = h.intern text ∧ (h.naming text).naming text = h.naming text := by
  have hget : (h.naming text).atoms.get? text = some (h.intern text).1 :=
    (AtomTable.intern_spec ho text).2.2
  exact naming_of_get? hget

/-! ### Collections -/

theorem shade_withAtoms (s : Heap × List Handle) (v : Value) :
    shade (s.1.withAtoms t, s.2) v = ((shade s v).1.withAtoms t, (shade s v).2) := by
  unfold shade
  cases v.cell? with
  | none => rfl
  | some id =>
    have hwhite : (s.1.withAtoms t).isWhite id = s.1.isWhite id := rfl
    dsimp only
    rw [hwhite]
    split <;> rfl

theorem foldl_shade_withAtoms (values : List Value) (s : Heap × List Handle) :
    values.foldl shade (s.1.withAtoms t, s.2) =
      ((values.foldl shade s).1.withAtoms t, (values.foldl shade s).2) := by
  induction values generalizing s with
  | nil => rfl
  | cons v values ih => rw [List.foldl_cons, shade_withAtoms, ih, List.foldl_cons]

theorem drain_withAtoms (fuel : Nat) (s : Heap × List Handle) :
    drain fuel (s.1.withAtoms t, s.2) = (drain fuel s).withAtoms t := by
  induction fuel generalizing s with
  | zero => rfl
  | succ fuel ih =>
    obtain ⟨h, worklist⟩ := s
    cases worklist with
    | nil => rfl
    | cons id worklist =>
      have hstep (values : List Value) :=
        foldl_shade_withAtoms (t := t) values (h.setColor id.index .black, worklist)
      exact (congrArg (drain fuel) (hstep _)).trans (ih _)

theorem mark_withAtoms (h : Heap) (values : List Value) :
    (h.withAtoms t).mark values = (h.mark values).withAtoms t :=
  (congrArg (drain h.slots.size) (foldl_shade_withAtoms values (h, []))).trans
    (drain_withAtoms h.slots.size _)

/-- The sweep of a heap with other names. -/
def Sweep.withAtoms (s : Sweep) (t : AtomTable) : Sweep := { s with heap := s.heap.withAtoms t }

theorem sweepSlot_withAtoms (s : Sweep) (index : Nat) :
    sweepSlot (s.withAtoms t) index = (sweepSlot s index).withAtoms t := by
  unfold sweepSlot
  have hslot : (s.withAtoms t).heap.slots[index]? = s.heap.slots[index]? := rfl
  rw [hslot]
  cases s.heap.slots[index]? with
  | none => rfl
  | some slot =>
    dsimp only
    cases slot.cell with
    | none => rfl
    | some cell =>
      dsimp only
      split <;> rfl

theorem sweepTo_withAtoms (h : Heap) (k : Nat) :
    (h.withAtoms t).sweepTo k = (h.sweepTo k).withAtoms t := by
  induction k with
  | zero => rfl
  | succ k ih => rw [sweepTo_succ, sweepTo_succ, ih, sweepSlot_withAtoms]

theorem sweep_withAtoms (h : Heap) :
    (h.withAtoms t).sweep = (h.sweep.1, h.sweep.2.withAtoms t) := by
  have hslots : (h.withAtoms t).slots.size = h.slots.size := rfl
  have hsweep := sweepTo_withAtoms (t := t) h h.slots.size
  simp only [sweepTo] at hsweep
  simp only [sweep, hslots, hsweep]
  rfl

/-- **A collection does not look at names.** -/
theorem collect_withAtoms (h : Heap) (values : List Value) (words : List UInt64) :
    (h.withAtoms t).collect values words =
      ((h.collect values words).1, (h.collect values words).2.withAtoms t) := by
  have hroots : (h.withAtoms t).allRoots values words = h.allRoots values words := rfl
  simp only [collect, hroots, mark_withAtoms, sweep_withAtoms]
  rfl

/-! ### Writes -/

/-- **What the cell has under the atom** was put there under a name that has been interned. -/
def Vouches (h : Heap) (id : Handle) (name : Atom) : Prop :=
  ∀ c, h.cell? id = some c → (h.shapes.lookup? c.shape name).isSome = true → h.atoms.Knows name

theorem Coherent.vouches (hc : h.Coherent) (id : Handle) (name : Atom) : h.Vouches id name := by
  intro c hcell hsome
  obtain ⟨p, hp⟩ := Option.isSome_iff_exists.mp hsome
  obtain ⟨hmem, rfl⟩ := (hc.shapes.indexed _).name_of_lookup? hp
  exact hc.named id c p hcell hmem

theorem Vouches.collect {name : Atom} (hv : h.Vouches id name) (values : List Value)
    (words : List UInt64) : (h.collect values words).2.Vouches id name := by
  obtain ⟨hatoms, -, -, -, hkeep⟩ := collect_keeps h values words
  intro c hcell hsome
  obtain ⟨hcell, hshape⟩ := hkeep id c hcell
  rw [hatoms]
  refine hv c hcell ?_
  rwa [ShapeTable.lookup?, hshape] at hsome

/-- The action does not look at names. -/
def Nameless {α : Type} (x : HeapM α) : Prop :=
  ∀ h t, x (h.withAtoms t) = endingIn (·.withAtoms t) (x h)

namespace Nameless

variable {α β : Type} {x : HeapM α}

theorem pure (a : α) : Nameless (pure a : HeapM α) := fun _ _ => rfl

theorem bind {g : α → HeapM β} (hx : Nameless x) (hg : ∀ a, Nameless (g a)) : Nameless (x >>= g) := by
  intro h t
  simp only [Bind.bind, EStateM.bind, hx h t]
  cases x h with
  | ok a h' => exact hg a h' t
  | error fault h' => rfl

/-- Looking at the rest of the heap. -/
theorem look {g : Heap → HeapM β} (hg : ∀ k, Nameless (g k)) (hsame : ∀ k t, g (k.withAtoms t) = g k) :
    Nameless (get >>= g) := by
  intro h t
  change g (h.withAtoms t) (h.withAtoms t) = _
  rw [hsame]
  exact hg h h t

theorem modifyGet {f : Heap → α × Heap} (hf : ∀ k t, f (k.withAtoms t) = ((f k).1, (f k).2.withAtoms t)) :
    Nameless (modifyGet f : HeapM α) := by
  intro h t
  rw [modifyGet_apply, modifyGet_apply, hf]
  rfl

theorem modify {f : Heap → Heap} (hf : ∀ k t, f (k.withAtoms t) = (f k).withAtoms t) :
    Nameless (modify f : HeapM Unit) := by
  intro h t
  rw [modify_apply, modify_apply, hf]
  rfl

theorem requireCell (id : Handle) : Nameless (requireCell id) :=
  look (fun k => by cases k.cell? id <;> exact fun _ _ => rfl) fun _ _ => rfl

theorem reserveBytes (n : Nat) : Nameless (reserveBytes n) :=
  look (fun k => by split <;> exact fun _ _ => rfl) fun _ _ => rfl

end Nameless

theorem refreshFootprint_withAtoms (h : Heap) (id : Handle) :
    (h.withAtoms t).refreshFootprint id = (h.refreshFootprint id).withAtoms t := by
  unfold refreshFootprint
  have hslot : (h.withAtoms t).slots[id.index.toNat]? = h.slots[id.index.toNat]? := rfl
  rw [hslot]
  cases h.slots[id.index.toNat]? with
  | none => rfl
  | some slot =>
    dsimp only
    split
    · cases slot.cell <;> rfl
    · rfl

/-- A change of a cell, after which its bytes are counted again. -/
theorem refreshed_withAtoms (h : Heap) (id : Handle) (f : Cell → Cell) :
    ((h.withAtoms t).modifyCell id f).refreshFootprint id =
      ((h.modifyCell id f).refreshFootprint id).withAtoms t :=
  refreshFootprint_withAtoms (h.modifyCell id f) id

/-- **Writing a named property.** -/
theorem nameless_putNamed (id : Handle) (name : Atom) (value : Value) (attributes : Attributes) :
    Nameless (putNamed id name value attributes) := by
  refine .bind (.requireCell id) fun c => .look (fun k => ?_) fun _ _ => rfl
  split
  · split
    · exact .pure _
    · exact .bind (.modify fun _ _ => rfl) fun _ => .pure _
  · refine .bind (.modifyGet fun _ _ => rfl) fun added => ?_
    exact .bind (.modify fun k t => refreshed_withAtoms k id _) fun _ => .pure _

/-- **Writing an element.** -/
theorem nameless_putElement (id : Handle) (position length capacity : Nat) (named : Option Property)
    (value : Value) : Nameless (putElement id position length capacity named value) := by
  have hstore (room : Nat) : Nameless (do
      if position < length then
        modify (·.modifyCell id (Cell.mapElements fun e =>
          { e with items := e.items.setIfInBounds position value }))
      else
        modify fun h => (h.modifyCell id (Cell.mapElements fun e =>
          { items := e.items.push value, capacity := room })).refreshFootprint id
      return PutOutcome.element) := by
    dsimp only
    split
    · exact .bind (.modify fun _ _ => rfl) fun _ => .pure _
    · exact .bind (.modify fun k t => refreshed_withAtoms k id _) fun _ => .pure _
  have hdrop {x : HeapM PutOutcome} (hx : Nameless x) (property : Property) :
      Nameless (requireCell id >>= fun c =>
        modify (·.removeNamed id c.shape property.name) >>= fun _ => x) :=
    .bind (.requireCell id) fun c => .bind (.modify fun _ _ => rfl) fun _ => hx
  unfold putElement
  dsimp only
  split
  · refine .bind (.reserveBytes _) fun _ => ?_
    cases named with
    | some property => exact hdrop (hstore _) property
    | none => exact hstore _
  · cases named with
    | some property => exact hdrop (hstore _) property
    | none => exact hstore _

/-! ### Writing to an index -/

/-- Interning a text changes nothing else. -/
theorem Nameless.naming {α : Type} {x : HeapM α} (hx : Nameless x) (text : String) :
    x (h.naming text) = endingIn (·.naming text) (x h) := by
  -- the action leaves the names of the heap as they are
  have hkeep := hx h h.atoms
  rw [naming_eq, hx]
  change x h = _ at hkeep
  cases hrun : x h with
  | ok a k =>
    rw [hrun] at hkeep
    have hk : k = k.withAtoms h.atoms := (EStateM.Result.ok.inj hkeep).2
    rw [hk]
    rfl
  | error fault k =>
    rw [hrun] at hkeep
    have hk : k = k.withAtoms h.atoms := (EStateM.Result.error.inj hkeep).2
    rw [hk]
    rfl

/-- A name that is new was not interned. -/
theorem not_knows_intern (hnew : h.atoms.get? text = none) (hfit : (h.intern text).2.atoms.Fits) :
    ¬h.atoms.Knows (h.intern text).1 := by
  have hintern : h.atoms.intern text = (⟨h.atoms.entries.size.toUInt32⟩,
      { entries := h.atoms.entries.push ⟨text, arrayIndexOf? text⟩
        lookup := h.atoms.lookup.insert text ⟨h.atoms.entries.size.toUInt32⟩ }) := by
    unfold AtomTable.intern
    rw [show h.atoms.lookup[text]? = none from hnew]
  have hlt : h.atoms.entries.size < UInt32.size := by
    change (h.atoms.intern text).2.Fits at hfit
    rw [hintern, AtomTable.Fits, Array.size_push] at hfit
    exact hfit
  change ¬(h.atoms.intern text).1.index.toNat < _
  rw [hintern]
  exact Nat.not_lt_of_le (Nat.le_of_eq (UInt32.toNat_ofNat_of_lt' hlt).symm)

/-- A filled element is written among the elements. -/
theorem setIndex_filled (hcell : h.cell? id = some c) {e : Elements} (hp : c.payload = .array e)
    {index : UInt32} (hfill : c.Filled index.toNat) (value : Value) : setIndex id index value h =
      putElement id index.toNat e.items.size e.capacity none value h := by
  obtain ⟨e', v, he, hitem, hh⟩ := hfill
  obtain rfl := Payload.array.inj (hp.symm.trans he)
  have hpast : ¬index.toNat > e.items.size := by
    have := (Array.getElem?_eq_some_iff.mp hitem).1
    omega
  simp only [setIndex, bind, EStateM.bind, requireCell_some hcell, hp, hpast, if_false, hitem, hh, get_apply,
    Bool.not_false, if_true]

/-- A property of an index is found by its name, before it is interned and after. -/
theorem namedIndex?_naming (ho : h.atoms.Ordered) (index : UInt32)
    (hv : h.Vouches id (h.internIndex index).1) (hfit : (h.internIndex index).2.atoms.Fits) :
    (h.naming (indexName index)).namedIndex? id index = h.namedIndex? id index := by
  cases hget : h.atoms.get? (indexName index) with
  | some a => rw [(naming_of_get? hget).2]
  | none =>
    have hfound : (h.naming (indexName index)).atoms.get? (indexName index) =
      some (h.internIndex index).1 := (AtomTable.intern_spec ho _).2.2
    have hcell : (h.naming (indexName index)).cell? id = h.cell? id := rfl
    simp only [namedIndex?, hget, hfound, hcell]
    cases hc : h.cell? id with
    | none => rfl
    | some c =>
      rw [← Option.not_isSome_iff_eq_none]
      exact fun hsome => not_knows_intern hget hfit (hv c hc hsome)

/-- **A write to an index** is the write in the heap where its name has been interned. -/
theorem setIndex_naming {index : UInt32} (ho : h.atoms.Ordered) (hindex : arrayIndexOf? text = some index)
    (value : Value) (hv : h.Vouches id (h.intern text).1) (hfit : (h.intern text).2.atoms.Fits) :
    setIndex id index value (h.naming text) =
      endingIn (·.naming text) (setIndex id index value h) := by
  obtain rfl := eq_indexName hindex
  have hagain : (h.internIndex index).2.internIndex index = h.internIndex index :=
    (intern_naming ho _).1
  -- a named write happens in the same heap
  have hbyName : putNamed id ((h.naming (indexName index)).internIndex index).1 value .none
        ((h.naming (indexName index)).internIndex index).2 =
      endingIn (·.naming (indexName index))
        (putNamed id (h.internIndex index).1 value .none (h.internIndex index).2) := by
    rw [← (nameless_putNamed id (h.internIndex index).1 value .none).naming]
    change putNamed id ((h.internIndex index).2.internIndex index).1 value .none
      ((h.internIndex index).2.internIndex index).2 = putNamed id (h.internIndex index).1 value .none
      ((h.internIndex index).2.internIndex index).2
    rw [hagain]
  cases hcell : h.cell? id with
  | none =>
    have hcell' : (h.naming (indexName index)).cell? id = none := hcell
    simp only [setIndex, bind, EStateM.bind, requireCell_none hcell, requireCell_none hcell']
    rfl
  | some c =>
    have hcell' : (h.naming (indexName index)).cell? id = some c := hcell
    cases hp : c.payload with
    | array e =>
      by_cases hpast : e.items.size < index.toNat
      · rw [setIndex_past hcell hp hpast, setIndex_past hcell' hp hpast, hbyName]
      · have hle := Nat.le_of_not_lt hpast
        by_cases hfill : c.Filled index.toNat
        · rw [setIndex_filled hcell hp hfill, setIndex_filled hcell' hp hfill]
          exact (nameless_putElement _ _ _ _ _ _).naming _
        · rw [setIndex_unfilled hcell hp hle hfill, setIndex_unfilled hcell' hp hle hfill,
            namedIndex?_naming ho index hv hfit]
          refine Nameless.naming ?_ _
          split
          · split
            · exact nameless_putElement _ _ _ _ _ _
            · exact nameless_putNamed _ _ _ _
          · exact nameless_putElement _ _ _ _ _ _
    | string text =>
      simp only [setIndex, bind, EStateM.bind, requireCell_some hcell, requireCell_some hcell', hp]
      rfl
    | plain | function _ | activation _ =>
      simp only [setIndex, bind, EStateM.bind, requireCell_some hcell, requireCell_some hcell', hp]
      exact hbyName

/-- **A write to the name of an index** is a write to the index, unless the cell is a string. -/
theorem setProperty_index {name : Atom} {index : UInt32} (ho : h.atoms.Ordered)
    (hindex : h.atoms.arrayIndex? name = some index)
    (hkind : ∀ c, h.cell? id = some c → c.kind ≠ .string) (value : Value) :
    setProperty id name value h = setIndex id index value h := by
  cases hcell : h.cell? id with
  | none => simp only [setProperty, setIndex, bind, EStateM.bind, requireCell_none hcell]
  | some c =>
    have hname : h.internIndex index = (name, h) :=
      (naming_of_get? (AtomTable.get?_indexName ho hindex)).1
    have hstring := hkind c hcell
    cases hp : c.payload with
    | array e =>
      simp only [setProperty, bind, EStateM.bind, requireCell_some hcell, get_apply, Cell.kind, hp,
        Payload.kind, hindex]
    | string text => exact absurd (congrArg Payload.kind hp) hstring
    | plain | function _ | activation _ =>
      simp only [setProperty, setIndex, bind, EStateM.bind, requireCell_some hcell, get_apply, Cell.kind,
        hp, Payload.kind, modifyGet_apply, hname]

/-! ### Reading an index -/

/-- **Reading an index** is reading its name, where the name has been interned. -/
theorem getIndex?_naming {index : UInt32} (ho : h.atoms.Ordered) (hindex : arrayIndexOf? text = some index)
    (hfit : (h.intern text).2.atoms.Fits) :
    (h.getIndex? id index).1 = (h.naming text).getProperty? id (h.intern text).1 ∧
      (h.getIndex? id index).2.naming text = h.naming text := by
  have harray : (h.naming text).atoms.arrayIndex? (h.intern text).1 = some index :=
    (AtomTable.arrayIndex?_intern ho hfit).trans hindex
  obtain rfl := eq_indexName hindex
  unfold getIndex?
  cases hdense : h.denseElement? id index with
  | none => exact ⟨rfl, (intern_naming ho _).2⟩
  | some value =>
    refine ⟨?_, rfl⟩
    obtain ⟨c, e, hcell, hp, hitem, hhole⟩ := denseElement?_spec hdense
    have hcell' : (h.naming (indexName index)).cell? id = some c := hcell
    simp only [getProperty?, lookupProperty?, hcell', synthesized?, hp, harray, hitem, hhole,
      Bool.false_eq_true, if_false, Option.map_some, PropertyLookup.value]

end Heap

end ScriptMachine
