import ScriptMachine.Proofs.Heap.Deletion

/-! # Defining properties

Defining a property of a live cell does not fail (`defineProperty_ok`). Whatever the cell had under the name, an
element, which has become a hole, or a property with other attributes, or nothing, it has the value and the
attributes there afterwards, and what it has under other names stays.

Only the length of an array or of a string cannot be defined: a lookup finds it before what a shape lists under
its name, so it is read as before.

The main statement is `defineProperty_defines`. -/

namespace ScriptMachine.Heap

variable {h h' : Heap} {s : Ledger} {id : Handle} {c c' : Cell} {name other : Atom} {value : Value}
  {p : Property} {attributes : Attributes}

/-! ### What is listed -/

/-- A property that gets other attributes, and a value, leaves the others where they are. -/
theorem listed?_redefine (hf : h.Fitted) (hcell : h.cell? id = some c)
    (hl : h.shapes.lookup? c.shape name = some p) (value : Value) (attributes : Attributes) (other : Atom) :
    (h.shapes.changeAttributes c.shape name attributes).2.listed?
      { c.setSlot p.offset value with shape := (h.shapes.changeAttributes c.shape name attributes).1 } other =
        if other = name then some (value, some attributes) else h.shapes.listed? c other := by
  obtain ⟨hm, -, he⟩ :=
    ShapeTable.changeAttributes_spec hf.intact.toOrdered (hf.housed.live id c hcell) name attributes
  have hx := hf.intact.indexed c.shape
  have hlookup : (h.shapes.changeAttributes c.shape name attributes).2.lookup?
      (h.shapes.changeAttributes c.shape name attributes).1 other =
        ((h.shapes.get c.shape).setAttributes name attributes).lookup? other :=
    congrFun ((hx.setAttributes name attributes).lookup?_congr (hm.grows.ordered.indexed _) he) other
  have hwritten := listed?_setSlot hf hl value other
  simp only [ShapeTable.listed?, (c.setSlot_frame p.offset value).1] at hwritten ⊢
  rw [hlookup, hx.lookup?_setAttributes, Option.map_map]
  by_cases ho : other = name
  · subst ho
    have hname := ((hx.name_of_lookup? hl).2 : p.name = other)
    change Option.map _ (h.shapes.lookup? c.shape other) = _
    rw [hl, if_pos rfl, Option.map_some]
    simp only [Function.comp, hname, beq_self_eq_true, if_true]
    exact congrArg some (Prod.ext (c.slot_setSlot_self p.offset value) rfl)
  · rw [if_neg ho] at hwritten ⊢
    rw [← hwritten]
    change Option.map _ (h.shapes.lookup? c.shape other) = _
    cases hq : h.shapes.lookup? c.shape other with
    | none => rfl
    | some q =>
      have hname : q.name ≠ name := (hx.name_of_lookup? hq).2 ▸ ho
      simp only [Option.map_some, Function.comp, beq_eq_false_iff_ne.mpr hname, Bool.false_eq_true, if_false]
      rfl

theorem clearElement_frame (hcell : h.cell? id = some c) (name : Atom) :
    ∃ c', (h.clearElement id name).cell? id = some c' ∧ c'.shape = c.shape ∧ c'.kind = c.kind := by
  cases hi : h.atoms.arrayIndex? name with
  | none =>
    rw [clearElement, hi]
    exact ⟨c, hcell, rfl, rfl⟩
  | some index =>
    rw [clearElement_eq hi]
    exact ⟨_, cell?_punch hcell index.toNat, (c.punch_frame index.toNat).1, (c.punch_frame index.toNat).2.2⟩

/-- **What a cell lists after a definition**, compared to where the element has been cleared. -/
theorem listed?_defineProperty (hf : h.Fitted) (hcell : h.cell? id = some c)
    (hdef : defineProperty id name value attributes h = .ok () h') :
    ∃ c₁ c', (h.clearElement id name).cell? id = some c₁ ∧ h'.cell? id = some c' ∧ c₁.kind = c.kind ∧
      c'.payload = c₁.payload ∧ h'.atoms = h.atoms ∧
      ∀ other, h'.shapes.listed? c' other =
        if other = name then some (value, some attributes)
        else (h.clearElement id name).shapes.listed? c₁ other := by
  obtain ⟨c₁, hcell₁, hshape, hkind⟩ := clearElement_frame hcell name
  obtain ⟨-, -, -, hshapes, hatoms, -⟩ := clearElement_cell hcell name
  obtain ⟨hf₁, -⟩ := clearElement_refits h id name hf
  have hleaves : leaves (defineProperty id name value attributes h) = h' := by rw [hdef]; rfl
  rcases defineProperty_cases hcell name value attributes with
    ⟨hl, heq⟩ | ⟨p, hl, ⟨hsame, heq⟩ | ⟨-, heq⟩⟩ <;> rw [← hshape, ← hshapes] at hl <;>
    obtain rfl := hleaves.symm.trans heq
  · -- a new property
    obtain ⟨c', hcell', hp, hl'⟩ := listed?_addNamed hf₁ hcell₁ hl value attributes
    rw [putNamed_none hcell₁ hl]
    exact ⟨c₁, c', hcell₁, hcell', hkind, hp, (addNamed_frame _ _ _ _ _ _).2.trans hatoms, hl'⟩
  · -- a property with these attributes
    subst hsame
    refine ⟨c₁, c₁.setSlot p.offset value, hcell₁, ?_, hkind, (c₁.setSlot_frame p.offset value).2, hatoms,
      listed?_setSlot hf₁ hl value⟩
    rw [cell?_modifyCell_self, hcell₁]
    rfl
  · -- a property with other attributes
    rw [← hshape, ← hshapes]
    exact ⟨c₁, _, hcell₁, (cell?_move hcell₁ _ _ id).trans (if_pos rfl), hkind,
      (c₁.setSlot_frame p.offset value).2, hatoms, listed?_redefine hf₁ hcell₁ hl value attributes⟩

/-! ### What attributes say -/

theorem putNamed_readOnly (hcell : h.cell? id = some c) (hl : h.shapes.lookup? c.shape name = some p) :
    (∃ h', putNamed id name value attributes h = .ok .readOnly h') ↔ p.attributes.readOnly = true := by
  rw [putNamed_some hcell hl]
  cases p.attributes.readOnly with
  | true => simp
  | false => simp

/-- **A listed property refuses to be written exactly if it is read-only.** -/
theorem setProperty_readOnly (hc : h.Coherent) (hcell : h.cell? id = some c) (hm : ¬h.Measures c name)
    (hs : h.synthesized? c name = none) (hl : h.shapes.lookup? c.shape name = some p) (written : Value) :
    (∃ h', setProperty id name written h = .ok .readOnly h') ↔ p.attributes.readOnly = true := by
  by_cases hindex : ∃ index, c.kind = .array ∧ h.atoms.arrayIndex? name = some index
  · obtain ⟨index, hk, hi⟩ := hindex
    have heq : setProperty id name written h = setIndex id index written h := by
      simp only [setProperty, bind, EStateM.bind, requireCell_some hcell, get_apply, hk, hi]
    have hfill : ¬c.Filled index.toNat := fun hfill => by
      have hsome := (isSome_synthesized? hc.atoms c name).mpr (.inl ⟨index, hi, hfill⟩)
      rw [hs] at hsome
      cases hsome
    obtain ⟨e, hp⟩ : ∃ e, c.payload = .array e := by
      unfold Cell.kind Payload.kind at hk
      split at hk <;> cases hk
      exact ⟨_, ‹_›⟩
    rw [heq]
    by_cases hpast : e.items.size < index.toNat
    · rw [setIndex_past hcell hp hpast, internIndex_of_index hc.atoms hi]
      exact putNamed_readOnly hcell hl
    · rw [setIndex_unfilled hcell hp (Nat.le_of_not_lt hpast) hfill, namedIndex?_eq hc hcell hi, hl]
      dsimp only
      by_cases hnone : p.attributes = .none
      · -- the property moves among the elements
        rw [if_pos (beq_iff_eq.mpr hnone), hnone]
        refine iff_of_false ?_ Bool.false_ne_true
        rintro ⟨h', hput⟩
        rcases putElement_cases hcell index.toNat e.items.size e.capacity (some p) written with hout | ⟨room, hok⟩
        · cases hout.symm.trans hput
        · cases hok.symm.trans hput
      · rw [if_neg (mt beq_iff_eq.mp hnone), ((hc.shapes.indexed _).name_of_lookup? hl).2]
        exact putNamed_readOnly hcell hl
  · have hnamed : h.Named c.kind name := by
      refine ⟨fun hk => ?_, fun hk hn => hm ⟨hn, hk⟩⟩
      cases hi : h.atoms.arrayIndex? name with
      | none => rfl
      | some index => exact absurd ⟨index, hk, hi⟩ hindex
    rw [setProperty_named hcell hnamed]
    exact putNamed_readOnly hcell hl

/-- **A listed property refuses to be deleted exactly if it must stay.** -/
theorem deleteProperty_refuses (hc : h.Coherent) (hfit : h.atoms.Fits) (hcell : h.cell? id = some c)
    (hm : ¬h.Measures c name) (hl : h.shapes.lookup? c.shape name = some p) :
    (∃ h', deleteProperty id name h = .ok false h') ↔ p.attributes.dontDelete = true := by
  have hundeletable : h.Undeletable c name ↔ p.attributes.dontDelete = true := by
    simp [Undeletable, hm, hl]
  rw [← hundeletable]
  rcases deleteProperty_result hc hfit hcell name with ⟨hu, heq⟩ |
    ⟨hu, ⟨index, -, -, heq⟩ | ⟨-, -, heq⟩ | ⟨-, -, heq⟩⟩
  · exact iff_of_true ⟨_, heq⟩ hu
  all_goals
    refine iff_of_false ?_ hu
    rintro ⟨h', hdelete⟩
    cases heq.symm.trans hdelete

/-- **A listed property is enumerated exactly if it is enumerable.** -/
theorem mem_ownKeys (hc : h.Coherent) (hcell : h.cell? id = some c) (hk : h.atoms.Knows name)
    (hfit : (h.ownKeys id).2.atoms.Fits)
    (hlen : ∀ length, h.arrayLength? id = some length → length < UInt32.size)
    (hs : h.synthesized? c name = none) (hl : h.shapes.lookup? c.shape name = some p) :
    name ∈ (h.ownKeys id).1 ↔ p.attributes.dontEnum = false := by
  have hindices := not_mem_indices hc hcell hk hfit hlen hs
  have hname : name ∈ h.names id := (mem_names hc.shapes hcell).mpr ⟨p, hl⟩
  rw [fst_ownKeys hc.shapes hcell, List.mem_append, or_iff_right hindices, List.mem_filter, enumerates, hcell]
  simp [hname, hl]

/-! ### The result -/

/-- **What is defined is read.** In whatever was reached with care, a name that is defined for a live cell, and is
not the length of an array or of a string, has the value and the attributes there: it is read as the value,
enumerated exactly if it is enumerable, not written exactly if it is read-only, and not deleted exactly if it must
stay. A length is read as before, and so is whatever the cell has under other names. All this holds as long as
numbers of 32 bits tell names and elements apart. -/
theorem defineProperty_defines (hr : s.Reached Action.Careful) (hcell : s.heap.cell? id = some c)
    (hk : s.heap.atoms.Knows name) (hdef : defineProperty id name value attributes s.heap = .ok () h')
    (hfit : (h'.ownKeys id).2.atoms.Fits)
    (hlen : ∀ length, h'.arrayLength? id = some length → length < UInt32.size) :
    (¬s.heap.Measures c name → h'.own? id name = some (value, some attributes) ∧ h'.getProperty? id name = some value ∧
      (name ∈ (h'.ownKeys id).1 ↔ attributes.dontEnum = false) ∧
      (∀ written, (∃ h'', setProperty id name written h' = .ok .readOnly h'') ↔ attributes.readOnly = true) ∧
      ((∃ h'', deleteProperty id name h' = .ok false h'') ↔ attributes.dontDelete = true)) ∧
    (s.heap.Measures c name → h'.own? id name = s.heap.own? id name) ∧
    (∀ other, other ≠ name → h'.own? id other = s.heap.own? id other) ∧
    h'.arrayLength? id = s.heap.arrayLength? id := by
  obtain ⟨-, hc⟩ := hr.coherent
  obtain ⟨hf, -⟩ := hr.tidy fun _ _ ha => ha.1
  have hc' : h'.Coherent := by
    have hreached := (hr.step (a := .defineProperty id name value attributes) ⟨hk, nofun⟩).coherent.2
    rw [Action.run, hdef] at hreached
    exact hreached
  obtain ⟨c₁, c', hcell₁, hcell', hkind, hp, hatoms, hl⟩ := listed?_defineProperty hf hcell hdef
  obtain ⟨hothers, hlength⟩ := clearElement_keeps hc.atoms hcell name
  obtain ⟨d, hd, -, -, hatoms₁, hhole⟩ := clearElement_cell hcell name
  obtain rfl := Option.some.inj (hcell₁.symm.trans hd)
  have hsynthesized (other : Atom) : h'.synthesized? c' other = (s.heap.clearElement id name).synthesized? c₁ other :=
    synthesized?_congr (hatoms.trans hatoms₁.symm) hp other
  refine ⟨fun hm => ?_, fun hm => ?_, fun other hne => ?_, (arrayLength?_congr hcell₁ hcell' hp).trans hlength⟩
  · -- no element, for it is cleared, and no length
    have hkind' : c'.kind = c.kind := by rw [← hkind, Cell.kind, hp, Cell.kind]
    have hm' : ¬h'.Measures c' name := by rwa [Measures, hatoms, hkind']
    have hnone : h'.synthesized? c' name = none := by
      rw [← Option.not_isSome_iff_eq_none, isSome_synthesized? hc'.atoms, or_iff_left hm']
      rintro ⟨index, hi, hfill⟩
      refine hhole index (hatoms ▸ hi) ?_
      simpa only [Cell.Filled, hp] using hfill
    have hown : h'.shapes.listed? c' name = some (value, some attributes) := by rw [hl, if_pos rfl]
    obtain ⟨p, hlookup, hlisted⟩ := Option.map_eq_some_iff.mp hown
    obtain ⟨-, rfl⟩ := by simpa using hlisted
    rw [← property?_of_none hnone, ← own?_of_cell hcell'] at hown
    have hfits : h'.atoms.Fits := by
      rw [ownKeys_eq hcell'] at hfit
      exact (internIndices_spec hc'.atoms c'.present).2.1.fits hfit
    exact ⟨hown, getProperty?_of_own hown, mem_ownKeys hc' hcell' (hatoms ▸ hk) hfit hlen hnone hlookup,
      setProperty_readOnly hc' hcell' hm' hnone hlookup, deleteProperty_refuses hc' hfits hcell' hm' hlookup⟩
  · -- a length is no index, so that nothing is cleared
    have hclear : s.heap.clearElement id name = s.heap := by
      rw [clearElement, arrayIndex?_length hc.atoms hm.1]
    rw [hclear] at hcell₁ hsynthesized
    obtain rfl := Option.some.inj (hcell.symm.trans hcell₁)
    obtain ⟨v, hv⟩ := Option.isSome_iff_exists.mp ((isSome_synthesized? hc.atoms c name).mpr (.inr hm))
    rw [own?_of_cell hcell', own?_of_cell hcell, property?, property?, hsynthesized, hv]
  · rw [← hothers other hne, own?_of_cell hcell', own?_of_cell hcell₁, property?, property?, hsynthesized, hl,
      if_neg hne]

end ScriptMachine.Heap
