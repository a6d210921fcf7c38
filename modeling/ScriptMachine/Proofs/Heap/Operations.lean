import ScriptMachine.Proofs.Heap.Change

/-! # Operations on properties are chains of steps

Each operation of the heap is followed to its end: what it stores, and that it keeps an array index
in one place. The result for each of them is that the heap it leaves, with or without a fault, is
reached by `Heap.Changes`. -/

namespace ScriptMachine

/-- The state an action leaves, with or without an error. -/
def leaves {ε σ α : Type} : EStateM.Result ε σ α → σ
  | .ok _ s | .error _ s => s

/-- Values that an operation may store on its own account. -/
structure Storable (P : Value → Prop) : Prop where
  /-- Fresh and cleared properties are undefined. -/
  undefined : P .undefined
  /-- Missing elements are holes. -/
  hole : P .hole

namespace Cell

variable {c : Cell} {v w : Value}

/-! ### Cells -/

theorem ensureSlots_frame (c : Cell) (count : Nat) :
    (c.ensureSlots count).shape = c.shape ∧ (c.ensureSlots count).payload = c.payload := by
  unfold ensureSlots
  split <;> exact ⟨rfl, rfl⟩

theorem mem_ensureSlots {count : Nat} (h : v ∈ (c.ensureSlots count).slots) :
    v ∈ c.slots ∨ v = .undefined := by
  unfold ensureSlots at h
  split at h
  · exact .inl h
  · rcases Array.mem_append.mp h with h | h
    · exact .inl h
    · exact .inr (Array.mem_replicate.mp h).2

theorem setSlot_frame (c : Cell) (offset : Nat) (v : Value) :
    (c.setSlot offset v).shape = c.shape ∧ (c.setSlot offset v).payload = c.payload :=
  ensureSlots_frame c (offset + 1)

theorem mem_setSlot {offset : Nat} (h : w ∈ (c.setSlot offset v).slots) :
    w ∈ c.slots ∨ w = v ∨ w = .undefined := by
  rcases Array.mem_or_eq_of_mem_setIfInBounds h with h | h
  · exact (mem_ensureSlots h).imp_right .inr
  · exact .inr (.inl h)

theorem filled_congr {c' : Cell} (h : c'.payload = c.payload) (position : Nat) :
    c'.Filled position ↔ c.Filled position := by
  unfold Filled
  rw [h]

theorem not_filled (h : c.kind ≠ .array) (position : Nat) : ¬c.Filled position := by
  rintro ⟨e, -, hp, -⟩
  exact h (by rw [kind, hp]; rfl)

end Cell

namespace Heap

variable {P : Value → Prop} {h : Heap} {id : Handle} {c : Cell} {name : Atom} {value : Value}
  {attributes : Attributes}

/-! ### Updates -/

/-- Writing a slot while moving to a shape whose layout was checked. -/
theorem Update.slot (hP : Storable P) (hv : P value) {t : ShapeTable} {target : ShapeId}
    (offset : Nat) (hm : h.shapes.Moves c.shape t target)
    (hnamed : ∀ p ∈ (t.get target).properties, h.atoms.Knows p.name)
    (hsingle : h.atoms.Fits → ∀ name index, h.atoms.arrayIndex? name = some index → c.Filled index.toNat →
      (t.get target).lookup? name = none)
    (hproto : (t.get target).prototype = (h.shapes.get c.shape).prototype) :
    h.Update P c t { c.setSlot offset value with shape := target } where
  moves := hm
  kind := congrArg Payload.kind (c.setSlot_frame offset value).2
  named := hnamed
  single hfit name index hi hf :=
    hsingle hfit name index hi ((Cell.filled_congr (c.setSlot_frame offset value).2 _).mp hf)
  holds v hv' := by
    rcases hv' with hs | hr
    · rcases Cell.mem_setSlot hs with hs | rfl | rfl
      · exact .inl (.inl hs)
      · exact .inr hv
      · exact .inr hP.undefined
    · refine .inl (.inr ?_)
      rw [← (c.setSlot_frame offset value).2]
      exact hr
  prototype := hproto

/-- The facts about a cell that stays at its shape. -/
theorem Coherent.stay (hc : h.Coherent) (hcell : h.cell? id = some c) :
    h.shapes.Moves c.shape h.shapes c.shape ∧
    (∀ p ∈ (h.shapes.get c.shape).properties, h.atoms.Knows p.name) ∧
    (h.atoms.Fits → ∀ name index, h.atoms.arrayIndex? name = some index →
      c.Filled index.toNat → (h.shapes.get c.shape).lookup? name = none) :=
  ⟨.refl hc.shapes (hc.live id c hcell), fun p => hc.named id c p hcell,
    fun hfit name index => hc.single hfit id c name index hcell⟩

theorem modifyCell_congr {f g : Cell → Cell} (hcell : h.cell? id = some c) (hfg : f c = g c) :
    h.modifyCell id f = h.modifyCell id g := by
  obtain ⟨slot, hs, hg, hslot⟩ := cell?_eq_some.mp hcell
  have : (h.modifyCell id f).slots = (h.modifyCell id g).slots := by
    rw [slots_modifyCell f hs hg hslot, slots_modifyCell g hs hg hslot, hfg]
  simp only [modifyCell, Heap.mk.injEq, and_true] at this ⊢
  exact this

/-- Writing a slot of a property the cell has. -/
theorem Change.slot (hP : Storable P) (hv : P value) (hc : h.Coherent)
    (hcell : h.cell? id = some c) (offset : Nat) :
    Change P h (h.modifyCell id (·.setSlot offset value)) := by
  obtain ⟨hm, hnamed, hsingle⟩ := hc.stay hcell
  have hu := Update.slot hP hv offset hm hnamed hsingle rfl
  have hf : c.setSlot offset value = { c.setSlot offset value with shape := c.shape } := by
    rw [← (c.setSlot_frame offset value).1]
  exact .update hcell (by rw [hf]; exact hu)

/-! ### Named properties -/

/-- The heap after a property was added to a cell. -/
def addNamed (h : Heap) (id : Handle) (shape : ShapeId) (name : Atom) (value : Value)
    (attributes : Attributes) : Heap :=
  let added := h.shapes.addProperty shape name attributes
  ({ h with shapes := added.2.2 }.modifyCell id fun cell =>
    { cell.setSlot added.2.1 value with shape := added.1 }).refreshFootprint id

/-- Looking at the heap. -/
theorem get_apply (h : Heap) : (get : HeapM Heap) h = .ok h h := rfl

/-- A change of the heap that yields something. -/
theorem modifyGet_apply {ε α : Type} (f : Heap → α × Heap) (h : Heap) :
    (modifyGet f : EStateM ε Heap α) h = .ok (f h).1 (f h).2 := rfl

/-- A change of the heap that yields nothing. -/
theorem modify_apply (f : Heap → Heap) (h : Heap) : (modify f : HeapM Unit) h = .ok () (f h) := rfl

theorem reserveBytes_apply (n : Nat) (h : Heap) : reserveBytes n h =
    if h.liveBytes + n ≤ h.limits.maxBytes then .ok () h else .error .outOfMemory h := by
  simp only [reserveBytes, bind, EStateM.bind, get_apply]
  split <;> rfl

theorem requireCell_some (hc : h.cell? id = some c) : requireCell id h = .ok c h := by
  simp only [requireCell, bind, EStateM.bind, get_apply, hc]
  rfl

theorem requireCell_none (hc : h.cell? id = none) : requireCell id h = .error .staleHandle h := by
  simp only [requireCell, bind, EStateM.bind, get_apply, hc]
  rfl

theorem putNamed_some {p : Property} (hc : h.cell? id = some c)
    (hl : h.shapes.lookup? c.shape name = some p) :
    putNamed id name value attributes h =
      if p.attributes.readOnly then .ok .readOnly h
      else .ok (.replaced c.shape p.offset) (h.modifyCell id (·.setSlot p.offset value)) := by
  simp only [putNamed, bind, EStateM.bind, requireCell_some hc, get_apply, hl]
  split <;> rfl

theorem putNamed_none (hc : h.cell? id = some c) (hl : h.shapes.lookup? c.shape name = none) :
    putNamed id name value attributes h =
      .ok (.added c.shape (h.shapes.addProperty c.shape name attributes).1
        (h.shapes.addProperty c.shape name attributes).2.1)
        (h.addNamed id c.shape name value attributes) := by
  simp only [putNamed, bind, EStateM.bind, requireCell_some hc, get_apply, hl]
  rfl

theorem putNamed_stale (hc : h.cell? id = none) :
    putNamed id name value attributes h = .error .staleHandle h := by
  simp only [putNamed, bind, EStateM.bind, requireCell_none hc]

/-- Writing a slot under the shape that a cell has changes nothing else. -/
theorem writeSlot_same (hcell : h.cell? id = some c) (offset : Nat) (value : Value) :
    h.writeSlot id c.shape offset value = h.modifyCell id (·.setSlot offset value) := by
  have hcurrent : h.shapeOf? id = some c.shape := by rw [shapeOf?, hcell]; rfl
  simp only [writeSlot, hcurrent, BEq.rfl, if_true]
  exact modifyCell_congr hcell (by rw [← (c.setSlot_frame offset value).1])

/-- **Writing a slot at the end of a listed edge** adds the property of the edge. -/
theorem writeSlot_edge {target : ShapeId} {p : Property} (hcell : h.cell? id = some c)
    (hd : (h.shapes.get c.shape).dictionary = false) (hn : h.shapes.lookup? c.shape name = none)
    (hedge : h.shapes.additions[(c.shape, name, attributes)]? = some target)
    (hp : h.shapes.lookup? target name = some p) (value : Value) :
    h.shapes.addProperty c.shape name attributes = (target, p.offset, h.shapes) ∧
      h.writeSlot id target p.offset value = h.addNamed id c.shape name value attributes := by
  have hadd : h.shapes.addProperty c.shape name attributes = (target, p.offset, h.shapes) := by
    simp only [ShapeTable.addProperty, hd, Bool.false_eq_true, if_false, hedge, hp]
  have hne : (c.shape == target) = false := by
    refine beq_eq_false_iff_ne.mpr fun heq => ?_
    rw [heq, hp] at hn
    cases hn
  have hcurrent : h.shapeOf? id = some c.shape := by rw [shapeOf?, hcell]; rfl
  refine ⟨hadd, ?_⟩
  simp only [writeSlot, hcurrent, hne, Bool.false_eq_true, if_false, addNamed, hadd]

theorem addNamed_changes (hP : Storable P) (hv : P value) (hc : h.Coherent)
    (hcell : h.cell? id = some c) (hl : h.shapes.lookup? c.shape name = none)
    (hk : h.atoms.Knows name)
    (hf : h.atoms.Fits → ∀ index, h.atoms.arrayIndex? name = some index →
      ¬c.Filled index.toNat) :
    Changes P h (h.addNamed id c.shape name value attributes) := by
  obtain ⟨hm, hp, he, -⟩ := ShapeTable.addProperty_spec hc.shapes (hc.live id c hcell) hl attributes
  refine .tail (.single (.update hcell (.slot hP hv _ hm (fun p hp => ?_) (fun hfit name' index hi hfill =>
    ?_) hp))) (.count id)
  · rw [he] at hp
    rcases Array.mem_push.mp hp with hp | rfl
    · exact hc.named id c p hcell hp
    · exact hk
  · rw [(hc.shapes.indexed _).lookup?_push (hm.grows.ordered.indexed _) he hl]
    split
    case isTrue heq =>
      simp only at heq
      rw [heq] at hi
      exact absurd hfill (hf hfit index hi)
    case isFalse => exact hc.single hfit id c name' index hcell hi hfill

theorem putNamed_changes (hP : Storable P) (hv : P value) (hc : h.Coherent)
    (hk : h.atoms.Knows name)
    (hf : h.atoms.Fits → ∀ c index, h.cell? id = some c →
      h.atoms.arrayIndex? name = some index → ¬c.Filled index.toNat) :
    Changes P h (leaves (putNamed id name value attributes h)) := by
  cases hcell : h.cell? id with
  | none =>
    rw [putNamed_stale hcell]
    exact .refl
  | some c =>
    cases hl : h.shapes.lookup? c.shape name with
    | none =>
      rw [putNamed_none hcell hl]
      exact addNamed_changes hP hv hc hcell hl hk fun hfit index => hf hfit c index hcell
    | some p =>
      rw [putNamed_some hcell hl]
      split
      · exact .refl
      · exact .single (.slot hP hv hc hcell p.offset)

/-- Removing a property moves the cell to a dictionary that lists the other ones. -/
theorem removeNamed_change (hP : Storable P) (hc : h.Coherent) (hcell : h.cell? id = some c)
    (name : Atom) : Change P h (h.removeNamed id c.shape name) := by
  obtain ⟨hm, -, hp, he⟩ := ShapeTable.removeProperty_spec hc.shapes (hc.live id c hcell) name
  unfold removeNamed
  generalize h.shapes.removeProperty c.shape name = result at *
  obtain ⟨target, removed, t⟩ := result
  dsimp only at hm hp he ⊢
  have hremove := (hc.shapes.indexed c.shape).remove name
  have hnamed (p : Property) (hmem : p ∈ (t.get target).properties) : h.atoms.Knows p.name := by
    rw [he] at hmem
    exact hc.named id c p hcell ((hc.shapes.indexed _).mem_remove.mp hmem).1
  have hsingle (hfit : h.atoms.Fits) (name' : Atom) (index : UInt32) (hi : h.atoms.arrayIndex? name' = some index)
      (hfill : c.Filled index.toNat) : (t.get target).lookup? name' = none := by
    rw [hremove.lookup?_congr (hm.grows.ordered.indexed _) he,
      (hc.shapes.indexed _).lookup?_remove]
    split
    · rfl
    · exact hc.single hfit id c name' index hcell hi hfill
  refine .update hcell ?_
  cases removed with
  | none => exact ⟨hm, rfl, hnamed, hsingle, fun v hv => .inl hv, hp⟩
  | some p =>
    have hu := Update.slot hP hP.undefined p.offset hm hnamed hsingle hp
    have hf : ({ c with shape := target } : Cell).setSlot p.offset .undefined =
        { c.setSlot p.offset .undefined with shape := target } := by
      unfold Cell.setSlot Cell.ensureSlots
      dsimp only
      split <;> rfl
    dsimp only
    rw [hf]
    exact hu

theorem removeNamed_cell (hc : h.Coherent) (hcell : h.cell? id = some c) (name : Atom) :
    ∃ c', (h.removeNamed id c.shape name).cell? id = some c' ∧ c'.payload = c.payload ∧
      (h.removeNamed id c.shape name).atoms = h.atoms ∧
      ∀ other, (h.removeNamed id c.shape name).shapes.lookup? c'.shape other =
        if other = name then none else h.shapes.lookup? c.shape other := by
  obtain ⟨hm, -, -, he⟩ := ShapeTable.removeProperty_spec hc.shapes (hc.live id c hcell) name
  unfold removeNamed
  generalize h.shapes.removeProperty c.shape name = result at *
  obtain ⟨target, removed, t⟩ := result
  dsimp only at hm he ⊢
  have hlookup (other : Atom) : t.lookup? target other =
      if other = name then none else h.shapes.lookup? c.shape other := by
    unfold ShapeTable.lookup?
    rw [((hc.shapes.indexed c.shape).remove name).lookup?_congr (hm.grows.ordered.indexed _) he,
      (hc.shapes.indexed _).lookup?_remove]
  have hread : ({ h with shapes := t } : Heap).cell? id = some c :=
    (congrFun (cell?_congr rfl) id).trans hcell
  rw [cell?_modifyCell_self, hread]
  cases removed with
  | none => exact ⟨_, rfl, rfl, rfl, hlookup⟩
  | some p =>
    refine ⟨_, rfl, (Cell.setSlot_frame _ _ _).2, rfl, fun other => ?_⟩
    dsimp only
    rw [(Cell.setSlot_frame _ _ _).1]
    exact hlookup other

/-! ### Elements -/

/-- Changing the elements of an array, where an index that gets an element is no property. -/
theorem Change.elements (hc : h.Coherent) (hcell : h.cell? id = some c) {f : Elements → Elements}
    (hitems : ∀ e v, c.payload = .array e → v ∈ (f e).items → v ∈ e.items ∨ P v)
    (hfill : h.atoms.Fits → ∀ e v name index, c.payload = .array e → h.atoms.arrayIndex? name = some index →
      (f e).items[index.toNat]? = some v → v.isHole = false →
      e.items[index.toNat]? = some v ∨ h.shapes.lookup? c.shape name = none) :
    Change P h (h.modifyCell id (Cell.mapElements f)) := by
  obtain ⟨hm, hnamed, hsingle⟩ := hc.stay hcell
  refine .update hcell ?_
  obtain ⟨shape, slots, capacity, payload⟩ := c
  cases payload with
  | array e =>
    refine ⟨hm, rfl, hnamed, fun hfit name index hi hf => ?_, fun v hv => ?_, rfl⟩
    · obtain ⟨e', v, he', hv, hh⟩ := hf
      obtain rfl := Payload.array.inj he'
      rcases hfill hfit e v name index rfl hi hv hh with hold | hnone
      · exact hsingle hfit name index hi ⟨e, v, rfl, hold, hh⟩
      · exact hnone
    · rcases hv with hv | hv
      · exact .inl (.inl hv)
      · refine (hitems e v rfl (Array.mem_toList_iff.mp hv)).imp_left fun hv => .inr ?_
        exact Array.mem_toList_iff.mpr hv
  | plain | string _ | function _ | activation _ =>
    exact ⟨hm, rfl, hnamed, hsingle, fun v hv => .inl hv, rfl⟩

/-- Writing a slot of a scope record. -/
theorem Change.scope (hv : P value) (hc : h.Coherent) (hcell : h.cell? id = some c) (index : Nat) :
    Change P h (h.modifyCell id (Cell.mapScope fun scope =>
      { scope with slots := scope.slots.setIfInBounds index value })) := by
  obtain ⟨hm, hnamed, hsingle⟩ := hc.stay hcell
  refine .update hcell ?_
  obtain ⟨shape, slots, capacity, payload⟩ := c
  cases payload with
  | activation scope =>
    refine ⟨hm, rfl, hnamed, fun hfit name index hi hf => ?_, fun v hh => ?_, rfl⟩
    · obtain ⟨_, _, he, _⟩ := hf
      cases he
    · rcases hh with hh | hh
      · exact .inl (.inl hh)
      · simp only [Cell.mapScope, Payload.references, List.mem_append, Array.mem_toList_iff] at hh
        rcases hh with hh | hh
        · rcases Array.mem_or_eq_of_mem_setIfInBounds hh with hold | rfl
          · exact .inl (.inr (List.mem_append_left _ (Array.mem_toList_iff.mpr hold)))
          · exact .inr hv
        · exact .inl (.inr (List.mem_append_right _ hh))
  | plain | string _ | function _ | array _ =>
    exact ⟨hm, rfl, hnamed, hsingle, fun v hv => .inl hv, rfl⟩

theorem clearElement_changes (hP : Storable P) (hc : h.Coherent) (id : Handle) (name : Atom) :
    Changes P h (h.clearElement id name) := by
  unfold clearElement
  cases h.atoms.arrayIndex? name with
  | none => exact .refl
  | some position =>
    cases hcell : h.cell? id with
    | none =>
      dsimp only
      rw [modifyCell_of_none _ hcell]
      exact .refl
    | some c =>
      refine .single (.elements hc hcell (fun e v _ hv => ?_) fun _ e v name index _ _ hv hh => ?_)
      · rcases Array.mem_or_eq_of_mem_setIfInBounds hv with hv | rfl
        · exact .inl hv
        · exact .inr hP.hole
      · rw [Array.getElem?_setIfInBounds] at hv
        split at hv
        · split at hv
          · obtain rfl := Option.some.inj hv
            cases hh
          · cases hv
        · exact .inl hv

theorem clearElement_cell (hcell : h.cell? id = some c) (name : Atom) :
    ∃ c', (h.clearElement id name).cell? id = some c' ∧ c'.shape = c.shape ∧
      (h.clearElement id name).shapes = h.shapes ∧ (h.clearElement id name).atoms = h.atoms ∧
      ∀ index, h.atoms.arrayIndex? name = some index → ¬c'.Filled index.toNat := by
  unfold clearElement
  cases hi : h.atoms.arrayIndex? name with
  | none => exact ⟨c, hcell, rfl, rfl, rfl, fun _ h => by cases h⟩
  | some position =>
    dsimp only
    rw [cell?_modifyCell_self, hcell]
    refine ⟨_, rfl, ?_, rfl, rfl, ?_⟩
    · obtain ⟨shape, slots, capacity, payload⟩ := c
      cases payload <;> rfl
    · rintro index hidx ⟨e, v, he, hv, hh⟩
      obtain rfl := Option.some.inj hidx
      obtain ⟨shape, slots, capacity, payload⟩ := c
      cases payload with
      | array e' =>
        obtain rfl := Payload.array.inj he
        simp only [Array.getElem?_setIfInBounds_self] at hv
        split at hv
        · obtain rfl := Option.some.inj hv
          cases hh
        · cases hv
      | plain | string _ | function _ | activation _ => cases he

/-- The heap after an element was written or appended. -/
def storeElement (h : Heap) (id : Handle) (position length capacity : Nat) (value : Value) : Heap :=
  if position < length then
    h.modifyCell id (Cell.mapElements fun e =>
      { e with items := e.items.setIfInBounds position value })
  else
    (h.modifyCell id (Cell.mapElements fun e =>
      { items := e.items.push value, capacity })).refreshFootprint id

/-- The heap after a named property made room for an element. -/
def dropNamed (h : Heap) (id : Handle) (shape : ShapeId) : Option Property → Heap
  | some property => h.removeNamed id shape property.name
  | none => h

/-- A write of an element fails for want of memory, or stores the element, in storage that is as great as
it was or fits below the limit. -/
theorem putElement_fits (hcell : h.cell? id = some c) (position length capacity : Nat)
    (named : Option Property) (value : Value) :
    putElement id position length capacity named value h = .error .outOfMemory h ∨
      ∃ room, (room = capacity ∨
          h.liveBytes + (room - capacity) * valueBytes ≤ h.limits.maxBytes) ∧
        putElement id position length capacity named value h =
          .ok .element ((h.dropNamed id c.shape named).storeElement id position length room value) := by
  unfold storeElement dropNamed
  cases hfull : position == length && length == capacity with
  | true =>
    by_cases hm : h.liveBytes + (grownCapacity capacity - capacity) * valueBytes ≤ h.limits.maxBytes
    · refine .inr ⟨grownCapacity capacity, .inr hm, ?_⟩
      by_cases hlt : position < length <;> cases named <;>
        simp only [putElement, hfull, bind, EStateM.bind, reserveBytes_apply, hm, if_true, if_false,
          requireCell_some hcell, modify_apply, hlt] <;> rfl
    · left
      simp only [putElement, hfull, bind, EStateM.bind, reserveBytes_apply, hm, if_true, if_false]
  | false =>
    refine .inr ⟨capacity, .inl rfl, ?_⟩
    by_cases hlt : position < length <;> cases named <;>
      simp only [putElement, hfull, Bool.false_eq_true, if_false, if_true, bind, EStateM.bind,
        requireCell_some hcell, modify_apply, hlt] <;> rfl

theorem putElement_cases (hcell : h.cell? id = some c) (position length capacity : Nat)
    (named : Option Property) (value : Value) :
    putElement id position length capacity named value h = .error .outOfMemory h ∨
      ∃ room, putElement id position length capacity named value h =
        .ok .element ((h.dropNamed id c.shape named).storeElement id position length room value) := by
  rcases putElement_fits hcell position length capacity named value with heq | ⟨room, -, heq⟩
  · exact .inl heq
  · exact .inr ⟨room, heq⟩

theorem storeElement_changes (hv : P value) (hc : h.Coherent) (hcell : h.cell? id = some c)
    {position length : Nat} (capacity : Nat)
    (hlength : ∀ e, c.payload = .array e → e.items.size = length) (hpos : position ≤ length)
    (hnone : h.atoms.Fits → ∀ name index, h.atoms.arrayIndex? name = some index → index.toNat = position →
      h.shapes.lookup? c.shape name = none) :
    Changes P h (h.storeElement id position length capacity value) := by
  unfold storeElement
  split
  case isTrue =>
    refine .single (.elements hc hcell (fun e v _ hm => ?_) fun hfit e v name index _ hi he _ => ?_)
    · rcases Array.mem_or_eq_of_mem_setIfInBounds hm with hm | rfl
      · exact .inl hm
      · exact .inr hv
    · rw [Array.getElem?_setIfInBounds] at he
      split at he
      case isTrue hsame => exact .inr (hnone hfit name index hi hsame.symm)
      case isFalse => exact .inl he
  case isFalse hlt =>
    refine .tail (.single (.elements hc hcell (fun e v _ hm => ?_)
      fun hfit e v name index hp hi he _ => ?_)) (.count id)
    · rcases Array.mem_push.mp hm with hm | rfl
      · exact .inl hm
      · exact .inr hv
    · rw [Array.getElem?_push, hlength e hp] at he
      split at he
      case isTrue hsame => exact .inr (hnone hfit name index hi (by omega))
      case isFalse => exact .inl he

/-- A property of an index is the one its name has. -/
theorem namedIndex?_eq (hc : h.Coherent) (hcell : h.cell? id = some c) {index : UInt32}
    (hi : h.atoms.arrayIndex? name = some index) :
    h.namedIndex? id index = h.shapes.lookup? c.shape name := by
  simp only [namedIndex?, AtomTable.get?_indexName hc.atoms hi, hcell]

theorem name_of_namedIndex? (ho : h.shapes.Ordered) {p : Property} {index : UInt32}
    (hcell : h.cell? id = some c) (hn : h.namedIndex? id index = some p) :
    h.shapes.lookup? c.shape p.name = some p := by
  unfold namedIndex? at hn
  split at hn
  case h_1 => cases hn
  case h_2 atom _ =>
    rw [hcell] at hn
    have := ((ho.indexed _).name_of_lookup? hn).2
    rw [this]
    exact hn

theorem putElement_changes (hP : Storable P) (hv : P value) (hc : h.Coherent)
    (hcell : h.cell? id = some c) {e : Elements} (he : c.payload = .array e) {index : UInt32}
    (hpos : index.toNat ≤ e.items.size) (capacity : Nat) {named : Option Property}
    (hnamed : h.namedIndex? id index = named ∨ named = none ∧ c.Filled index.toNat) :
    Changes P h
      (leaves (putElement id index.toNat e.items.size capacity named value h)) := by
  rcases putElement_cases hcell index.toNat e.items.size capacity named value with
    heq | ⟨room, heq⟩
  · rw [heq]
    exact .refl
  · rw [heq]
    have hlength {c' : Cell} (hp : c'.payload = c.payload) (e' : Elements)
        (he' : c'.payload = .array e') : e'.items.size = e.items.size := by
      rw [hp, he] at he'
      rw [Payload.array.inj he']
    cases named with
    | none =>
      refine storeElement_changes hv hc hcell room (hlength rfl) hpos fun hfit name i hi hsame => ?_
      obtain rfl := UInt32.toNat_inj.mp hsame
      rcases hnamed with hn | ⟨-, hf⟩
      · rw [← namedIndex?_eq hc hcell hi, hn]
      · exact hc.single hfit id c name i hcell hi hf
    | some p =>
      -- the property of the index goes first, and no other name stands for the index
      have hn : h.namedIndex? id index = some p := hnamed.resolve_right fun h => by cases h.1
      have hrem := removeNamed_change hP hc hcell p.name
      obtain ⟨c', hcell', hp', ha', hl'⟩ := removeNamed_cell hc hcell p.name
      refine .trans (.single hrem) (storeElement_changes hv (hrem.coherent hc).1 hcell' room
        (hlength hp') hpos fun hfit name i hi hsame => ?_)
      obtain rfl := UInt32.toNat_inj.mp hsame
      rw [ha'] at hi
      rw [namedIndex?_eq hc hcell hi] at hn
      rw [hl', if_pos ((hc.shapes.indexed _).name_of_lookup? hn).2.symm]

/-- Writing an index as a named property, past the elements of the cell. -/
theorem putIndexName_changes (hP : Storable P) (hv : P value) (hc : h.Coherent)
    (hcell : h.cell? id = some c) {index : UInt32}
    (hpast : ∀ e, c.payload = .array e → e.items.size ≤ index.toNat) :
    Changes P h (leaves (putNamed id (h.internIndex index).1 value .none (h.internIndex index).2)) := by
  have hintern : Change P h (h.internIndex index).2 := .intern _
  refine .trans (.single hintern) (putNamed_changes hP hv (hintern.coherent hc).1
    (AtomTable.knows_intern hc.atoms _) fun hfit c' i hcell' hi => ?_)
  obtain rfl : c = c' := Option.some.inj (hcell.symm.trans hcell')
  obtain rfl := AtomTable.arrayIndex?_internIndex hc.atoms hfit hi
  rintro ⟨e, v, he, hitem, -⟩
  have := (Array.getElem?_eq_some_iff.mp hitem).1
  have := hpast e he
  omega

/-- A write past the end of an array goes to the name of the index. -/
theorem setIndex_past (hcell : h.cell? id = some c) {e : Elements} (hp : c.payload = .array e)
    {index : UInt32} (hpast : e.items.size < index.toNat) (value : Value) : setIndex id index value h =
      putNamed id (h.internIndex index).1 value .none (h.internIndex index).2 := by
  have hgt : index.toNat > e.items.size := hpast
  simp only [setIndex, bind, EStateM.bind, requireCell_some hcell, hp, hgt, if_true]
  rfl

/-- A write behind a hole, or next to the last element, goes to a named property of the index that has
attributes, and among the elements else. -/
theorem setIndex_unfilled (hcell : h.cell? id = some c) {e : Elements} (hp : c.payload = .array e)
    {index : UInt32} (hle : index.toNat ≤ e.items.size) (hfill : ¬c.Filled index.toNat) (value : Value) :
    setIndex id index value h = (match h.namedIndex? id index with
      | some p =>
        if p.attributes == Attributes.none then
          putElement id index.toNat e.items.size e.capacity (some p) value
        else putNamed id p.name value .none
      | none => putElement id index.toNat e.items.size e.capacity none value) h := by
  have hhole (v : Value) (hitem : e.items[index.toNat]? = some v) : v.isHole = true := by
    by_contra hh
    exact hfill ⟨e, v, hp, hitem, by simpa using hh⟩
  have hpast : ¬index.toNat > e.items.size := Nat.not_lt_of_le hle
  cases hitem : e.items[index.toNat]? with
  | none =>
    simp only [setIndex, bind, EStateM.bind, requireCell_some hcell, hp, hpast, if_false, hitem, get_apply,
      Bool.false_eq_true]
    cases h.namedIndex? id index <;> rfl
  | some v =>
    simp only [setIndex, bind, EStateM.bind, requireCell_some hcell, hp, hpast, if_false, hitem, hhole v hitem,
      get_apply, Bool.not_true, Bool.false_eq_true]
    cases h.namedIndex? id index <;> rfl

/-- What a write to an index does. -/
theorem setIndex_cases (hcell : h.cell? id = some c) (index : UInt32) (value : Value) :
    (setIndex id index value h =
        putNamed id (h.internIndex index).1 value .none (h.internIndex index).2 ∧
      ∀ e, c.payload = .array e → e.items.size ≤ index.toNat) ∨
    setIndex id index value h = .ok .readOnly h ∨
    (∃ e named, c.payload = .array e ∧ index.toNat ≤ e.items.size ∧
      (h.namedIndex? id index = named ∨ named = none ∧ c.Filled index.toNat) ∧
      setIndex id index value h =
        putElement id index.toNat e.items.size e.capacity named value h) ∨
    ∃ p, h.namedIndex? id index = some p ∧ ¬c.Filled index.toNat ∧
      setIndex id index value h = putNamed id p.name value .none h := by
  cases hp : c.payload with
  | array e =>
    by_cases hpast : index.toNat > e.items.size
    · refine .inl ⟨setIndex_past hcell hp hpast value, fun e' he' => ?_⟩
      rw [← Payload.array.inj he']
      omega
    · right; right
      by_cases hfill : c.Filled index.toNat
      · obtain ⟨e', v, he', hitem, hh⟩ := hfill
        obtain rfl := Payload.array.inj (hp.symm.trans he')
        refine .inl ⟨e, none, rfl, by omega, .inr ⟨rfl, e, v, hp, hitem, hh⟩, ?_⟩
        simp only [setIndex, bind, EStateM.bind, requireCell_some hcell, hp, hpast, if_false, hitem,
          hh, get_apply, Bool.not_false, if_true]
      · have heq := setIndex_unfilled hcell hp (Nat.le_of_not_lt hpast) hfill value
        cases hn : h.namedIndex? id index with
        | none =>
          rw [hn] at heq
          exact .inl ⟨e, none, rfl, by omega, .inl rfl, heq⟩
        | some p =>
          rw [hn] at heq
          by_cases ha : (p.attributes == Attributes.none) = true
          · exact .inl ⟨e, some p, rfl, by omega, .inl rfl, heq.trans (by dsimp only; rw [if_pos ha])⟩
          · exact .inr ⟨p, rfl, hfill, heq.trans (by dsimp only; rw [if_neg ha])⟩
  | string text =>
    refine .inr (.inl ?_)
    simp only [setIndex, bind, EStateM.bind, requireCell_some hcell, hp]
    rfl
  | plain | function _ | activation _ =>
    refine .inl ⟨?_, fun e he => by cases he⟩
    simp only [setIndex, bind, EStateM.bind, requireCell_some hcell, hp]
    rfl

theorem setIndex_changes (hP : Storable P) (hv : P value) (hc : h.Coherent) (id : Handle)
    (index : UInt32) : Changes P h (leaves (setIndex id index value h)) := by
  cases hcell : h.cell? id with
  | none =>
    simp only [setIndex, bind, EStateM.bind, requireCell_none hcell]
    exact .refl
  | some c =>
    rcases setIndex_cases hcell index value with
      ⟨heq, hpast⟩ | heq | ⟨e, named, he, hpos, hnamed, heq⟩ | ⟨p, hn, -, heq⟩
    · rw [heq]
      exact putIndexName_changes hP hv hc hcell hpast
    · rw [heq]
      exact .refl
    · rw [heq]
      exact putElement_changes hP hv hc hcell he hpos e.capacity hnamed
    · rw [heq, putNamed_some hcell (name_of_namedIndex? hc.shapes hcell hn)]
      split
      · exact .refl
      · exact .single (.slot hP hv hc hcell p.offset)

/-- Setting a length fails before it changes anything, or it changes nothing, or it gives an array
fewer or more elements, in storage that is as great as it was or fits below the limit. -/
theorem setArrayLength_fits (h : Heap) (id : Handle) (length : Value) :
    (∃ fault, fault ≠ .staleHandle ∧ setArrayLength id length h = .error fault h) ∨
    setArrayLength id length h = .ok () h ∨
      ∃ (c : Cell) (e : Elements) (n : Nat), h.cell? id = some c ∧ c.payload = .array e ∧
        (n ≤ e.capacity ∨ h.liveBytes + (n - e.capacity) * valueBytes ≤ h.limits.maxBytes) ∧
        setArrayLength id length h = .ok () ((h.modifyCell id (Cell.mapElements fun e' =>
          if n ≤ e.items.size then { e' with items := e'.items.shrink n }
          else { items := e'.items ++ Array.replicate (n - e.items.size) Value.hole
                 capacity := max e.capacity n })).refreshFootprint id) := by
  unfold setArrayLength
  cases length.arrayIndex? with
  | none => exact .inl ⟨.invalidArrayLength, nofun, rfl⟩
  | some length =>
    cases hcell : h.cell? id with
    | none =>
      simp only [bind, EStateM.bind, get_apply, hcell]
      exact .inr (.inl rfl)
    | some c =>
      simp only [bind, EStateM.bind, get_apply, hcell]
      cases hp : c.payload with
      | plain | string _ | function _ | activation _ => exact .inr (.inl rfl)
      | array e =>
        by_cases hroom : length.toNat > e.capacity
        · by_cases hm : h.liveBytes + (length.toNat - e.capacity) * valueBytes ≤ h.limits.maxBytes
          · simp only [hroom, if_true, EStateM.bind, reserveBytes_apply, hm]
            exact .inr (.inr ⟨c, e, length.toNat, rfl, hp, .inr hm, rfl⟩)
          · simp only [hroom, if_true, EStateM.bind, reserveBytes_apply, hm, if_false]
            exact .inl ⟨.outOfMemory, nofun, rfl⟩
        · simp only [hroom, if_false]
          exact .inr (.inr ⟨c, e, length.toNat, rfl, hp, .inl (Nat.le_of_not_lt hroom), rfl⟩)

/-- What setting a length leaves: the heap as it was, or an array with fewer or more elements. -/
theorem setArrayLength_cases (h : Heap) (id : Handle) (length : Value) :
    leaves (setArrayLength id length h) = h ∨
      ∃ (c : Cell) (e : Elements) (n : Nat), h.cell? id = some c ∧ c.payload = .array e ∧
        leaves (setArrayLength id length h) = (h.modifyCell id (Cell.mapElements fun e' =>
          if n ≤ e.items.size then { e' with items := e'.items.shrink n }
          else { items := e'.items ++ Array.replicate (n - e.items.size) Value.hole
                 capacity := max e.capacity n })).refreshFootprint id := by
  rcases setArrayLength_fits h id length with ⟨fault, -, heq⟩ | heq | ⟨c, e, n, hcell, he, -, heq⟩
  · exact .inl (by rw [heq]; rfl)
  · exact .inl (by rw [heq]; rfl)
  · exact .inr ⟨c, e, n, hcell, he, by rw [heq]; rfl⟩

theorem setArrayLength_changes (hP : Storable P) (hc : h.Coherent) (id : Handle)
    (length : Value) : Changes P h (leaves (setArrayLength id length h)) := by
  rcases setArrayLength_cases h id length with heq | ⟨c, e, n, hcell, -, heq⟩
  · rw [heq]
    exact .refl
  · rw [heq]
    refine .tail (.single (.elements hc hcell (fun e' v _ hm => ?_)
      fun _ e' v name index _ _ hitem hh => ?_)) (.count id)
    · split at hm
      · rw [Array.shrink_eq_take] at hm
        obtain ⟨i, hi⟩ := Array.mem_iff_getElem?.mp hm
        rw [Array.getElem?_extract] at hi
        split at hi
        · exact .inl (Array.mem_of_getElem? hi)
        · cases hi
      · rcases Array.mem_append.mp hm with hm | hm
        · exact .inl hm
        · rw [(Array.mem_replicate.mp hm).2]
          exact .inr hP.hole
    · left
      split at hitem
      · simp only [Array.shrink_eq_take, Array.getElem?_extract] at hitem
        split at hitem
        · simpa using hitem
        · cases hitem
      · rw [Array.getElem?_append] at hitem
        split at hitem
        · exact hitem
        · have := (Array.mem_replicate.mp (Array.mem_of_getElem? hitem)).2
          rw [this] at hh
          cases hh

/-! ### Properties of any name -/

/-- The name is looked up in the shapes of cells of the kind: it is neither an element nor a
length. -/
structure Named (h : Heap) (kind : CellKind) (name : Atom) : Prop where
  /-- It is no element. -/
  element : kind = .array → h.atoms.arrayIndex? name = none
  /-- It is no length. -/
  length : kind = .array ∨ kind = .string → h.atoms.name name ≠ "length"

/-- What a write to a property does. -/
theorem setProperty_cases (hcell : h.cell? id = some c) (name : Atom) (value : Value) :
    (∃ index, c.kind = .array ∧ h.atoms.arrayIndex? name = some index ∧
      setProperty id name value h = setIndex id index value h) ∨
    (c.kind = .array ∧ h.atoms.name name = "length" ∧ setProperty id name value h =
      (setArrayLength id value >>= fun _ => pure .element : HeapM PutOutcome) h) ∨
    setProperty id name value h = .ok .readOnly h ∨
    h.Named c.kind name ∧ setProperty id name value h = putNamed id name value .none h := by
  cases hk : c.kind with
  | array =>
    cases hi : h.atoms.arrayIndex? name with
    | some index =>
      refine .inl ⟨index, rfl, rfl, ?_⟩
      simp only [setProperty, bind, EStateM.bind, requireCell_some hcell, get_apply, hk, hi]
    | none =>
      by_cases hn : (h.atoms.name name == "length") = true
      · refine .inr (.inl ⟨rfl, by simpa using hn, ?_⟩)
        simp only [setProperty, bind, EStateM.bind, requireCell_some hcell, get_apply, hk, hi, hn, if_true]
      · refine .inr (.inr (.inr ⟨⟨fun _ => hi, fun _ => by simpa using hn⟩, ?_⟩))
        simp only [setProperty, bind, EStateM.bind, requireCell_some hcell, get_apply, hk, hi, hn]
        rfl
  | string =>
    obtain ⟨text, hp⟩ : ∃ text, c.payload = .string text := by
      unfold Cell.kind Payload.kind at hk
      split at hk <;> cases hk
      exact ⟨_, ‹_›⟩
    by_cases hn : (h.atoms.name name == "length") = true
    · refine .inr (.inr (.inl ?_))
      simp only [setProperty, bind, EStateM.bind, requireCell_some hcell, get_apply, hk, synthesized?, hp, hn, if_true, Option.isSome_some]
      rfl
    · refine .inr (.inr (.inr ⟨⟨(fun h => by cases h), fun _ => by simpa using hn⟩, ?_⟩))
      simp only [setProperty, bind, EStateM.bind, requireCell_some hcell, get_apply, hk, synthesized?, hp, hn]
      rfl
  | object | function | activation =>
    refine .inr (.inr (.inr ⟨⟨(fun h => by cases h), fun h => by rcases h with h | h <;> cases h⟩, ?_⟩))
    simp only [setProperty, bind, EStateM.bind, requireCell_some hcell, get_apply, hk]

/-- Such a name is neither an element nor a length of the cell. -/
theorem Named.synthesized? (hn : h.Named c.kind name) : h.synthesized? c name = none := by
  unfold Heap.synthesized?
  cases hp : c.payload with
  | array e =>
    have hk : c.kind = .array := by rw [Cell.kind, hp]; rfl
    simp [hn.element hk, hn.length (.inl hk)]
  | string text =>
    have hk : c.kind = .string := by rw [Cell.kind, hp]; rfl
    simp [hn.length (.inr hk)]
  | plain | function _ | activation _ => rfl

theorem setProperty_named (hcell : h.cell? id = some c) (hn : h.Named c.kind name) :
    setProperty id name value h = putNamed id name value .none h := by
  simp only [setProperty, bind, EStateM.bind, requireCell_some hcell, get_apply]
  cases hk : c.kind with
  | array => simp [hn.element hk, hn.length (.inl hk)]
  | string => simp [hn.synthesized?]
  | object | function | activation => rfl

theorem setProperty_changes (hP : Storable P) (hv : P value) (hc : h.Coherent) (id : Handle)
    (hk : h.atoms.Knows name) : Changes P h (leaves (setProperty id name value h)) := by
  cases hcell : h.cell? id with
  | none =>
    simp only [setProperty, bind, EStateM.bind, requireCell_none hcell]
    exact .refl
  | some c =>
    rcases setProperty_cases hcell name value with
      ⟨index, -, -, heq⟩ | ⟨-, -, heq⟩ | heq | ⟨hnamed, heq⟩
    · rw [heq]
      exact setIndex_changes hP hv hc id index
    · have := setArrayLength_changes hP hc id value
      rw [heq]
      cases hset : setArrayLength id value h <;>
        simpa [hset, leaves, bind, EStateM.bind, pure, EStateM.pure] using this
    · rw [heq]
      exact .refl
    · rw [heq]
      refine putNamed_changes hP hv hc hk fun _ c' index hcell' hi hfill => ?_
      obtain rfl : c = c' := Option.some.inj (hcell.symm.trans hcell')
      refine Cell.not_filled (fun hkind => ?_) index.toNat hfill
      rw [hnamed.element hkind] at hi
      cases hi

/-- Redefining a property gives it a value and attributes. -/
theorem redefine_change (hP : Storable P) (hv : P value) (hc : h.Coherent)
    (hcell : h.cell? id = some c) (name : Atom) (offset : Nat) (attributes : Attributes) :
    Change P h ({ h with shapes := (h.shapes.changeAttributes c.shape name attributes).2 }.modifyCell
      id fun cell => { cell.setSlot offset value with
        shape := (h.shapes.changeAttributes c.shape name attributes).1 }) := by
  obtain ⟨hm, hp, he⟩ :=
    ShapeTable.changeAttributes_spec hc.shapes (hc.live id c hcell) name attributes
  generalize h.shapes.changeAttributes c.shape name attributes = result at *
  refine .update hcell (.slot hP hv _ hm (fun q hq => ?_) (fun hfit name' index hi hfill => ?_) hp)
  · rw [he, (hc.shapes.indexed _).setAttributes_properties] at hq
    obtain ⟨q', hq', rfl⟩ := Array.mem_map.mp hq
    have := hc.named id c q' hcell hq'
    split <;> exact this
  · rw [((hc.shapes.indexed _).setAttributes name attributes).lookup?_congr
      (hm.grows.ordered.indexed _) he, (hc.shapes.indexed _).lookup?_setAttributes]
    have := hc.single hfit id c name' index hcell hi hfill
    unfold ShapeTable.lookup? at this
    rw [this]
    rfl

/-- What defining a property leaves, after its element was cleared: a property is added, gets a value,
or gets a value and other attributes. -/
theorem defineProperty_cases (hcell : h.cell? id = some c) (name : Atom) (value : Value)
    (attributes : Attributes) :
    (h.shapes.lookup? c.shape name = none ∧ leaves (defineProperty id name value attributes h) =
      leaves (putNamed id name value attributes (h.clearElement id name))) ∨
    ∃ p, h.shapes.lookup? c.shape name = some p ∧
      (p.attributes = attributes ∧ leaves (defineProperty id name value attributes h) =
        (h.clearElement id name).modifyCell id (·.setSlot p.offset value) ∨
      p.attributes ≠ attributes ∧ leaves (defineProperty id name value attributes h) =
        { h.clearElement id name with
          shapes := (h.shapes.changeAttributes c.shape name attributes).2 }.modifyCell id fun cell =>
            { cell.setSlot p.offset value with
              shape := (h.shapes.changeAttributes c.shape name attributes).1 }) := by
  obtain ⟨c', hcell', hshape, hshapes, -, -⟩ := clearElement_cell hcell name
  cases hl : h.shapes.lookup? c.shape name with
  | none =>
    refine .inl ⟨rfl, ?_⟩
    simp only [defineProperty, bind, EStateM.bind, requireCell_some hcell, get_apply, modify_apply,
      hshapes, hl]
    cases hput : putNamed id name value attributes (h.clearElement id name) <;>
      simp [discard, Functor.mapConst, EStateM.map, hput, leaves]
  | some p =>
    refine .inr ⟨p, rfl, ?_⟩
    by_cases ha : p.attributes = attributes
    · refine .inl ⟨ha, ?_⟩
      rw [modifyCell_congr (g := fun cell => { cell.setSlot p.offset value with
        shape := c.shape }) hcell' (by rw [← hshape, ← (c'.setSlot_frame p.offset value).1])]
      simp only [defineProperty, bind, EStateM.bind, requireCell_some hcell, get_apply, modify_apply,
        hshapes, hl, beq_iff_eq, ha, if_true, pure, EStateM.pure]
      rfl
    · refine .inr ⟨ha, ?_⟩
      simp only [defineProperty, bind, EStateM.bind, requireCell_some hcell, get_apply, modify_apply,
        hshapes, hl, beq_iff_eq, ha, if_false, modifyGet_apply]
      rfl

theorem defineProperty_changes (hP : Storable P) (hv : P value) (hc : h.Coherent) (id : Handle)
    (hk : h.atoms.Knows name) (attributes : Attributes) :
    Changes P h (leaves (defineProperty id name value attributes h)) := by
  cases hcell : h.cell? id with
  | none =>
    simp only [defineProperty, bind, EStateM.bind, requireCell_none hcell]
    exact .refl
  | some c =>
    have hclear := clearElement_changes hP hc id name
    obtain ⟨hc', -⟩ := hclear.coherent hc
    obtain ⟨c', hcell', hshape, hshapes, hatoms, hfree⟩ := clearElement_cell hcell name
    refine .trans hclear ?_
    rw [← hatoms] at hk hfree
    rcases defineProperty_cases hcell name value attributes with
      ⟨-, heq⟩ | ⟨p, -, ⟨-, heq⟩ | ⟨-, heq⟩⟩
    · rw [heq]
      refine putNamed_changes hP hv hc' hk fun _ c'' index hcell'' => ?_
      obtain rfl : c' = c'' := Option.some.inj (hcell'.symm.trans hcell'')
      exact hfree index
    · rw [heq]
      exact .single (.slot hP hv hc' hcell' p.offset)
    · have hstep := redefine_change hP hv hc' hcell' name p.offset attributes
      rw [hshape, hshapes] at hstep
      rw [heq]
      exact .single hstep

/-- The last part of a deletion: the named property of a cell goes, if there is one that may be deleted. -/
def deleteNamed (h : Heap) (id : Handle) (c : Cell) (name : Atom) : HeapM Bool :=
  if (h.synthesized? c name).isSome then pure false
  else match h.shapes.lookup? c.shape name with
    | none => pure true
    | some p =>
      if p.attributes.dontDelete then pure false
      else do
        modify (·.removeNamed id c.shape name)
        pure true

theorem deleteNamed_cases (h : Heap) (id : Handle) (c : Cell) (name : Atom) :
    ∃ deleted, h.deleteNamed id c name h = .ok deleted h ∨
      h.deleteNamed id c name h = .ok deleted (h.removeNamed id c.shape name) := by
  unfold deleteNamed
  split
  · exact ⟨_, .inl rfl⟩
  · cases h.shapes.lookup? c.shape name with
    | none => exact ⟨_, .inl rfl⟩
    | some p =>
      dsimp only
      split
      · exact ⟨_, .inl rfl⟩
      · exact ⟨_, .inr rfl⟩

/-- What deleting a property leaves: the heap as it was, or without an element or a property. -/
theorem deleteProperty_cases (hcell : h.cell? id = some c) (name : Atom) :
    leaves (deleteProperty id name h) = h ∨
    leaves (deleteProperty id name h) = h.clearElement id name ∨
    leaves (deleteProperty id name h) = h.removeNamed id c.shape name := by
  simp only [deleteProperty, bind, EStateM.bind, requireCell_some hcell, get_apply]
  have hrest : leaves (h.deleteNamed id c name h) = h ∨
      leaves (h.deleteNamed id c name h) = h.removeNamed id c.shape name := by
    obtain ⟨_, heq | heq⟩ := deleteNamed_cases h id c name
    · exact .inl (by rw [heq]; rfl)
    · exact .inr (by rw [heq]; rfl)
  cases h.atoms.arrayIndex? name with
  | none => exact hrest.imp_right .inr
  | some index =>
    by_cases hd : (h.denseElement? id index).isSome = true
    · simp only [hd, if_true]
      exact .inr (.inl rfl)
    · simp only [hd]
      exact hrest.imp_right .inr

theorem deleteProperty_changes (hP : Storable P) (hc : h.Coherent) (id : Handle) (name : Atom) :
    Changes P h (leaves (deleteProperty id name h)) := by
  cases hcell : h.cell? id with
  | none =>
    simp only [deleteProperty, bind, EStateM.bind, requireCell_none hcell]
    exact .refl
  | some c =>
    rcases deleteProperty_cases hcell name with heq | heq | heq
    · rw [heq]
      exact .refl
    · rw [heq]
      exact clearElement_changes hP hc id name
    · rw [heq]
      exact .single (removeNamed_change hP hc hcell name)

/-- The last part of a change of prototype: the cell moves to another shape, unless the prototype chain
would be too long or come back to the cell. -/
def movePrototype (h : Heap) (id : Handle) (shape : ShapeId) (prototype : Value) : HeapM Unit :=
  match h.checkChain id maxPrototypeChain prototype with
  | .error fault => throw fault
  | .ok () => modify fun h =>
    let (target, shapes) := h.shapes.changePrototype shape prototype
    { h with shapes }.modifyCell id fun cell => { cell with shape := target }

/-- What a change of prototype leaves: the heap as it was, or the cell at another shape. -/
theorem setPrototype_cases (hcell : h.cell? id = some c) (prototype : Value) :
    leaves (setPrototype id prototype h) = h ∨
    leaves (setPrototype id prototype h) = { h with
      shapes := (h.shapes.changePrototype c.shape prototype).2 }.modifyCell id fun cell =>
        { cell with shape := (h.shapes.changePrototype c.shape prototype).1 } := by
  have hlast : leaves (h.movePrototype id c.shape prototype h) = h ∨
      leaves (h.movePrototype id c.shape prototype h) = { h with
        shapes := (h.shapes.changePrototype c.shape prototype).2 }.modifyCell id fun cell =>
          { cell with shape := (h.shapes.changePrototype c.shape prototype).1 } := by
    unfold movePrototype
    cases h.checkChain id maxPrototypeChain prototype with
    | error fault => exact .inl rfl
    | ok _ => exact .inr rfl
  simp only [setPrototype, bind, EStateM.bind, requireCell_some hcell, get_apply]
  by_cases hn : (!prototype.isNull) = true
  · simp only [hn, if_true]
    cases hcp : h.cellOf? prototype with
    | none => exact .inl rfl
    | some cell =>
      by_cases hobj : (!cell.kind.isObject) = true
      · simp only [hobj, if_true]
        exact .inl rfl
      · simp only [hobj]
        exact hlast
  · simp only [hn]
    exact hlast

/-- A change of prototype is none of the steps, and keeps a heap coherent as well. -/
theorem setPrototype_coherent (hc : h.Coherent) (id : Handle) (prototype : Value) :
    (leaves (setPrototype id prototype h)).Coherent ∧ h.Evolves (leaves (setPrototype id prototype h)) := by
  cases hcell : h.cell? id with
  | none =>
    simp only [setPrototype, bind, EStateM.bind, requireCell_none hcell]
    exact ⟨hc, .refl h⟩
  | some c =>
    rcases setPrototype_cases hcell prototype with heq | heq
    · rw [heq]
      exact ⟨hc, .refl h⟩
    · rw [heq]
      obtain ⟨hm, -, he⟩ :=
        ShapeTable.changePrototype_spec hc.shapes (hc.live id c hcell) prototype
      generalize h.shapes.changePrototype c.shape prototype = result at *
      refine hc.move hcell hm rfl rfl (fun p hmem => ?_) fun hfit name index hi hfill => ?_
      · rw [he] at hmem
        exact hc.named id c p hcell hmem
      · rw [(hc.shapes.indexed _).lookup?_congr (hm.grows.ordered.indexed _) he]
        exact hc.single hfit id c name index hcell hi hfill

end Heap

end ScriptMachine
