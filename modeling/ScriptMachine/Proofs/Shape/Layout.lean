import ScriptMachine.Proofs.Shape.Integrity
import Mathlib.Data.List.InsertIdx
import Mathlib.Data.List.Perm.Basic

/-! # The layout of storage

A shape lays out the storage of its cells: each slot is the offset of one property or free, and a
shared shape, from which nothing was ever removed, stores its properties one after the other
(`Shape.Stored`). It has as many properties as there were additions, which are not too many
(`Shape.Laid`). Transitions keep all shapes of a table laid out so, and a cell that moves along one
finds room: the shape it moves to lays out as many slots as the one it leaves, or enough for the
property that was added (`ShapeTable.Lays`). Live shapes stay as they are, but for dictionaries, which
may get more slots (`ShapeTable.Widens`). -/

namespace ScriptMachine

namespace Shape

/-- The offsets of the properties, in the order of their addition. -/
def offsets (s : Shape) : List Nat := s.properties.toList.map (·.offset)

/-- **Where a shape stores properties.** -/
structure Stored (s : Shape) : Prop where
  /-- The offsets of the properties and the free ones are the slots, each once. -/
  filled : (s.offsets ++ s.freeOffsets).Perm (List.range s.slotCount)
  /-- The properties of a shared shape were stored one after the other. -/
  packed : s.dictionary = false → s.freeOffsets = [] ∧ s.slotCount = s.properties.size ∧
    ∀ (i : Nat) (p : Property), s.properties[i]? = some p → p.offset = i

/-- **A shape that is laid out.** -/
structure Laid (s : Shape) : Prop extends Stored s where
  /-- The properties of a shared shape were added one by one, and are not too many. -/
  counted : s.reclaimed = false → s.dictionary = false →
    s.transitionCount = s.properties.size ∧ s.properties.size ≤ maxTransitionLength

variable {s s' : Shape} {name : Atom}

theorem mem_offsets {offset : Nat} :
    offset ∈ s.offsets ↔ ∃ p ∈ s.properties, p.offset = offset := by
  simp [offsets, Array.mem_toList_iff]

/-- Properties are stored in slots. -/
theorem Stored.used (hs : s.Stored) {p : Property} (hp : p ∈ s.properties) :
    p.offset < s.slotCount :=
  List.mem_range.mp (hs.filled.subset (List.mem_append_left _ (mem_offsets.mpr ⟨p, hp, rfl⟩)))

/-- No offset is that of two properties, of a property and free, or free twice. -/
theorem Stored.nodup (hs : s.Stored) : (s.offsets ++ s.freeOffsets).Nodup :=
  hs.filled.nodup_iff.mpr List.nodup_range

theorem Stored.congr (hs : s.Stored) (hp : s'.properties = s.properties)
    (hf : s'.freeOffsets = s.freeOffsets) (hc : s'.slotCount = s.slotCount)
    (hd : s'.dictionary = false → s.dictionary = false) : s'.Stored where
  filled := by rw [offsets, hp, hf, hc]; exact hs.filled
  packed h := by rw [hp, hf, hc]; exact hs.packed (hd h)

/-- Only shared shapes count their additions. -/
theorem Stored.laid (hs : s.Stored) (hd : s.dictionary = true) : s.Laid :=
  ⟨hs, fun _ h => by rw [hd] at h; cases h⟩

theorem laid_empty (hp : s.properties = #[]) (hf : s.freeOffsets = []) (hc : s.slotCount = 0)
    (ht : s.reclaimed = false → s.transitionCount = 0) : s.Laid where
  filled := by simp [offsets, hp, hf, hc]
  packed _ := by simp [hp, hf, hc]
  counted h _ := by simp [hp, ht h]

/-- **A new property** is stored in a freed slot or in a new one. -/
theorem Stored.insert (hs : s.Stored) (name : Atom) (attributes : Attributes) :
    (s.insert name attributes).2.Stored ∧
      (s.insert name attributes).2.slotCount =
        max s.slotCount ((s.insert name attributes).1 + 1) := by
  have hfilled := hs.filled
  unfold Shape.insert
  cases hf : s.freeOffsets with
  | nil =>
    refine ⟨⟨?_, fun hd => ?_⟩, by dsimp only; omega⟩
    · rw [hf, List.append_nil] at hfilled
      simpa [offsets, hf, List.range_succ] using hfilled.append_right [s.slotCount]
    · obtain ⟨-, hc, hi⟩ := hs.packed hd
      refine ⟨rfl, by simp [hc], fun i p hp => ?_⟩
      rw [Array.getElem?_push] at hp
      split at hp
      case isTrue hsize =>
        obtain rfl := Option.some.inj hp
        exact hc.trans hsize.symm
      case isFalse => exact hi i p hp
  | cons offset rest =>
    rw [hf] at hfilled
    have hoffset : offset < s.slotCount :=
      List.mem_range.mp (hfilled.subset (List.mem_append_right _ List.mem_cons_self))
    refine ⟨⟨?_, fun hd => ?_⟩, by dsimp only; omega⟩
    · simpa [offsets] using hfilled
    · -- nothing was ever removed from a shared shape
      have := (hs.packed hd).1
      rw [hf] at this
      cases this

theorem slotCount_remove (s : Shape) (name : Atom) : (s.remove name).slotCount = s.slotCount := by
  unfold remove
  cases s.index[name]? with
  | none => rfl
  | some position =>
    dsimp only
    cases s.properties[position]? <;> rfl

/-- Removing a property from a dictionary frees its slot. -/
theorem Stored.remove (hs : s.Stored) (hx : s.Indexed) (hd : s.dictionary = true) (name : Atom) :
    (s.remove name).Stored := by
  cases hi : s.index[name]? with
  | none =>
    rw [remove_of_none hi]
    exact hs
  | some i =>
    obtain ⟨p, hp, -⟩ := (hx name i).mp hi
    obtain ⟨hlt, hget⟩ := Array.getElem?_eq_some_iff.mp hp
    rw [remove_of_index hi hp]
    refine ⟨?_, fun h => by rw [hd] at h; cases h⟩
    have hoffsets : (s.properties.eraseIdxIfInBounds i).toList.map (·.offset) =
        s.offsets.eraseIdx i := by
      rw [Array.eraseIdxIfInBounds_eq, dif_pos hlt, Array.toList_eraseIdx, ← List.eraseIdx_map,
        offsets]
    have hi' : i < s.offsets.length := by simpa [offsets] using hlt
    have hmoved : (s.offsets.eraseIdx i ++ p.offset :: s.freeOffsets).Perm
        (s.offsets ++ s.freeOffsets) := by
      have hself : s.offsets[i] = p.offset := by simp [offsets, ← hget]
      have hback := List.getElem_cons_eraseIdx_perm hi'
      rw [hself] at hback
      exact List.perm_middle.trans (hback.append_right s.freeOffsets)
    simp only [offsets, hoffsets]
    exact hmoved.trans hs.filled

theorem setAttributes_slots (s : Shape) (name : Atom) (attributes : Attributes) :
    (s.setAttributes name attributes).slotCount = s.slotCount ∧
    (s.setAttributes name attributes).freeOffsets = s.freeOffsets := by
  unfold setAttributes
  split <;> exact ⟨rfl, rfl⟩

theorem Stored.setAttributes (hs : s.Stored) (hx : s.Indexed) (name : Atom)
    (attributes : Attributes) : (s.setAttributes name attributes).Stored := by
  have hoffset (p : Property) :
      (if p.name == name then { p with attributes } else p).offset = p.offset := by
    split <;> rfl
  have hmap := hx.setAttributes_properties name attributes
  obtain ⟨hcount, hfree⟩ := s.setAttributes_slots name attributes
  refine ⟨?_, fun hd => ?_⟩
  · have hoffsets : (s.setAttributes name attributes).offsets = s.offsets := by
      rw [offsets, hmap, Array.toList_map, List.map_map]
      exact List.map_congr_left fun p _ => hoffset p
    rw [hoffsets, hfree, hcount]
    exact hs.filled
  · rw [(s.setAttributes_frame name attributes).2.2.1] at hd
    obtain ⟨hf, hc, hi⟩ := hs.packed hd
    refine ⟨hfree.trans hf, by rw [hcount, hmap, Array.size_map, hc], fun i p hp => ?_⟩
    rw [hmap, Array.getElem?_map] at hp
    obtain ⟨q, hq, rfl⟩ := Option.map_eq_some_iff.mp hp
    rw [hoffset]
    exact hi i q hq

/-- A shared shape that got a property has it in its last slot. -/
theorem Stored.last (hs : s'.Stored) (hd : s'.dictionary = false) {p : Property}
    (hp : s'.properties = s.properties.push p) :
    p.offset = s.properties.size ∧ s'.slotCount = p.offset + 1 := by
  obtain ⟨-, hc, hi⟩ := hs.packed hd
  have := hi s.properties.size p (by simp [hp])
  rw [hp, Array.size_push] at hc
  omega

end Shape

namespace ShapeTable

/-- **A table whose shapes are laid out.** -/
def Laid (t : ShapeTable) : Prop := ∀ id, (t.get id).Laid

/-- **A table with wider shapes**: live shapes stay as they are, but for dictionaries, which may have
got more slots. -/
def Widens (t t' : ShapeTable) : Prop :=
  ∀ id, t.isLive id = true → t'.isLive id = true ∧ (t'.get id = t.get id ∨
    (t.get id).dictionary = true ∧ (t'.get id).dictionary = true ∧
      (t'.get id).kind = (t.get id).kind ∧ (t.get id).slotCount ≤ (t'.get id).slotCount)

/-- **Where a cell moves to**: in a table that is laid out and as wide as before, a shape with so many
slots. -/
structure Lays (t t' : ShapeTable) (target : ShapeId) (room : Nat) : Prop where
  /-- The shapes are laid out. -/
  laid : t'.Laid
  /-- They are as wide as before. -/
  widens : t.Widens t'
  /-- The shape has so many slots. -/
  room : (t'.get target).slotCount = room

variable {t t' t'' : ShapeTable} {id source target : ShapeId} {room : Nat}

theorem laid_new : ({} : ShapeTable).Laid := fun _ => Shape.laid_empty rfl rfl rfl fun _ => rfl

theorem Widens.refl (t : ShapeTable) : t.Widens t := fun _ hl => ⟨hl, .inl rfl⟩

theorem Widens.trans (h₁ : t.Widens t') (h₂ : t'.Widens t'') : t.Widens t'' := by
  intro id hl
  obtain ⟨hl', h₁⟩ := h₁ id hl
  obtain ⟨hl'', h₂⟩ := h₂ id hl'
  refine ⟨hl'', ?_⟩
  rcases h₂ with h₂ | ⟨hd, hd', hk, hc⟩
  · rwa [h₂]
  · rcases h₁ with h₁ | ⟨hd₁, -, hk₁, hc₁⟩
    · rw [h₁] at hd hk hc
      exact .inr ⟨hd, hd', hk, hc⟩
    · exact .inr ⟨hd₁, hd', hk.trans hk₁, Nat.le_trans hc₁ hc⟩

/-- A table that only got new shapes. -/
theorem Grows.widens (hg : t.Grows (fun _ => False) t') : t.Widens t' := fun id hl =>
  have ⟨hl', hget⟩ := hg.keeps id hl fun h => h
  ⟨hl', .inl hget⟩

/-! ### Storing and changing -/

theorem Laid.push (ht : t.Laid) (ho : t.Ordered) {s : Shape} (hr : s.reclaimed = false)
    (hs : s.Laid) (hx : s.Indexed) : t.Lays (t.push s).2 (t.push s).1 s.slotCount := by
  obtain ⟨-, -, hget, hother, -⟩ := push_spec ho hr
  refine ⟨fun id => ?_, (Grows.push ho hr hx).widens, by rw [hget]⟩
  by_cases hid : id = (t.push s).1
  · rw [hid, hget]
    exact hs
  · rw [(hother id hid).2]
    exact ht id

/-- Changing the dictionary a cell has moved to. -/
theorem Lays.modify (hm : t.Lays t' target room) (hl : t'.isLive target = true)
    (hd : (t'.get target).dictionary = true) {f : Shape → Shape}
    (hf : ∀ s, (f s).reclaimed = s.reclaimed ∧ (f s).kind = s.kind ∧
      (f s).dictionary = s.dictionary)
    (hs : (f (t'.get target)).Stored) {room' : Nat} (hroom : (f (t'.get target)).slotCount = room')
    (hle : room ≤ room') : t.Lays (t'.modify target f) target room' := by
  have hself := get_modify_self f hl
  refine ⟨fun id => ?_, hm.widens.trans fun id hid => ⟨?_, ?_⟩, by rw [hself, hroom]⟩
  · by_cases h : id = target
    · rw [h, hself]
      exact hs.laid ((hf _).2.2.trans hd)
    · rw [get_modify_of_ne f h]
      exact hm.laid id
  · rw [isLive_modify f fun s => (hf s).1]
    exact hid
  · by_cases h : id = target
    · subst h
      rw [hself, (hf _).2.1, (hf _).2.2, hroom, hm.room]
      exact .inr ⟨hd, hd, rfl, hle⟩
    · rw [get_modify_of_ne f h]
      exact .inl rfl

theorem Laid.stay (ht : t.Laid) (source : ShapeId) : t.Lays t source (t.get source).slotCount :=
  ⟨ht, .refl t, rfl⟩

theorem Laid.toDictionary (ht : t.Laid) (ho : t.Ordered) (hl : t.isLive source = true) :
    t.Lays (t.toDictionary source).2 (t.toDictionary source).1 (t.get source).slotCount := by
  have hlaid : Shape.Laid { t.get source with previous := some source, dictionary := true } :=
    Shape.Stored.laid ((ht source).toStored.congr rfl rfl rfl fun h => Bool.noConfusion h) rfl
  exact ht.push ho (s := { t.get source with previous := some source, dictionary := true })
    (isLive_iff.mp hl).2 hlaid (ho.indexed source)

theorem Laid.ensureDictionary (ht : t.Laid) (ho : t.Ordered) (hl : t.isLive source = true) :
    t.Lays (t.ensureDictionary source).2 (t.ensureDictionary source).1
      (t.get source).slotCount := by
  unfold ShapeTable.ensureDictionary
  split
  case isTrue => exact ht.stay source
  case isFalse => exact ht.toDictionary ho hl

/-! ### Transitions -/

theorem Laid.root (ht : t.Laid) (ho : t.Ordered) (kind : CellKind) (prototype : Value) :
    (t.root kind prototype).2.Laid ∧ t.Widens (t.root kind prototype).2 := by
  refine ⟨?_, (root_spec ho kind prototype).1.widens⟩
  unfold ShapeTable.root
  cases t.roots[(kind, prototype)]? with
  | some id => exact ht
  | none =>
    exact (ht.push ho rfl (Shape.laid_empty rfl rfl rfl fun _ => rfl) (.of_empty rfl rfl)).laid

theorem Lays.insertInPlace (hm : t.Lays t' target room) (hl : t'.isLive target = true)
    (hd : (t'.get target).dictionary = true) (name : Atom) (attributes : Attributes) :
    t.Lays (t'.insertInPlace target name attributes).2.2
      (t'.insertInPlace target name attributes).1
      (max room ((t'.insertInPlace target name attributes).2.1 + 1)) := by
  obtain ⟨hs, hc⟩ := (hm.laid target).toStored.insert name attributes
  refine hm.modify hl hd (fun s => ?_) hs (hc.trans ?_) (Nat.le_max_left _ _)
  · obtain ⟨hr, hk, hdict, -⟩ := Shape.insert_frame s name attributes
    exact ⟨hr, hk, hdict⟩
  · rw [hm.room]
    rfl

/-- **Adding a property** whose name is new leads to a shape with a slot for it. -/
theorem Laid.addProperty (ht : t.Laid) (ho : t.Ordered) (hl : t.isLive source = true) {name : Atom}
    (hn : t.lookup? source name = none) (attributes : Attributes) :
    t.Lays (t.addProperty source name attributes).2.2 (t.addProperty source name attributes).1
      (max (t.get source).slotCount ((t.addProperty source name attributes).2.1 + 1)) := by
  have hadds := addProperty_spec ho hl hn attributes
  unfold ShapeTable.addProperty at hadds ⊢
  dsimp only at hadds ⊢
  cases hd : (t.get source).dictionary with
  | true =>
    rw [if_pos rfl]
    exact (ht.stay source).insertInPlace hl hd name attributes
  | false =>
    rw [hd, if_neg (by simp)] at hadds
    rw [if_neg (by simp)]
    cases ha : t.additions[(source, name, attributes)]? with
    | some target =>
      -- a listed edge leads to a shared shape, which has the property in its last slot
      rw [ha] at hadds
      obtain ⟨-, htarget, -⟩ := ho.addition _ _ _ _ ha
      obtain ⟨hoffset, hc⟩ := (ht target).last htarget.2 hadds.properties
      obtain ⟨-, hcs, -⟩ := (ht source).packed hd
      refine ⟨ht, .refl t, hc.trans ?_⟩
      dsimp only at hoffset hc ⊢
      omega
    | none =>
      dsimp only
      split
      case isTrue =>
        obtain ⟨hm, hdict, -, -⟩ := toDictionary_spec ho hl
        exact (ht.toDictionary ho hl).insertInPlace hm.live hdict name attributes
      case isFalse =>
        obtain ⟨hr, -, -, -⟩ := Shape.insert_frame (t.get source) name attributes
        obtain ⟨hs, hc⟩ := (ht source).toStored.insert name attributes
        have hcount := (ht source).counted (isLive_iff.mp hl).2 hd
        have hlaid : Shape.Laid { ((t.get source).insert name attributes).2 with
            previous := some source
            transitionCount := (t.get source).transitionCount + 1 } := by
          refine ⟨hs.congr rfl rfl rfl id, fun _ _ => ?_⟩
          simp only [Shape.insert_properties, Array.size_push]
          omega
        obtain ⟨hlaid, hwidens, hroom⟩ := ht.push ho
          (s := { ((t.get source).insert name attributes).2 with
            previous := some source
            transitionCount := (t.get source).transitionCount + 1 })
          (hr.trans (isLive_iff.mp hl).2) hlaid ((ho.indexed source).insert hn attributes)
        exact ⟨hlaid, hwidens, hroom.trans hc⟩

/-- **Removing a property** keeps its slot. -/
theorem Laid.removeProperty (ht : t.Laid) (ho : t.Ordered) (hl : t.isLive source = true)
    (name : Atom) :
    t.Lays (t.removeProperty source name).2.2 (t.removeProperty source name).1
      (t.get source).slotCount := by
  obtain ⟨hm, hd, -, -⟩ := ensureDictionary_spec ho hl
  have hlays := ht.ensureDictionary ho hl
  refine hlays.modify hm.live hd (fun s => ?_)
    ((hlays.laid _).toStored.remove (hm.grows.ordered.indexed _) hd name)
    ((Shape.slotCount_remove _ name).trans hlays.room) (Nat.le_refl _)
  obtain ⟨hr, hk, hdict, -⟩ := s.remove_frame name
  exact ⟨hr, hk, hdict⟩

/-- **Changing attributes** keeps the slots. -/
theorem Laid.changeAttributes (ht : t.Laid) (ho : t.Ordered) (hl : t.isLive source = true)
    (name : Atom) (attributes : Attributes) :
    t.Lays (t.changeAttributes source name attributes).2
      (t.changeAttributes source name attributes).1 (t.get source).slotCount := by
  obtain ⟨hm, hd, -, -⟩ := ensureDictionary_spec ho hl
  have hlays := ht.ensureDictionary ho hl
  refine hlays.modify hm.live hd (fun s => ?_)
    ((hlays.laid _).toStored.setAttributes (hm.grows.ordered.indexed _) name attributes)
    ((Shape.setAttributes_slots _ name attributes).1.trans hlays.room) (Nat.le_refl _)
  obtain ⟨hr, hk, hdict, -⟩ := s.setAttributes_frame name attributes
  exact ⟨hr, hk, hdict⟩

/-- **Changing the prototype** keeps the slots. -/
theorem Laid.changePrototype (ht : t.Laid) (hi : t.Intact) (hl : t.isLive source = true)
    (prototype : Value) :
    t.Lays (t.changePrototype source prototype).2 (t.changePrototype source prototype).1
      (t.get source).slotCount := by
  unfold ShapeTable.changePrototype
  dsimp only
  split
  case isTrue hd =>
    refine (ht.stay source).modify hl hd (fun s => ?_) ((ht source).toStored.congr rfl rfl rfl id)
      rfl (Nat.le_refl _)
    exact ⟨rfl, rfl, rfl⟩
  case isFalse =>
    cases hc : t.prototypeChanges[(source, prototype)]? with
    | some target =>
      refine ⟨ht, .refl t, ?_⟩
      rw [hi.changed _ _ hc]
    | none =>
      obtain ⟨hlaid, hwidens, hroom⟩ := ht.push hi.toOrdered
        (s := { t.get source with previous := some source, prototype })
        (isLive_iff.mp hl).2 ⟨(ht source).toStored.congr rfl rfl rfl id, (ht source).counted⟩
        (hi.indexed source)
      exact ⟨hlaid, hwidens, hroom⟩

/-! ### Sweeps -/

/-- A swept table is laid out. -/
theorem Laid.sweep (ht : t.Laid) (inUse : List ShapeId) (alive : Value → Bool) :
    (t.sweep inUse alive).2.Laid := by
  intro id
  cases hl : t.isLive id with
  | false =>
    rw [sweep_get t inUse alive id (.inr hl)]
    exact ht id
  | true =>
    cases hk : t.keeps inUse alive id with
    | true =>
      rw [sweep_get t inUse alive id (.inl hk)]
      exact ht id
    | false =>
      rw [sweep_get_reclaimed t inUse alive hl hk]
      exact Shape.laid_empty rfl rfl rfl nofun

end ShapeTable

end ScriptMachine
