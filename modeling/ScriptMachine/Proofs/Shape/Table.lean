import ScriptMachine.Shape.Table
import Mathlib.Data.List.Nodup

/-! # The order of a table of shapes

A table is in order (`ShapeTable.Ordered`) when its free list names reclaimed shapes, each once, and
its edges join shared shapes that differ as the edge says. A shared shape is never changed, so what
is known of it stays true until it is reclaimed: every operation only lets the table grow
(`ShapeTable.Grows`), and the one shape it may change in place is the dictionary it was given. -/

namespace ScriptMachine

namespace Shape

variable {s s' : Shape} {name other : Atom} {p : Property}

/-! ### The index of a shape -/

/-- **The index of a shape is exact**: it lists each name at the position of the property of that
name, and nothing else. -/
def Indexed (s : Shape) : Prop :=
  ∀ name position, s.index[name]? = some position ↔
    ∃ p : Property, s.properties[position]? = some p ∧ p.name = name

theorem Indexed.of_empty (hp : s.properties = #[]) (hi : s.index = {}) : s.Indexed := by
  intro name position
  simp [hp, hi]

/-- No two properties share a name. -/
theorem Indexed.distinct (hs : s.Indexed) {i j : Nat} {p q : Property}
    (hp : s.properties[i]? = some p) (hq : s.properties[j]? = some q) (h : p.name = q.name) :
    i = j := by
  have hi := (hs q.name i).mpr ⟨p, hp, h⟩
  have hj := (hs q.name j).mpr ⟨q, hq, rfl⟩
  exact Option.some.inj (hi.symm.trans hj)

theorem Indexed.names_nodup (hs : s.Indexed) : (s.properties.toList.map (·.name)).Nodup := by
  refine List.nodup_iff_injective_get.mpr fun i j h => Fin.ext ?_
  have hi : i.val < s.properties.size := by simpa using i.isLt
  have hj : j.val < s.properties.size := by simpa using j.isLt
  refine hs.distinct (Array.getElem?_eq_getElem hi) (Array.getElem?_eq_getElem hj) ?_
  simpa using h

/-- Exact indices of the same properties agree. -/
theorem Indexed.index_congr (hs : s.Indexed) (hs' : s'.Indexed)
    (h : s'.properties = s.properties) (name : Atom) : s'.index[name]? = s.index[name]? := by
  refine Option.ext fun position => ?_
  rw [hs' name position, hs name position, h]

theorem mem_of_lookup? (h : s.lookup? name = some p) : p ∈ s.properties := by
  unfold lookup? at h
  split at h
  · exact Array.mem_of_getElem? h
  · cases h

theorem Indexed.lookup?_eq_some (hs : s.Indexed) :
    s.lookup? name = some p ↔ p ∈ s.properties ∧ p.name = name := by
  constructor
  · intro h
    refine ⟨mem_of_lookup? h, ?_⟩
    unfold lookup? at h
    split at h
    case h_1 position hi =>
      obtain ⟨q, hq, hname⟩ := (hs name position).mp hi
      obtain rfl := Option.some.inj (h.symm.trans hq)
      exact hname
    case h_2 => cases h
  · rintro ⟨hmem, rfl⟩
    obtain ⟨position, hp⟩ := Array.mem_iff_getElem?.mp hmem
    rw [lookup?, (hs p.name position).mpr ⟨p, hp, rfl⟩]
    exact hp

theorem Indexed.name_of_lookup? (hs : s.Indexed) (h : s.lookup? name = some p) :
    p ∈ s.properties ∧ p.name = name := hs.lookup?_eq_some.mp h

theorem Indexed.lookup?_eq_none (hs : s.Indexed) :
    s.lookup? name = none ↔ ∀ p ∈ s.properties, p.name ≠ name := by
  refine ⟨fun h p hp hname => ?_, fun h => ?_⟩
  · rw [hs.lookup?_eq_some.mpr ⟨hp, hname⟩] at h
    cases h
  · cases hl : s.lookup? name with
    | none => rfl
    | some p => exact absurd (hs.name_of_lookup? hl).2 (h p (hs.name_of_lookup? hl).1)

/-- The lookup in a shape that has one more property, new in name. -/
theorem Indexed.lookup?_push (hs : s.Indexed) (hs' : s'.Indexed)
    (h : s'.properties = s.properties.push p) (hn : s.lookup? p.name = none) :
    s'.lookup? other = if other = p.name then some p else s.lookup? other := by
  refine Option.ext fun q => ?_
  rw [hs'.lookup?_eq_some, h, Array.mem_push]
  by_cases ho : other = p.name
  · rw [if_pos ho, Option.some.injEq]
    constructor
    · rintro ⟨hq | rfl, hname⟩
      · exact absurd (hname.trans ho) (hs.lookup?_eq_none.mp hn q hq)
      · rfl
    · rintro rfl
      exact ⟨.inr rfl, ho.symm⟩
  · rw [if_neg ho, hs.lookup?_eq_some]
    constructor
    · rintro ⟨hq | rfl, hname⟩
      · exact ⟨hq, hname⟩
      · exact absurd hname.symm ho
    · rintro ⟨hq, hname⟩
      exact ⟨.inl hq, hname⟩

theorem Indexed.lookup?_congr (hs : s.Indexed) (hs' : s'.Indexed)
    (h : s'.properties = s.properties) : s'.lookup? = s.lookup? := by
  funext name
  unfold lookup?
  rw [hs.index_congr hs' h, h]

/-! ### What the operations on a shape do to its index -/

theorem insert_properties (s : Shape) (name : Atom) (attributes : Attributes) :
    (s.insert name attributes).2.properties =
      s.properties.push ⟨name, (s.insert name attributes).1, attributes⟩ := by
  unfold insert
  split <;> rfl

theorem insert_index (s : Shape) (name : Atom) (attributes : Attributes) :
    (s.insert name attributes).2.index = s.index.insert name s.properties.size := by
  unfold insert
  split <;> rfl

theorem insert_frame (s : Shape) (name : Atom) (attributes : Attributes) :
    (s.insert name attributes).2.reclaimed = s.reclaimed ∧
    (s.insert name attributes).2.kind = s.kind ∧
    (s.insert name attributes).2.dictionary = s.dictionary ∧
    (s.insert name attributes).2.prototype = s.prototype := by
  unfold insert
  split <;> exact ⟨rfl, rfl, rfl, rfl⟩

/-- **Adding a property of a new name** lists it at the last position. -/
theorem Indexed.insert (hs : s.Indexed) (hn : s.lookup? name = none) (attributes : Attributes) :
    (s.insert name attributes).2.Indexed := by
  intro other position
  rw [insert_properties, insert_index, Std.TreeMap.getElem?_insert, Array.getElem?_push]
  simp only [Std.LawfulEqCmp.compare_eq_iff_eq]
  by_cases hname : name = other
  · subst hname
    simp only [if_true, Option.some.injEq]
    constructor
    · rintro rfl
      exact ⟨_, by rw [if_pos rfl], rfl⟩
    · rintro ⟨p, hp, hname⟩
      split at hp
      case isTrue hlast => exact hlast.symm
      case isFalse => exact absurd hname (hs.lookup?_eq_none.mp hn p (Array.mem_of_getElem? hp))
  · rw [if_neg hname, hs other position]
    constructor
    · rintro ⟨p, hp, hother⟩
      have hlt := (Array.getElem?_eq_some_iff.mp hp).1
      exact ⟨p, by rw [if_neg (by omega), hp], hother⟩
    · rintro ⟨p, hp, hother⟩
      split at hp
      case isTrue =>
        obtain rfl := Option.some.inj hp
        exact absurd hother hname
      case isFalse => exact ⟨p, hp, hother⟩

/-- What removing a property leaves, by its position. -/
theorem remove_of_index {position : Nat} (hi : s.index[name]? = some position)
    (hp : s.properties[position]? = some p) :
    s.remove name = { s with
      properties := s.properties.eraseIdxIfInBounds position
      index := s.indexWithout name position
      freeOffsets := p.offset :: s.freeOffsets } := by
  simp only [remove, hi, hp]

/-- A shape without the property stays as it is. -/
theorem remove_of_none (hi : s.index[name]? = none) : s.remove name = s := by
  simp only [remove, hi]

theorem getElem?_indexWithout (position : Nat) : (s.indexWithout name position)[other]? =
    if other = name then none
    else s.index[other]?.map fun later => if later > position then later - 1 else later := by
  unfold indexWithout
  rw [Std.TreeMap.getElem?_map, Std.TreeMap.getElem?_erase]
  simp only [Std.LawfulEqCmp.compare_eq_iff_eq]
  by_cases h : other = name
  · simp [h]
  · simp [h, Ne.symm h]

theorem getElem?_eraseIdxIfInBounds {α : Type} {xs : Array α} {i : Nat} (hi : i < xs.size)
    (j : Nat) : (xs.eraseIdxIfInBounds i)[j]? = if j < i then xs[j]? else xs[j + 1]? := by
  rw [Array.eraseIdxIfInBounds_eq, dif_pos hi, Array.getElem?_eraseIdx]

theorem remove_frame (s : Shape) (name : Atom) :
    (s.remove name).reclaimed = s.reclaimed ∧ (s.remove name).kind = s.kind ∧
    (s.remove name).dictionary = s.dictionary ∧ (s.remove name).prototype = s.prototype := by
  unfold remove
  cases s.index[name]? with
  | none => exact ⟨rfl, rfl, rfl, rfl⟩
  | some position =>
    dsimp only
    cases s.properties[position]? <;> exact ⟨rfl, rfl, rfl, rfl⟩

/-- **Removing a property** moves the positions of the later ones up by one. -/
theorem Indexed.remove (hs : s.Indexed) (name : Atom) : (s.remove name).Indexed := by
  cases hi : s.index[name]? with
  | none =>
    rw [remove_of_none hi]
    exact hs
  | some i =>
    obtain ⟨p, hp, hname⟩ := (hs name i).mp hi
    have hlt := (Array.getElem?_eq_some_iff.mp hp).1
    rw [remove_of_index hi hp]
    intro other j
    dsimp only
    rw [getElem?_indexWithout, getElem?_eraseIdxIfInBounds hlt]
    constructor
    · intro h
      split at h
      case isTrue => cases h
      case isFalse hne =>
        obtain ⟨k, hk, rfl⟩ := Option.map_eq_some_iff.mp h
        obtain ⟨q, hq, hother⟩ := (hs other k).mp hk
        have hki : k ≠ i := by
          rintro rfl
          obtain rfl := Option.some.inj (hp.symm.trans hq)
          exact hne (hother.symm.trans hname)
        refine ⟨q, ?_, hother⟩
        by_cases hgt : k > i
        · rw [if_pos hgt, if_neg (by omega), Nat.sub_add_cancel (by omega)]
          exact hq
        · rw [if_neg hgt, if_pos (by omega)]
          exact hq
    · rintro ⟨q, hq, hother⟩
      -- the position in the old list is not the removed one
      obtain ⟨k, hk, hki, hshift⟩ : ∃ k, s.properties[k]? = some q ∧ k ≠ i ∧
          (if k > i then k - 1 else k) = j := by
        by_cases hj : j < i
        · rw [if_pos hj] at hq
          exact ⟨j, hq, by omega, if_neg (by omega)⟩
        · rw [if_neg hj] at hq
          exact ⟨j + 1, hq, by omega, by rw [if_pos (by omega)]; rfl⟩
      have hne : other ≠ name := fun h =>
        hki (hs.distinct hk hp (hother.trans (h.trans hname.symm)))
      rw [if_neg hne, (hs other k).mpr ⟨q, hk, hother⟩]
      exact congrArg some hshift

theorem Indexed.mem_remove (hs : s.Indexed) :
    p ∈ (s.remove name).properties ↔ p ∈ s.properties ∧ p.name ≠ name := by
  cases hi : s.index[name]? with
  | none =>
    have hl : s.lookup? name = none := by rw [lookup?, hi]
    rw [remove_of_none hi]
    exact ⟨fun hp => ⟨hp, hs.lookup?_eq_none.mp hl p hp⟩, And.left⟩
  | some i =>
    obtain ⟨q, hq, hname⟩ := (hs name i).mp hi
    have hlt := (Array.getElem?_eq_some_iff.mp hq).1
    rw [remove_of_index hi hq]
    simp only [Array.mem_iff_getElem?, getElem?_eraseIdxIfInBounds hlt]
    constructor
    · rintro ⟨j, hj⟩
      split at hj
      case isTrue hlt =>
        refine ⟨⟨j, hj⟩, fun h => ?_⟩
        have := hs.distinct hj hq (h.trans hname.symm)
        omega
      case isFalse hge =>
        refine ⟨⟨j + 1, hj⟩, fun h => ?_⟩
        have := hs.distinct hj hq (h.trans hname.symm)
        omega
    · rintro ⟨⟨j, hj⟩, hne⟩
      have hji : j ≠ i := by
        rintro rfl
        obtain rfl := Option.some.inj (hj.symm.trans hq)
        exact hne hname
      by_cases hlt : j < i
      · exact ⟨j, by rw [if_pos hlt, hj]⟩
      · exact ⟨j - 1, by rw [if_neg (by omega), Nat.sub_add_cancel (by omega), hj]⟩

theorem Indexed.lookup?_remove (hs : s.Indexed) : (s.remove name).lookup? other =
    if other = name then none else s.lookup? other := by
  refine Option.ext fun p => ?_
  rw [(hs.remove name).lookup?_eq_some, hs.mem_remove]
  by_cases ho : other = name
  · rw [if_pos ho]
    refine ⟨fun ⟨⟨_, hne⟩, hname⟩ => absurd (hname.trans ho) hne, fun h => by cases h⟩
  · rw [if_neg ho, hs.lookup?_eq_some]
    exact ⟨fun ⟨⟨hp, _⟩, hname⟩ => ⟨hp, hname⟩, fun ⟨hp, hname⟩ => ⟨⟨hp, hname ▸ ho⟩, hname⟩⟩

theorem Indexed.remove_congr (hs : s.Indexed) (hs' : s'.Indexed)
    (h : s'.properties = s.properties) (name : Atom) :
    (s'.remove name).properties = (s.remove name).properties := by
  unfold Shape.remove
  rw [hs.index_congr hs' h, h]
  cases s.index[name]? with
  | none => exact h
  | some position =>
    dsimp only
    cases s.properties[position]? with
    | none => exact h
    | some p => rfl

theorem setAttributes_index (name : Atom) (attributes : Attributes) :
    (s.setAttributes name attributes).index = s.index := by
  unfold setAttributes
  split <;> rfl

theorem setAttributes_frame (s : Shape) (name : Atom) (attributes : Attributes) :
    (s.setAttributes name attributes).reclaimed = s.reclaimed ∧
    (s.setAttributes name attributes).kind = s.kind ∧
    (s.setAttributes name attributes).dictionary = s.dictionary ∧
    (s.setAttributes name attributes).prototype = s.prototype := by
  unfold setAttributes
  split <;> exact ⟨rfl, rfl, rfl, rfl⟩

/-- **Changing attributes** changes those of the property of the name. -/
theorem Indexed.setAttributes_properties (hs : s.Indexed) (name : Atom) (attributes : Attributes) :
    (s.setAttributes name attributes).properties =
      s.properties.map fun p => if p.name == name then { p with attributes } else p := by
  refine Array.ext_getElem? fun j => ?_
  rw [Array.getElem?_map]
  cases hi : s.index[name]? with
  | none =>
    have hl : s.lookup? name = none := by rw [lookup?, hi]
    simp only [setAttributes, hi]
    cases hj : s.properties[j]? with
    | none => rfl
    | some p => simp [hs.lookup?_eq_none.mp hl p (Array.mem_of_getElem? hj)]
  | some i =>
    obtain ⟨p, hp, hname⟩ := (hs name i).mp hi
    simp only [setAttributes, hi, Array.getElem?_modify]
    by_cases hij : i = j
    · subst hij
      simp [hp, hname]
    · rw [if_neg hij]
      cases hj : s.properties[j]? with
      | none => rfl
      | some q =>
        have hne : q.name ≠ name := fun h => hij (hs.distinct hp hj (hname.trans h.symm))
        simp [hne]

theorem Indexed.setAttributes (hs : s.Indexed) (name : Atom) (attributes : Attributes) :
    (s.setAttributes name attributes).Indexed := by
  intro other position
  rw [setAttributes_index, hs other position, hs.setAttributes_properties, Array.getElem?_map]
  cases s.properties[position]? with
  | none => simp
  | some p =>
    simp only [Option.some.injEq, exists_eq_left', Option.map_some]
    split <;> rfl

theorem Indexed.lookup?_setAttributes (hs : s.Indexed) {attributes : Attributes} :
    (s.setAttributes name attributes).lookup? other =
      (s.lookup? other).map fun p => if p.name == name then { p with attributes } else p := by
  unfold lookup?
  rw [setAttributes_index, hs.setAttributes_properties]
  cases s.index[other]? with
  | none => rfl
  | some position => exact Array.getElem?_map ..

end Shape

namespace ShapeTable

/-- The id names a shape that is neither reclaimed nor a dictionary, and so never changes. -/
def Shared (t : ShapeTable) (id : ShapeId) : Prop :=
  t.isLive id = true ∧ (t.get id).dictionary = false

/-- **A table in order.** -/
structure Ordered (t : ShapeTable) : Prop where
  /-- No id is free twice. -/
  nodup : t.free.Nodup
  /-- Free ids name reclaimed shapes. -/
  free : ∀ id ∈ t.free, id.index < t.shapes.size ∧ t.isLive id = false
  /-- A root is empty and has the kind and the prototype it is listed under. -/
  root : ∀ kind prototype id, t.roots[(kind, prototype)]? = some id →
    t.Shared id ∧ (t.get id).kind = kind ∧ (t.get id).prototype = prototype ∧
      (t.get id).properties = #[]
  /-- An addition adds its property to the layout. -/
  addition : ∀ source name attributes id, t.additions[(source, name, attributes)]? = some id →
    t.Shared source ∧ t.Shared id ∧ (t.get id).kind = (t.get source).kind ∧
      (t.get id).prototype = (t.get source).prototype ∧
      ∃ offset, (t.get id).properties = (t.get source).properties.push ⟨name, offset, attributes⟩
  /-- A change of prototype keeps the layout. -/
  change : ∀ source prototype id, t.prototypeChanges[(source, prototype)]? = some id →
    t.Shared source ∧ t.Shared id ∧ (t.get id).kind = (t.get source).kind ∧
      (t.get id).prototype = prototype ∧ (t.get id).properties = (t.get source).properties
  /-- The index of each shape is exact. -/
  indexed : ∀ id, (t.get id).Indexed

/-- **A table that has grown**: live shapes stay as they are, except those in `changed`, and edges
stay. -/
structure Grows (t : ShapeTable) (changed : ShapeId → Prop) (t' : ShapeTable) : Prop where
  /-- The new table is in order. -/
  ordered : t'.Ordered
  /-- Only dictionaries change. -/
  dictionary : ∀ id, changed id → (t.get id).dictionary = true
  /-- Live shapes stay. -/
  keeps : ∀ id, t.isLive id = true → ¬changed id → t'.isLive id = true ∧ t'.get id = t.get id
  /-- Roots stay. -/
  roots : ∀ (key : CellKind × Value) id, t.roots[key]? = some id → t'.roots[key]? = some id
  /-- Additions stay. -/
  additions : ∀ (key : ShapeId × Atom × Attributes) id, t.additions[key]? = some id →
    t'.additions[key]? = some id

variable {t t' : ShapeTable} {id other source : ShapeId} {changed : ShapeId → Prop}

theorem Grows.refl (ho : t.Ordered) : t.Grows (fun _ => False) t :=
  ⟨ho, fun _ h => h.elim, fun _ hl _ => ⟨hl, rfl⟩, fun _ _ h => h, fun _ _ h => h⟩

theorem Grows.shared (hg : t.Grows changed t') (hs : t.Shared id) :
    t'.Shared id ∧ t'.get id = t.get id := by
  have hc : ¬changed id := fun hc => by simp [Shared, hg.dictionary id hc] at hs
  obtain ⟨hl, hget⟩ := hg.keeps id hs.1 hc
  exact ⟨⟨hl, by rw [hget]; exact hs.2⟩, hget⟩

/-! ### Storing a shape -/

theorem isLive_iff : t.isLive id = true ↔
    id.index < t.shapes.size ∧ (t.get id).reclaimed = false := by
  unfold isLive get
  rw [Array.getD_eq_getD_getElem?]
  cases hs : t.shapes[id.index]? with
  | none =>
    have := Array.getElem?_eq_none_iff.mp hs
    simp only [Bool.false_eq_true, false_iff]
    omega
  | some shape =>
    have := (Array.getElem?_eq_some_iff.mp hs).1
    simp [this]

theorem shapeId_ext {a b : ShapeId} (h : a.index = b.index) : a = b := by
  cases a
  cases b
  exact congrArg ShapeId.mk h

/-- **Storing a shape** uses an id that is not live and touches nothing else. -/
theorem push_spec (ho : t.Ordered) {s : Shape} (hr : s.reclaimed = false) :
    t.isLive (t.push s).1 = false ∧
    (t.push s).2.isLive (t.push s).1 = true ∧
    (t.push s).2.get (t.push s).1 = s ∧
    (∀ id, id ≠ (t.push s).1 →
      (t.push s).2.isLive id = t.isLive id ∧ (t.push s).2.get id = t.get id) ∧
    (t.push s).2 = { t with
      shapes := (t.push s).2.shapes, free := (t.push s).2.free } := by
  unfold push
  cases hf : t.free with
  | nil =>
    dsimp only
    refine ⟨?_, ?_, ?_, fun id hne => ?_, by rw [← hf]⟩
    · simp [isLive]
    · simp [isLive, hr]
    · simp [get, Array.getD_eq_getD_getElem?]
    · have hne : id.index ≠ t.shapes.size := fun e => hne (shapeId_ext e)
      simp [isLive, get, Array.getD_eq_getD_getElem?, Array.getElem?_push, hne]
  | cons free rest =>
    obtain ⟨hlt, hdead⟩ := ho.free free (by rw [hf]; exact List.mem_cons_self)
    dsimp only
    refine ⟨hdead, ?_, ?_, fun id hne => ?_, rfl⟩
    · simp [isLive, hlt, hr]
    · simp [get, Array.getD_eq_getD_getElem?, hlt]
    · have hne : free.index ≠ id.index := fun e => hne (shapeId_ext e).symm
      simp [isLive, get, Array.getD_eq_getD_getElem?, hne]

/-- A table with the same edges whose shared shapes are kept is in order if its free list is. -/
theorem Ordered.transfer (ho : t.Ordered)
    (hs : ∀ id, t.Shared id → t'.Shared id ∧ t'.get id = t.get id)
    (hr : t'.roots = t.roots) (ha : t'.additions = t.additions)
    (hc : t'.prototypeChanges = t.prototypeChanges) (hn : t'.free.Nodup)
    (hf : ∀ id ∈ t'.free, id.index < t'.shapes.size ∧ t'.isLive id = false)
    (hx : ∀ id, (t'.get id).Indexed) : t'.Ordered where
  indexed := hx
  nodup := hn
  free := hf
  root kind prototype id h := by
    rw [hr] at h
    obtain ⟨hid, h⟩ := ho.root kind prototype id h
    obtain ⟨hid', hget⟩ := hs id hid
    rw [hget]
    exact ⟨hid', h⟩
  addition source name attributes id h := by
    rw [ha] at h
    obtain ⟨hsource, hid, h⟩ := ho.addition source name attributes id h
    obtain ⟨hsource', hgets⟩ := hs source hsource
    obtain ⟨hid', hget⟩ := hs id hid
    rw [hget, hgets]
    exact ⟨hsource', hid', h⟩
  change source prototype id h := by
    rw [hc] at h
    obtain ⟨hsource, hid, h⟩ := ho.change source prototype id h
    obtain ⟨hsource', hgets⟩ := hs source hsource
    obtain ⟨hid', hget⟩ := hs id hid
    rw [hget, hgets]
    exact ⟨hsource', hid', h⟩

theorem Grows.push (ho : t.Ordered) {s : Shape} (hr : s.reclaimed = false) (hx : s.Indexed) :
    t.Grows (fun _ => False) (t.push s).2 := by
  obtain ⟨hdead, -, hnew, hother, hedges⟩ := push_spec ho hr
  have hkeeps (id : ShapeId) (hl : t.isLive id = true) :
      (t.push s).2.isLive id = true ∧ (t.push s).2.get id = t.get id := by
    have hne : id ≠ (t.push s).1 := by
      rintro rfl
      simp [hl] at hdead
    obtain ⟨hlive, hget⟩ := hother id hne
    exact ⟨by rw [hlive, hl], hget⟩
  have hr' : (t.push s).2.roots = t.roots := by rw [hedges]
  have ha' : (t.push s).2.additions = t.additions := by rw [hedges]
  have hc' : (t.push s).2.prototypeChanges = t.prototypeChanges := by rw [hedges]
  refine ⟨ho.transfer (fun id hs => ?_) hr' ha' hc' ?_ ?_ (fun id => ?_), fun _ h => h.elim,
    fun id hl _ => hkeeps id hl, fun _ _ h => by rw [hr']; exact h,
    fun _ _ h => by rw [ha']; exact h⟩
  · obtain ⟨hl, hget⟩ := hkeeps id hs.1
    exact ⟨⟨hl, by rw [hget]; exact hs.2⟩, hget⟩
  · unfold ShapeTable.push
    have hn := ho.nodup
    cases hf : t.free with
    | nil => simp
    | cons id rest =>
      rw [hf] at hn
      exact hn.of_cons
  · intro id hid
    cases hf : t.free with
    | nil => simp [ShapeTable.push, hf] at hid
    | cons first rest =>
      have hn := ho.nodup
      rw [hf, List.nodup_cons] at hn
      have hmem : id ∈ rest := by simpa [ShapeTable.push, hf] using hid
      have hne : id ≠ (t.push s).1 := by
        simp only [ShapeTable.push, hf]
        rintro rfl
        exact hn.1 hmem
      obtain ⟨hlt, hl⟩ := ho.free id (by rw [hf]; exact List.mem_cons_of_mem _ hmem)
      refine ⟨?_, by rw [(hother id hne).1, hl]⟩
      simpa [ShapeTable.push, hf] using hlt
  · by_cases hid : id = (t.push s).1
    · rw [hid, hnew]
      exact hx
    · rw [(hother id hid).2]
      exact ho.indexed id

/-! ### Changing a dictionary -/

theorem isLive_modify (f : Shape → Shape) (hf : ∀ s, (f s).reclaimed = s.reclaimed) :
    (t.modify id f).isLive = t.isLive := by
  funext other
  simp only [isLive, modify, Array.getElem?_modify]
  by_cases hi : id.index = other.index
  · cases t.shapes[other.index]? <;> simp [hi, hf]
  · simp [hi]

theorem get_modify_self (f : Shape → Shape) (hl : t.isLive id = true) :
    (t.modify id f).get id = f (t.get id) := by
  have hlt := (isLive_iff.mp hl).1
  simp only [get, modify, Array.getD_eq_getD_getElem?, Array.getElem?_modify, if_pos]
  simp [hlt]

theorem get_modify_of_ne (f : Shape → Shape) (hne : other ≠ id) :
    (t.modify id f).get other = t.get other := by
  have hne : id.index ≠ other.index := fun e => hne (shapeId_ext e).symm
  simp [get, modify, Array.getD_eq_getD_getElem?, Array.getElem?_modify, hne]

theorem indexed_modify (ho : t.Ordered) {f : Shape → Shape} (hx : (f (t.get id)).Indexed)
    (other : ShapeId) : ((t.modify id f).get other).Indexed := by
  by_cases hne : other = id
  · subst hne
    simp only [get, modify, Array.getD_eq_getD_getElem?, Array.getElem?_modify, if_pos] at hx ⊢
    cases hs : t.shapes[other.index]? with
    | none => exact .of_empty rfl rfl
    | some s => simpa [hs] using hx
  · rw [get_modify_of_ne f hne]
    exact ho.indexed other

/-- A dictionary that has no edges can be changed in place. -/
theorem Grows.modify (hg : t.Grows changed t') {f : Shape → Shape}
    (hd : (t'.get id).dictionary = true) (hid : t.isLive id = false ∨ changed id)
    (hf : ∀ s, (f s).reclaimed = s.reclaimed) (hx : (f (t'.get id)).Indexed) :
    t.Grows changed (t'.modify id f) where
  ordered := by
    refine hg.ordered.transfer (fun other hs => ?_) rfl rfl rfl hg.ordered.nodup (fun other ho => ?_)
      (indexed_modify hg.ordered hx)
    · have hne : other ≠ id := by
        rintro rfl
        simp [Shared, hd] at hs
      rw [Shared, isLive_modify f hf, get_modify_of_ne f hne]
      exact ⟨hs, rfl⟩
    · rw [isLive_modify f hf]
      simpa [ShapeTable.modify] using hg.ordered.free other ho
  dictionary := hg.dictionary
  keeps other hl hc := by
    have hne : other ≠ id := by
      rintro rfl
      rcases hid with hid | hid
      · simp [hl] at hid
      · exact hc hid
    rw [isLive_modify f hf, get_modify_of_ne f hne]
    exact hg.keeps other hl hc
  roots := hg.roots
  additions := hg.additions

/-! ### New edges -/

theorem getElem?_insert_of_some {α β : Type} [BEq α] [LawfulBEq α] [Hashable α]
    {m : Std.HashMap α β} {k k' : α} {v w : β} (hn : m[k]? = none) (h : m[k']? = some w) :
    (m.insert k v)[k']? = some w := by
  rw [Std.HashMap.getElem?_insert]
  by_cases hk : k = k'
  · subst hk
    rw [hn] at h
    cases h
  · simp [hk, h]

theorem getElem?_insert_cases {α β : Type} [BEq α] [LawfulBEq α] [Hashable α]
    {m : Std.HashMap α β} {k k' : α} {v w : β} (h : (m.insert k v)[k']? = some w) :
    (k = k' ∧ v = w) ∨ m[k']? = some w := by
  rw [Std.HashMap.getElem?_insert] at h
  by_cases hk : k = k'
  · exact .inl ⟨hk, by simpa [hk] using h⟩
  · exact .inr (by simpa [hk] using h)

theorem Grows.insertRoot (hg : t.Grows changed t') {kind : CellKind} {prototype : Value}
    (hn : t'.roots[(kind, prototype)]? = none) (hs : t'.Shared id)
    (hk : (t'.get id).kind = kind) (hp : (t'.get id).prototype = prototype)
    (he : (t'.get id).properties = #[]) :
    t.Grows changed { t' with roots := t'.roots.insert (kind, prototype) id } where
  ordered :=
    { hg.ordered with
      root := fun kind' prototype' id' h => by
        rcases getElem?_insert_cases h with ⟨hkey, rfl⟩ | h
        · obtain ⟨rfl, rfl⟩ := Prod.mk.inj hkey
          exact ⟨hs, hk, hp, he⟩
        · exact hg.ordered.root kind' prototype' id' h }
  dictionary := hg.dictionary
  keeps := hg.keeps
  roots key id' h := getElem?_insert_of_some hn (hg.roots key id' h)
  additions := hg.additions

theorem Grows.insertAddition (hg : t.Grows changed t') {name : Atom} {attributes : Attributes}
    {offset : Nat} (hn : t'.additions[(source, name, attributes)]? = none) (hs : t'.Shared source)
    (hi : t'.Shared id) (hk : (t'.get id).kind = (t'.get source).kind)
    (hp : (t'.get id).prototype = (t'.get source).prototype)
    (he : (t'.get id).properties = (t'.get source).properties.push ⟨name, offset, attributes⟩) :
    t.Grows changed { t' with additions := t'.additions.insert (source, name, attributes) id } where
  ordered :=
    { hg.ordered with
      addition := fun source' name' attributes' id' h => by
        rcases getElem?_insert_cases h with ⟨hkey, rfl⟩ | h
        · simp only [Prod.mk.injEq] at hkey
          obtain ⟨rfl, rfl, rfl⟩ := hkey
          exact ⟨hs, hi, hk, hp, offset, he⟩
        · exact hg.ordered.addition source' name' attributes' id' h }
  dictionary := hg.dictionary
  keeps := hg.keeps
  roots := hg.roots
  additions key id' h := getElem?_insert_of_some hn (hg.additions key id' h)

theorem Grows.insertChange (hg : t.Grows changed t') {prototype : Value} (hs : t'.Shared source)
    (hi : t'.Shared id) (hk : (t'.get id).kind = (t'.get source).kind)
    (hp : (t'.get id).prototype = prototype)
    (he : (t'.get id).properties = (t'.get source).properties) :
    t.Grows changed
      { t' with prototypeChanges := t'.prototypeChanges.insert (source, prototype) id } where
  ordered :=
    { hg.ordered with
      change := fun source' prototype' id' h => by
        rcases getElem?_insert_cases h with ⟨hkey, rfl⟩ | h
        · obtain ⟨rfl, rfl⟩ := Prod.mk.inj hkey
          exact ⟨hs, hi, hk, hp, he⟩
        · exact hg.ordered.change source' prototype' id' h }
  dictionary := hg.dictionary
  keeps := hg.keeps
  roots := hg.roots
  additions := hg.additions

/-! ### Transitions -/

/-- **The empty shape of a kind and prototype** is listed under them. -/
theorem root_spec (ho : t.Ordered) (kind : CellKind) (prototype : Value) :
    t.Grows (fun _ => False) (t.root kind prototype).2 ∧
    (t.root kind prototype).2.roots[(kind, prototype)]? = some (t.root kind prototype).1 := by
  unfold root
  cases hr : t.roots[(kind, prototype)]? with
  | some id => exact ⟨.refl ho, hr⟩
  | none =>
    obtain ⟨-, hlive, hget, -, hedges⟩ := push_spec ho (s := { kind, prototype }) rfl
    refine ⟨(Grows.push ho rfl (.of_empty rfl rfl)).insertRoot ?_ ⟨hlive, ?_⟩ ?_ ?_ ?_, by simp⟩
    · rw [hedges]
      exact hr
    all_goals rw [hget]

/-- **How a cell moves** from one shape to another: the table grows, changing the shape it leaves if
that is a dictionary, and a dictionary it moves to is its own or a new one. -/
structure Moves (t : ShapeTable) (source : ShapeId) (t' : ShapeTable) (target : ShapeId) :
    Prop where
  /-- The table grows. -/
  grows : t.Grows (fun id => id = source ∧ (t.get source).dictionary = true) t'
  /-- The new shape is live. -/
  live : t'.isLive target = true
  /-- It is a shape of the same kind. -/
  kind : (t'.get target).kind = (t.get source).kind
  /-- A dictionary is not taken from another cell. -/
  owner : (t'.get target).dictionary = true →
    (target = source ∧ (t.get source).dictionary = true) ∨ t.isLive target = false

theorem Grows.from (hg : t.Grows (fun _ => False) t') (source : ShapeId) :
    t.Grows (fun id => id = source ∧ (t.get source).dictionary = true) t' :=
  ⟨hg.ordered, fun id h => by rw [h.1]; exact h.2, fun id hl _ => hg.keeps id hl (fun h => h),
    hg.roots, hg.additions⟩

/-- A cell moves to a new shape. -/
theorem Moves.push (ho : t.Ordered) (source : ShapeId) {s : Shape} (hr : s.reclaimed = false)
    (hk : s.kind = (t.get source).kind) (hx : s.Indexed) :
    t.Moves source (t.push s).2 (t.push s).1 ∧ (t.push s).2.get (t.push s).1 = s := by
  obtain ⟨hdead, hlive, hget, -, -⟩ := push_spec ho hr
  exact ⟨⟨(Grows.push ho hr hx).from source, hlive, by rw [hget, hk], fun _ => .inr hdead⟩, hget⟩

/-- The dictionary copy of a shape. -/
theorem toDictionary_spec (ho : t.Ordered) (hl : t.isLive source = true) :
    t.Moves source (t.toDictionary source).2 (t.toDictionary source).1 ∧
    ((t.toDictionary source).2.get (t.toDictionary source).1).dictionary = true ∧
    ((t.toDictionary source).2.get (t.toDictionary source).1).prototype =
      (t.get source).prototype ∧
    ((t.toDictionary source).2.get (t.toDictionary source).1).properties =
      (t.get source).properties := by
  obtain ⟨hm, hget⟩ := Moves.push ho source
    (s := { t.get source with previous := some source, dictionary := true })
    (isLive_iff.mp hl).2 rfl (ho.indexed source)
  unfold toDictionary
  refine ⟨hm, ?_, ?_, ?_⟩
  all_goals rw [hget]

/-- A dictionary that a cell owns is left as it is, another shape is copied. -/
theorem ensureDictionary_spec (ho : t.Ordered) (hl : t.isLive source = true) :
    t.Moves source (t.ensureDictionary source).2 (t.ensureDictionary source).1 ∧
    ((t.ensureDictionary source).2.get (t.ensureDictionary source).1).dictionary = true ∧
    ((t.ensureDictionary source).2.get (t.ensureDictionary source).1).prototype =
      (t.get source).prototype ∧
    ((t.ensureDictionary source).2.get (t.ensureDictionary source).1).properties =
      (t.get source).properties := by
  unfold ensureDictionary
  split
  case isTrue hd =>
    exact ⟨⟨(Grows.refl ho).from source, hl, rfl, fun _ => .inl ⟨rfl, hd⟩⟩,
      hd, rfl, rfl⟩
  case isFalse hd => exact toDictionary_spec ho hl

/-- Changing the dictionary a cell has moved to. -/
theorem Moves.modify {target : ShapeId} (hm : t.Moves source t' target)
    (hd : (t'.get target).dictionary = true) {f : Shape → Shape}
    (hf : ∀ s, (f s).reclaimed = s.reclaimed ∧ (f s).kind = s.kind ∧
      (f s).dictionary = s.dictionary) (hx : (f (t'.get target)).Indexed) :
    t.Moves source (t'.modify target f) target := by
  have hget := get_modify_self f hm.live
  refine ⟨hm.grows.modify hd ?_ (fun s => (hf s).1) hx, ?_, ?_, fun _ => hm.owner hd⟩
  · rcases hm.owner hd with h | h
    · exact .inr h
    · exact .inl h
  · rw [isLive_modify f fun s => (hf s).1]
    exact hm.live
  · rw [hget, (hf _).2.1, hm.kind]

/-- What an addition of a property leads to. -/
structure Adds (t : ShapeTable) (source : ShapeId) (name : Atom) (attributes : Attributes)
    (result : ShapeId × Nat × ShapeTable) : Prop where
  /-- The cell moves. -/
  moves : t.Moves source result.2.2 result.1
  /-- The prototype stays. -/
  prototype : (result.2.2.get result.1).prototype = (t.get source).prototype
  /-- The layout gets the property. -/
  properties : (result.2.2.get result.1).properties =
    (t.get source).properties.push ⟨name, result.2.1, attributes⟩
  /-- The edge to a shared shape is listed. -/
  listed : (t.get source).dictionary = false → (result.2.2.get result.1).dictionary = false →
    result.2.2.additions[(source, name, attributes)]? = some result.1

theorem Moves.insertInPlace {target : ShapeId} (hm : t.Moves source t' target)
    (hd : (t'.get target).dictionary = true)
    (hp : (t'.get target).prototype = (t.get source).prototype)
    (he : (t'.get target).properties = (t.get source).properties) {name : Atom}
    (hn : t'.lookup? target name = none) (attributes : Attributes) :
    t.Adds source name attributes (t'.insertInPlace target name attributes) := by
  have hget := get_modify_self (fun s => (s.insert name attributes).2) hm.live
  have hframe := Shape.insert_frame (t'.get target) name attributes
  have hx := (hm.grows.ordered.indexed target).insert hn attributes
  refine ⟨hm.modify hd (fun s => ?_) hx, ?_, ?_, fun _ h => ?_⟩
  · obtain ⟨h1, h2, h3, -⟩ := Shape.insert_frame s name attributes
    exact ⟨h1, h2, h3⟩
  · simp only [ShapeTable.insertInPlace]
    rw [hget, hframe.2.2.2, hp]
  · simp only [ShapeTable.insertInPlace]
    rw [hget, Shape.insert_properties, he]
  · simp only [ShapeTable.insertInPlace] at h
    rw [hget, hframe.2.2.1, hd] at h
    cases h

/-- **Adding a property** whose name is new. -/
theorem addProperty_spec (ho : t.Ordered) (hl : t.isLive source = true) {name : Atom}
    (hn : t.lookup? source name = none) (attributes : Attributes) :
    t.Adds source name attributes (t.addProperty source name attributes) := by
  unfold addProperty
  dsimp only
  cases hd : (t.get source).dictionary with
  | true =>
    rw [if_pos rfl]
    exact Moves.insertInPlace ⟨(Grows.refl ho).from source, hl, rfl, fun _ => .inl ⟨rfl, hd⟩⟩
      hd rfl rfl hn attributes
  | false =>
    rw [if_neg (by simp)]
    cases ha : t.additions[(source, name, attributes)]? with
    | some target =>
      obtain ⟨hsource, htarget, hk, hp, offset, he⟩ := ho.addition _ _ _ _ ha
      have hlook : t.lookup? target name = some ⟨name, offset, attributes⟩ := by
        unfold lookup?
        rw [(ho.indexed source).lookup?_push (ho.indexed target) he hn, if_pos rfl]
      refine ⟨⟨(Grows.refl ho).from source, htarget.1, hk, fun h => ?_⟩, hp, ?_, fun _ _ => ha⟩
      · simp [htarget.2] at h
      · simp only [hlook]
        exact he
    | none =>
      dsimp only
      split
      case isTrue =>
        obtain ⟨hm, hdict, hp, he⟩ := toDictionary_spec ho hl
        refine hm.insertInPlace hdict hp he ?_ attributes
        rw [lookup?, (ho.indexed source).lookup?_congr (hm.grows.ordered.indexed _) he]
        exact hn
      case isFalse =>
        obtain ⟨hr, hk, hdict, hp⟩ := Shape.insert_frame (t.get source) name attributes
        have he := Shape.insert_properties (t.get source) name attributes
        obtain ⟨hm, hget⟩ := Moves.push ho source
          (s := { ((t.get source).insert name attributes).2 with
            previous := some source
            transitionCount := (t.get source).transitionCount + 1 })
          (hr.trans (isLive_iff.mp hl).2) hk ((ho.indexed source).insert hn attributes)
        obtain ⟨-, -, -, -, hedges⟩ := push_spec ho
          (s := { ((t.get source).insert name attributes).2 with
            previous := some source
            transitionCount := (t.get source).transitionCount + 1 })
          (hr.trans (isLive_iff.mp hl).2)
        obtain ⟨hshared, hgets⟩ := hm.grows.shared ⟨hl, hd⟩
        refine ⟨⟨hm.grows.insertAddition (by rw [hedges]; exact ha) hshared
            ⟨hm.live, by rw [hget]; exact hdict.trans hd⟩ (by rw [hget, hgets]; exact hk)
            (by rw [hget, hgets]; exact hp) (by rw [hget, hgets]; exact he),
          hm.live, hm.kind, hm.owner⟩, ?_, ?_, fun _ _ => by simp⟩
        · exact (congrArg Shape.prototype hget).trans hp
        · exact (congrArg Shape.properties hget).trans he

/-- **Removing a property** leads to a dictionary without it. -/
theorem removeProperty_spec (ho : t.Ordered) (hl : t.isLive source = true) (name : Atom) :
    t.Moves source (t.removeProperty source name).2.2 (t.removeProperty source name).1 ∧
    (t.removeProperty source name).2.1 = t.lookup? source name ∧
    ((t.removeProperty source name).2.2.get (t.removeProperty source name).1).prototype =
      (t.get source).prototype ∧
    ((t.removeProperty source name).2.2.get (t.removeProperty source name).1).properties =
      ((t.get source).remove name).properties := by
  obtain ⟨hm, hd, hp, he⟩ := ensureDictionary_spec ho hl
  have hget := get_modify_self (fun s => s.remove name) hm.live
  have hx := hm.grows.ordered.indexed (t.ensureDictionary source).1
  have hframe (s : Shape) : (s.remove name).reclaimed = s.reclaimed ∧
      (s.remove name).kind = s.kind ∧ (s.remove name).dictionary = s.dictionary := by
    obtain ⟨hr, hk, hd, -⟩ := s.remove_frame name
    exact ⟨hr, hk, hd⟩
  refine ⟨hm.modify hd hframe (hx.remove name), ?_, ?_, ?_⟩
  · simp only [removeProperty, lookup?]
    rw [(ho.indexed source).lookup?_congr hx he]
  · exact (congrArg Shape.prototype hget).trans ((Shape.remove_frame _ name).2.2.2.trans hp)
  · exact (congrArg Shape.properties hget).trans ((ho.indexed source).remove_congr hx he name)

/-- **Changing attributes** leads to a dictionary in which a property has other ones. -/
theorem changeAttributes_spec (ho : t.Ordered) (hl : t.isLive source = true) (name : Atom)
    (attributes : Attributes) :
    t.Moves source (t.changeAttributes source name attributes).2
      (t.changeAttributes source name attributes).1 ∧
    ((t.changeAttributes source name attributes).2.get
      (t.changeAttributes source name attributes).1).prototype = (t.get source).prototype ∧
    ((t.changeAttributes source name attributes).2.get
      (t.changeAttributes source name attributes).1).properties =
      ((t.get source).setAttributes name attributes).properties := by
  obtain ⟨hm, hd, hp, he⟩ := ensureDictionary_spec ho hl
  have hget := get_modify_self (fun s => s.setAttributes name attributes) hm.live
  have hx := hm.grows.ordered.indexed (t.ensureDictionary source).1
  have hframe (s : Shape) : (s.setAttributes name attributes).reclaimed = s.reclaimed ∧
      (s.setAttributes name attributes).kind = s.kind ∧
      (s.setAttributes name attributes).dictionary = s.dictionary := by
    obtain ⟨hr, hk, hd, -⟩ := s.setAttributes_frame name attributes
    exact ⟨hr, hk, hd⟩
  refine ⟨hm.modify hd hframe (hx.setAttributes name attributes),
    (congrArg Shape.prototype hget).trans
      ((Shape.setAttributes_frame _ name attributes).2.2.2.trans hp), ?_⟩
  refine (congrArg Shape.properties hget).trans ?_
  rw [hx.setAttributes_properties, (ho.indexed source).setAttributes_properties, he]

/-- **Changing the prototype** keeps the layout. -/
theorem changePrototype_spec (ho : t.Ordered) (hl : t.isLive source = true) (prototype : Value) :
    t.Moves source (t.changePrototype source prototype).2 (t.changePrototype source prototype).1 ∧
    ((t.changePrototype source prototype).2.get
      (t.changePrototype source prototype).1).prototype = prototype ∧
    ((t.changePrototype source prototype).2.get
      (t.changePrototype source prototype).1).properties = (t.get source).properties := by
  unfold changePrototype
  dsimp only
  by_cases hd : (t.get source).dictionary = true
  · rw [if_pos hd]
    have hm : t.Moves source t source :=
      ⟨(Grows.refl ho).from source, hl, rfl, fun _ => .inl ⟨rfl, hd⟩⟩
    have hget := get_modify_self (fun s => { s with prototype }) hl
    refine ⟨hm.modify hd (fun s => ⟨rfl, rfl, rfl⟩) (ho.indexed source), ?_, ?_⟩
    all_goals
      dsimp only
      rw [hget]
  · rw [if_neg hd]
    cases hc : t.prototypeChanges[(source, prototype)]? with
    | some target =>
      obtain ⟨-, htarget, hk, hp, he⟩ := ho.change _ _ _ hc
      exact ⟨⟨(Grows.refl ho).from source, htarget.1, hk, fun h => by simp [htarget.2] at h⟩, hp, he⟩
    | none =>
      dsimp only
      have hd : (t.get source).dictionary = false := by simpa using hd
      obtain ⟨hm, hget⟩ := Moves.push ho source
        (s := { t.get source with previous := some source, prototype })
        (isLive_iff.mp hl).2 rfl (ho.indexed source)
      obtain ⟨hshared, hgets⟩ := hm.grows.shared ⟨hl, hd⟩
      refine ⟨⟨hm.grows.insertChange hshared ⟨hm.live, by rw [hget]; exact hd⟩
          (by rw [hget, hgets]) (by rw [hget]) (by rw [hget, hgets]),
        hm.live, hm.kind, hm.owner⟩, ?_, ?_⟩
      · exact (congrArg Shape.prototype hget :)
      · exact (congrArg Shape.properties hget :)

end ShapeTable

end ScriptMachine
