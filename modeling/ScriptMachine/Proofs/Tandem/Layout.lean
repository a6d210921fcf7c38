import ScriptMachine.Proofs.Shape.Layout
import ScriptMachine.Proofs.Tandem.Pairing

/-! # Shapes of two runs

Which shape a cell has, and where the table keeps it, depends on what was collected when. What a
transition makes of the layout does not: `Shape.Alike` says that two shapes lay cells out alike, and
each transition of a table leads from a live shape to one that lays out what the shape alone says
(`addProperty_alike` and its companions), whether the table had listed the edge or forgotten it. -/

namespace ScriptMachine

namespace Shape

/-- **Shapes that lay cells out alike.** -/
structure Alike (s s' : Shape) : Prop where
  kind : s'.kind = s.kind
  properties : s'.properties = s.properties
  index : ∀ name : Atom, s'.index[name]? = s.index[name]?
  dictionary : s'.dictionary = s.dictionary
  slotCount : s'.slotCount = s.slotCount
  freeOffsets : s'.freeOffsets = s.freeOffsets

variable {s s' s'' : Shape} {name : Atom}

theorem Alike.refl (s : Shape) : s.Alike s := ⟨rfl, rfl, fun _ => rfl, rfl, rfl, rfl⟩

theorem Alike.of_eq (h : s' = s) : s.Alike s' := by
  subst h
  exact .refl _

theorem Alike.symm (h : s.Alike s') : s'.Alike s :=
  ⟨h.kind.symm, h.properties.symm, fun name => (h.index name).symm, h.dictionary.symm, h.slotCount.symm,
    h.freeOffsets.symm⟩

theorem Alike.trans (h : s.Alike s') (h' : s'.Alike s'') : s.Alike s'' :=
  ⟨h'.kind.trans h.kind, h'.properties.trans h.properties, fun name => (h'.index name).trans (h.index name),
    h'.dictionary.trans h.dictionary, h'.slotCount.trans h.slotCount, h'.freeOffsets.trans h.freeOffsets⟩

theorem Alike.lookup? (h : s.Alike s') (name : Atom) : s'.lookup? name = s.lookup? name := by
  simp only [Shape.lookup?, h.index name, h.properties]

/-- The shape with the same layout that belongs to one cell. -/
def owned (s : Shape) : Shape := { s with dictionary := true }

/-- The layout after an addition, and the offset of the property: a shape with many properties gives
way to a dictionary. -/
def added (s : Shape) (name : Atom) (attributes : Attributes) : Nat × Shape :=
  let (offset, next) := s.insert name attributes
  (offset, if s.properties.size < maxTransitionLength then next else next.owned)

theorem Alike.owned (h : s.Alike s') : s.owned.Alike s'.owned :=
  ⟨h.kind, h.properties, h.index, rfl, h.slotCount, h.freeOffsets⟩

theorem Alike.owned_self (hd : s.dictionary = true) : s.owned.Alike s :=
  ⟨rfl, rfl, fun _ => rfl, hd, rfl, rfl⟩

theorem Alike.insert (h : s.Alike s') (name : Atom) (attributes : Attributes) :
    (s'.insert name attributes).1 = (s.insert name attributes).1 ∧
      (s.insert name attributes).2.Alike (s'.insert name attributes).2 := by
  have hindex (other : Atom) : (s'.index.insert name s.properties.size)[other]? =
      (s.index.insert name s.properties.size)[other]? := by
    simp only [Std.TreeMap.getElem?_insert, h.index]
  unfold Shape.insert
  rw [h.freeOffsets, h.slotCount, h.properties]
  cases s.freeOffsets with
  | nil => exact ⟨rfl, h.kind, rfl, hindex, h.dictionary, rfl, rfl⟩
  | cons offset rest => exact ⟨rfl, h.kind, rfl, hindex, h.dictionary, rfl, rfl⟩

theorem Alike.added (h : s.Alike s') (name : Atom) (attributes : Attributes) :
    (s'.added name attributes).1 = (s.added name attributes).1 ∧
      (s.added name attributes).2.Alike (s'.added name attributes).2 := by
  obtain ⟨ho, hs⟩ := h.insert name attributes
  refine ⟨ho, ?_⟩
  unfold Shape.added
  rw [h.properties]
  dsimp only
  split
  · exact hs
  · exact hs.owned

theorem Alike.remove (h : s.Alike s') (name : Atom) : (s.remove name).Alike (s'.remove name) := by
  unfold Shape.remove
  rw [h.index, h.properties]
  cases s.index[name]? with
  | none => exact h
  | some position =>
    dsimp only
    cases s.properties[position]? with
    | none => exact h
    | some p =>
      refine ⟨h.kind, rfl, fun other => ?_, h.dictionary, h.slotCount, congrArg (p.offset :: ·) h.freeOffsets⟩
      simp only [getElem?_indexWithout, h.index]

theorem Alike.setAttributes (h : s.Alike s') (name : Atom) (attributes : Attributes) :
    (s.setAttributes name attributes).Alike (s'.setAttributes name attributes) := by
  unfold Shape.setAttributes
  rw [h.index, h.properties]
  cases s.index[name]? with
  | none => exact h
  | some position => exact ⟨h.kind, rfl, h.index, h.dictionary, h.slotCount, h.freeOffsets⟩

theorem insert_owned (s : Shape) (name : Atom) (attributes : Attributes) :
    s.owned.insert name attributes =
      ((s.insert name attributes).1, (s.insert name attributes).2.owned) := by
  unfold Shape.insert owned
  cases s.freeOffsets <;> rfl

/-- **A shared shape that is one property longer** is what the addition makes of the other one. -/
theorem Laid.added_alike (hs : s.Laid) (hs' : s'.Laid) (hx : s.Indexed) (hx' : s'.Indexed)
    (hn : s.lookup? name = none) (hr : s'.reclaimed = false)
    (hd : s.dictionary = false) (hd' : s'.dictionary = false) (hk : s'.kind = s.kind)
    {offset : Nat} {attributes : Attributes}
    (hp : s'.properties = s.properties.push ⟨name, offset, attributes⟩) :
    offset = (s.added name attributes).1 ∧ (s.added name attributes).2.Alike s' := by
  obtain ⟨hoffset, hcount⟩ := hs'.toStored.last hd' hp
  obtain ⟨hfree, hslots, -⟩ := hs.packed hd
  obtain ⟨-, hsize⟩ := hs'.counted hr hd'
  rw [hp, Array.size_push] at hsize
  have hlt : s.properties.size < maxTransitionLength := hsize
  dsimp only at hoffset hcount
  have hinsert : s.insert name attributes = (offset, { s with
      properties := s.properties.push ⟨name, offset, attributes⟩
      index := s.index.insert name s.properties.size
      slotCount := offset + 1 }) := by
    unfold Shape.insert
    rw [hfree]
    dsimp only
    rw [hslots, ← hoffset]
  unfold added
  rw [hinsert]
  dsimp only
  rw [if_pos hlt]
  have hindexed := hx.insert hn attributes
  rw [hinsert] at hindexed
  exact ⟨rfl, hk, hp, hindexed.index_congr hx' hp, by rw [hd', hd], hcount, by rw [(hs'.packed hd').1, hfree]⟩

end Shape

namespace ShapeTable

variable {t : ShapeTable} {source : ShapeId} {name : Atom}

/-! ### Transitions -/

theorem toDictionary_alike (ho : t.Ordered) (hl : t.isLive source = true) :
    (t.get source).owned.Alike ((t.toDictionary source).2.get (t.toDictionary source).1) := by
  have hget := (push_spec ho
    (s := { t.get source with previous := some source, dictionary := true })
    (isLive_iff.mp hl).2).2.2.1
  unfold ShapeTable.toDictionary
  rw [hget]
  exact ⟨rfl, rfl, fun _ => rfl, rfl, rfl, rfl⟩

theorem ensureDictionary_alike (ho : t.Ordered) (hl : t.isLive source = true) :
    (t.get source).owned.Alike
      ((t.ensureDictionary source).2.get (t.ensureDictionary source).1) := by
  unfold ShapeTable.ensureDictionary
  split
  case isTrue hd => exact .owned_self hd
  case isFalse => exact toDictionary_alike ho hl

theorem insertInPlace_alike (name : Atom) (hl : t.isLive source = true)
    {s : Shape} (hs : s.owned.Alike (t.get source)) (attributes : Attributes) :
    (t.insertInPlace source name attributes).2.1 = (s.insert name attributes).1 ∧
      (s.insert name attributes).2.owned.Alike
        ((t.insertInPlace source name attributes).2.2.get
          (t.insertInPlace source name attributes).1) := by
  obtain ⟨hoffset, halike⟩ := hs.insert name attributes
  rw [Shape.insert_owned] at hoffset halike
  simp only [ShapeTable.insertInPlace]
  rw [get_modify_self _ hl]
  exact ⟨hoffset, halike⟩

/-- **What an addition makes of the layout** is the same whether the edge is listed or not. -/
theorem addProperty_alike (hi : t.Intact) (ht : t.Laid) (hl : t.isLive source = true)
    (hn : t.lookup? source name = none) (attributes : Attributes) :
    (t.addProperty source name attributes).2.1 = ((t.get source).added name attributes).1 ∧
      ((t.get source).added name attributes).2.Alike
        ((t.addProperty source name attributes).2.2.get
          (t.addProperty source name attributes).1) := by
  have hcounted := (ht source).counted (isLive_iff.mp hl).2
  have hadds := addProperty_spec hi.toOrdered hl hn attributes
  have owned {t' : ShapeTable} {target : ShapeId} (hl' : t'.isLive target = true)
      (hs : (t.get source).owned.Alike (t'.get target))
      (hsize : (t.get source).dictionary = true ∨
        ¬(t.get source).properties.size < maxTransitionLength) :
      (t'.insertInPlace target name attributes).2.1 = ((t.get source).added name attributes).1 ∧
        ((t.get source).added name attributes).2.Alike
          ((t'.insertInPlace target name attributes).2.2.get
            (t'.insertInPlace target name attributes).1) := by
    obtain ⟨hoffset, halike⟩ := insertInPlace_alike name hl' hs attributes
    refine ⟨hoffset, ?_⟩
    unfold Shape.added
    dsimp only
    split
    case isTrue hlt =>
      have hd := hsize.resolve_right (not_not_intro hlt)
      exact (Shape.Alike.owned_self ((Shape.insert_frame _ name attributes).2.2.1.trans hd)).symm.trans halike
    case isFalse => exact halike
  unfold ShapeTable.addProperty at hadds ⊢
  dsimp only at hadds ⊢
  cases hd : (t.get source).dictionary with
  | true =>
    rw [if_pos rfl]
    exact owned hl (.owned_self hd) (.inl hd)
  | false =>
    rw [hd, if_neg (by simp)] at hadds
    rw [if_neg (by simp)]
    cases ha : t.additions[(source, name, attributes)]? with
    | some target =>
      obtain ⟨-, htarget, hk, -⟩ := hi.addition _ _ _ _ ha
      rw [ha] at hadds
      exact (ht source).added_alike (ht target) (hi.indexed source) (hi.indexed target) hn
        (isLive_iff.mp htarget.1).2 hd htarget.2 hk hadds.properties
    | none =>
      dsimp only
      split
      case isTrue hmany =>
        obtain ⟨hm, -, -, -⟩ := toDictionary_spec hi.toOrdered hl
        refine owned hm.live (toDictionary_alike hi.toOrdered hl) (.inr ?_)
        have := (hcounted hd).1
        omega
      case isFalse hfew =>
        have hlt : (t.get source).properties.size < maxTransitionLength := by
          have := (hcounted hd).1
          omega
        have hget := (push_spec hi.toOrdered
          (s := { ((t.get source).insert name attributes).2 with
            previous := some source
            transitionCount := (t.get source).transitionCount + 1 })
          ((Shape.insert_frame _ name attributes).1.trans (isLive_iff.mp hl).2)).2.2.1
        unfold Shape.added
        dsimp only
        rw [if_pos hlt]
        refine ⟨rfl, .trans ?_ (.of_eq hget)⟩
        exact ⟨rfl, rfl, fun _ => rfl, rfl, rfl, rfl⟩

/-- **What a removal makes of the layout.** -/
theorem removeProperty_alike (ho : t.Ordered) (hl : t.isLive source = true) (name : Atom) :
    ((t.get source).owned.remove name).Alike
      ((t.removeProperty source name).2.2.get (t.removeProperty source name).1) := by
  obtain ⟨hm, -, -, -⟩ := ensureDictionary_spec ho hl
  unfold ShapeTable.removeProperty
  dsimp only
  rw [get_modify_self _ hm.live]
  exact (ensureDictionary_alike ho hl).remove name

/-- **What new attributes make of the layout.** -/
theorem changeAttributes_alike (ho : t.Ordered) (hl : t.isLive source = true) (name : Atom)
    (attributes : Attributes) :
    ((t.get source).owned.setAttributes name attributes).Alike
      ((t.changeAttributes source name attributes).2.get
        (t.changeAttributes source name attributes).1) := by
  obtain ⟨hm, -, -, -⟩ := ensureDictionary_spec ho hl
  unfold ShapeTable.changeAttributes
  dsimp only
  rw [get_modify_self _ hm.live]
  exact (ensureDictionary_alike ho hl).setAttributes name attributes

/-- **An empty shape** of a kind lays out nothing. -/
theorem origin_alike (hi : t.Intact) {kind : CellKind} {prototype : Value} {id : ShapeId}
    (hr : t.roots[(kind, prototype)]? = some id) :
    Shape.Alike { kind, prototype } (t.get id) := by
  obtain ⟨hshared, hk, -, -⟩ := hi.root _ _ _ hr
  have heq := (hi.derived id hshared.1).origin (hi.rooted _ _ hr)
  rw [heq]
  exact ⟨hk, rfl, fun _ => rfl, rfl, rfl, rfl⟩

end ShapeTable

end ScriptMachine
