import ScriptMachine.Proofs.Shape.Ancestors

/-! # The integrity of a table of shapes

A table is intact (`ShapeTable.Intact`) when its free list holds exactly the reclaimed ids, every live
shape descends from an empty one in finitely many links, all of them live, and an edge leads to a
shape that was derived along it. What a transition can do to this is one of three things: store a
shape (`Intact.push`), change a dictionary in place (`Intact.modify`) or add an edge (`Intact.link`).
A sweep keeps a table intact because the shapes it keeps are closed under `previous`
(`sweep_intact`). -/

namespace ScriptMachine

namespace ShapeTable

/-- **The chain of shapes** a shape was derived from ends. -/
inductive Descends (t : ShapeTable) : ShapeId → Prop
  /-- The shape was not derived from another one. -/
  | origin {id : ShapeId} : (t.get id).previous = none → Descends t id
  /-- The chain of the shape it was derived from ends. -/
  | step {id parent : ShapeId} :
      (t.get id).previous = some parent → Descends t parent → Descends t id

/-- A shape that fits into a table. -/
structure Derived (t : ShapeTable) (s : Shape) : Prop where
  /-- It is in use. -/
  fresh : s.reclaimed = false
  /-- The shape it was derived from is live. -/
  previous : ∀ parent, s.previous = some parent → t.isLive parent = true
  /-- A shape that was not derived from another one is empty. -/
  origin : s.previous = none → s = { kind := s.kind, prototype := s.prototype }
  /-- A shared shape counts its properties. -/
  count : s.dictionary = false → s.transitionCount = s.properties.size
  /-- No name is listed twice. -/
  distinct : (s.properties.toList.map (·.name)).Nodup

/-- **An intact table.** -/
structure Intact (t : ShapeTable) : Prop extends t.Ordered where
  /-- Reclaimed ids are free. -/
  freed : ∀ id, id.index < t.shapes.size → t.isLive id = false → id ∈ t.free
  /-- What is left of a reclaimed shape mentions no other one. -/
  orphan : ∀ id, t.isLive id = false → (t.get id).previous = none
  /-- Live shapes fit into the table. -/
  derived : ∀ id, t.isLive id = true → t.Derived (t.get id)
  /-- They descend from an empty shape. -/
  descends : ∀ id, t.isLive id = true → t.Descends id
  /-- Roots were not derived from other shapes. -/
  rooted : ∀ (key : CellKind × Value) id, t.roots[key]? = some id → (t.get id).previous = none
  /-- The edge of an addition leads to a shape derived along it. -/
  added : ∀ (key : ShapeId × Atom × Attributes) id, t.additions[key]? = some id →
    (t.get id).previous = some key.1
  /-- So does the edge of a change of prototype, and the layout is the same. -/
  changed : ∀ (key : ShapeId × Value) id, t.prototypeChanges[key]? = some id →
    t.get id = { t.get key.1 with previous := some key.1, prototype := key.2 }

variable {t t' : ShapeTable} {id source : ShapeId}

/-! ### Storing, changing and linking -/

theorem Derived.transfer {s : Shape} (hs : t.Derived s)
    (hl : ∀ id, t.isLive id = true → t'.isLive id = true) : t'.Derived s :=
  { hs with previous := fun parent h => hl parent (hs.previous parent h) }

theorem Descends.transfer
    (hp : ∀ id parent, t.isLive id = true → (t.get id).previous = some parent →
      t.isLive parent = true)
    (hk : ∀ id, t.isLive id = true → (t'.get id).previous = (t.get id).previous)
    (hl : t.isLive id = true) (hd : t.Descends id) : t'.Descends id := by
  induction hd with
  | origin h => exact .origin ((hk _ hl).trans h)
  | step h _ ih => exact .step ((hk _ hl).trans h) (ih (hp _ _ hl h))

theorem Intact.parent (hi : t.Intact) {parent : ShapeId}
    (h : (t.get id).previous = some parent) : t.isLive id = true ∧ t.isLive parent = true := by
  cases hl : t.isLive id with
  | false =>
    rw [hi.orphan id hl] at h
    cases h
  | true => exact ⟨rfl, (hi.derived id hl).previous parent h⟩

theorem Intact.parented (hi : t.Intact) : t.Parented t.shapes.size :=
  fun _ _ h => (isLive_iff.mp (hi.parent h).2).1

/-- The free list of an intact table holds exactly the reclaimed ids. -/
theorem Intact.mem_free (hi : t.Intact) :
    id ∈ t.free ↔ id.index < t.shapes.size ∧ t.isLive id = false :=
  ⟨hi.free id, fun h => hi.freed id h.1 h.2⟩

theorem intact_empty : ({} : ShapeTable).Intact where
  indexed _ := .of_empty rfl rfl
  nodup := List.nodup_nil
  free _ h := by cases h
  root _ _ _ h := by simp at h
  addition _ _ _ _ h := by simp at h
  change _ _ _ h := by simp at h
  freed _ h := absurd h (Nat.not_lt_zero _)
  orphan _ _ := rfl
  derived _ h := by cases h
  descends _ h := by cases h
  rooted _ _ h := by simp at h
  added _ _ h := by simp at h
  changed _ _ h := by simp at h

/-- The free list and the size after a shape was stored. -/
theorem push_free (t : ShapeTable) (s : Shape) (hid : id.index < (t.push s).2.shapes.size)
    (hne : id ≠ (t.push s).1) : id.index < t.shapes.size ∧ (id ∈ t.free → id ∈ (t.push s).2.free) := by
  unfold push at *
  cases hf : t.free with
  | nil =>
    simp only [hf, Array.size_push] at hid hne
    have : id.index ≠ t.shapes.size := fun e => hne (shapeId_ext e)
    exact ⟨by omega, fun h => by cases h⟩
  | cons first rest =>
    simp only [hf, Array.size_setIfInBounds] at hid hne
    exact ⟨hid, fun h => (List.mem_cons.mp h).resolve_left hne⟩

/-- **Storing a shape** that fits. -/
theorem Intact.push (hi : t.Intact) {s : Shape} (hs : t.Derived s) (hx : s.Indexed) :
    (t.push s).2.Intact := by
  obtain ⟨hdead, hlive, hget, hother, hedges⟩ := push_spec hi.toOrdered hs.fresh
  have hgrows := Grows.push hi.toOrdered hs.fresh hx
  have hkeeps {id : ShapeId} (hl : t.isLive id = true) :
      (t.push s).2.isLive id = true ∧ (t.push s).2.get id = t.get id :=
    hgrows.keeps id hl fun h => h
  have hderived (id : ShapeId) (hl : (t.push s).2.isLive id = true) :
      (id ≠ (t.push s).1 → t.isLive id = true) ∧ (t.push s).2.Derived ((t.push s).2.get id) := by
    by_cases hid : id = (t.push s).1
    · rw [hid, hget]
      exact ⟨fun h => absurd rfl h, hs.transfer fun id hl => (hkeeps hl).1⟩
    · rw [(hother id hid).1] at hl
      rw [(hother id hid).2]
      exact ⟨fun _ => hl, (hi.derived id hl).transfer fun id hl => (hkeeps hl).1⟩
  have hdescends {id : ShapeId} (hl : t.isLive id = true) : (t.push s).2.Descends id :=
    (hi.descends id hl).transfer (fun _ _ _ h => (hi.parent h).2)
      (fun id hl => congrArg Shape.previous (hkeeps hl).2) hl
  refine { hgrows.ordered with
    freed := fun id hlt hl => ?_, orphan := fun id hl => ?_
    derived := fun id hl => (hderived id hl).2, descends := fun id hl => ?_
    rooted := fun key id h => ?_, added := fun key id h => ?_, changed := fun key id h => ?_ }
  · have hne : id ≠ (t.push s).1 := by
      rintro rfl
      rw [hlive] at hl
      cases hl
    obtain ⟨hlt', hmem⟩ := push_free t s hlt hne
    rw [(hother id hne).1] at hl
    exact hmem (hi.freed id hlt' hl)
  · have hne : id ≠ (t.push s).1 := by
      rintro rfl
      rw [hlive] at hl
      cases hl
    rw [(hother id hne).1] at hl
    rw [(hother id hne).2]
    exact hi.orphan id hl
  · by_cases hid : id = (t.push s).1
    · cases hp : s.previous with
      | none => exact .origin (by rw [hid, hget, hp])
      | some parent => exact .step (by rw [hid, hget, hp]) (hdescends (hs.previous parent hp))
    · exact hdescends ((hderived id hl).1 hid)
  · have hr : (t.push s).2.roots = t.roots := by rw [hedges]
    rw [hr] at h
    rw [(hkeeps (hi.root key.1 key.2 id h).1.1).2]
    exact hi.rooted key id h
  · have ha : (t.push s).2.additions = t.additions := by rw [hedges]
    rw [ha] at h
    rw [(hkeeps (hi.addition key.1 key.2.1 key.2.2 id h).2.1.1).2]
    exact hi.added key id h
  · have hc : (t.push s).2.prototypeChanges = t.prototypeChanges := by rw [hedges]
    rw [hc] at h
    obtain ⟨hsource, hid, -⟩ := hi.change key.1 key.2 id h
    rw [(hkeeps hid.1).2, (hkeeps hsource.1).2]
    exact hi.changed key id h

/-- **Changing a dictionary in place**, keeping where it was derived from. -/
theorem Intact.modify (hi : t.Intact) (hl : t.isLive id = true)
    (hd : (t.get id).dictionary = true) {f : Shape → Shape}
    (hf : ∀ s, (f s).reclaimed = s.reclaimed ∧ (f s).dictionary = s.dictionary ∧
      (f s).previous = s.previous)
    (hx : (f (t.get id)).Indexed) : (t.modify id f).Intact := by
  have hlive : (t.modify id f).isLive = t.isLive := isLive_modify f fun s => (hf s).1
  have hself : (t.modify id f).get id = f (t.get id) := get_modify_self f hl
  have hother {other : ShapeId} (hne : other ≠ id) : (t.modify id f).get other = t.get other :=
    get_modify_of_ne f hne
  have hprevious (other : ShapeId) :
      ((t.modify id f).get other).previous = (t.get other).previous := by
    by_cases h : other = id
    · rw [h, hself, (hf _).2.2]
    · rw [hother h]
  have hshared {other : ShapeId} (hs : t.Shared other) :
      (t.modify id f).get other = t.get other := by
    refine hother ?_
    rintro rfl
    simp [Shared, hd] at hs
  have hgrows := (Grows.refl hi.toOrdered).from id
  refine { (hgrows.modify hd (.inr ⟨rfl, hd⟩) (fun s => (hf s).1) hx).ordered with
    freed := fun other hlt ho => ?_, orphan := fun other ho => ?_
    derived := fun other ho => ?_, descends := fun other ho => ?_
    rooted := fun key other h => (hprevious other).trans (hi.rooted key other h)
    added := fun key other h => (hprevious other).trans (hi.added key other h)
    changed := fun key other h => ?_ }
  · rw [hlive] at ho
    exact hi.freed other (by simpa [ShapeTable.modify] using hlt) ho
  · rw [hlive] at ho
    rw [hprevious]
    exact hi.orphan other ho
  · rw [hlive] at ho
    have hstay : (t.modify id f).Derived (t.get other) :=
      (hi.derived other ho).transfer fun _ h => by rwa [hlive]
    by_cases h : other = id
    · subst h
      rw [hself]
      refine ⟨(hf _).1.trans hstay.fresh, fun parent hp => ?_, fun hp => ?_, fun hd' => ?_, hx.names_nodup⟩
      · exact hstay.previous parent ((hf _).2.2.symm.trans hp)
      · -- a shape that was not derived from another one is no dictionary
        have := hstay.origin ((hf _).2.2.symm.trans hp)
        rw [this] at hd
        cases hd
      · rw [(hf _).2.1, hd] at hd'
        cases hd'
    · rw [hother h]
      exact hstay
  · rw [hlive] at ho
    exact (hi.descends other ho).transfer (fun _ _ _ h => (hi.parent h).2)
      (fun other _ => hprevious other) ho
  · obtain ⟨hsource, ho, -⟩ := hi.change key.1 key.2 other h
    rw [hshared ho, hshared hsource]
    exact hi.changed key other h

/-- **Replacing edges.** -/
theorem Intact.link (hi : t.Intact) (ho : t'.Ordered) (hs : t'.shapes = t.shapes)
    (hf : t'.free = t.free)
    (hr : ∀ (key : CellKind × Value) id, t'.roots[key]? = some id → t.roots[key]? = some id ∨
      (t.get id).previous = none)
    (ha : ∀ (key : ShapeId × Atom × Attributes) id, t'.additions[key]? = some id →
      t.additions[key]? = some id ∨ (t.get id).previous = some key.1)
    (hc : ∀ (key : ShapeId × Value) id, t'.prototypeChanges[key]? = some id →
      t.prototypeChanges[key]? = some id ∨ t.get id = { t.get key.1 with previous := some key.1, prototype := key.2 }) :
    t'.Intact := by
  have hget : t'.get = t.get := by
    funext id
    rw [get, hs, get]
  have hlive : t'.isLive = t.isLive := by
    funext id
    rw [isLive, hs, isLive]
  refine { ho with
    freed := by rw [hs, hf, hlive]; exact hi.freed
    orphan := by rw [hlive, hget]; exact hi.orphan
    derived := fun id hl => ?_, descends := fun id hl => ?_
    rooted := fun key id h => ?_, added := fun key id h => ?_, changed := fun key id h => ?_ }
  · rw [hlive] at hl
    rw [hget]
    exact (hi.derived id hl).transfer fun _ h => by rwa [hlive]
  · rw [hlive] at hl
    exact (hi.descends id hl).transfer (fun _ _ _ h => (hi.parent h).2) (fun _ _ => by rw [hget]) hl
  · rw [hget]
    exact (hr key id h).elim (hi.rooted key id) fun h => h
  · rw [hget]
    exact (ha key id h).elim (hi.added key id) fun h => h
  · rw [hget]
    exact (hc key id h).elim (hi.changed key id) fun h => h

/-! ### Transitions -/

theorem root_intact (hi : t.Intact) (kind : CellKind) (prototype : Value) :
    (t.root kind prototype).2.Intact := by
  have ho := (root_spec hi.toOrdered kind prototype).1.ordered
  unfold ShapeTable.root at *
  cases hr : t.roots[(kind, prototype)]? with
  | some id => exact hi
  | none =>
    rw [hr] at ho
    obtain ⟨-, -, hget, -, hedges⟩ := push_spec hi.toOrdered (s := { kind, prototype }) rfl
    have hpush := hi.push (s := { kind, prototype })
      ⟨rfl, fun _ h => (by cases h), fun _ => rfl, fun _ => rfl, List.nodup_nil⟩ (.of_empty rfl rfl)
    refine hpush.link ho rfl rfl (fun key id h => ?_) (fun _ _ => .inl) fun _ _ => .inl
    rcases getElem?_insert_cases h with ⟨-, rfl⟩ | h
    · right
      rw [hget]
    · exact .inl h

theorem toDictionary_intact (hi : t.Intact) (hl : t.isLive source = true) :
    (t.toDictionary source).2.Intact := by
  have hs := hi.derived source hl
  exact hi.push ⟨hs.fresh, fun _ h => Option.some.inj h ▸ hl, fun h => (by cases h),
    fun h => (by cases h), hs.distinct⟩ (hi.indexed source)

theorem ensureDictionary_intact (hi : t.Intact) (hl : t.isLive source = true) :
    (t.ensureDictionary source).2.Intact := by
  unfold ShapeTable.ensureDictionary
  split
  case isTrue => exact hi
  case isFalse => exact toDictionary_intact hi hl

theorem insert_previous (s : Shape) (name : Atom) (attributes : Attributes) :
    (s.insert name attributes).2.previous = s.previous := by
  unfold Shape.insert
  split <;> rfl

theorem insertInPlace_intact (hi : t.Intact) (hl : t.isLive id = true)
    (hd : (t.get id).dictionary = true) {name : Atom} (hn : t.lookup? id name = none)
    (attributes : Attributes) : (t.insertInPlace id name attributes).2.2.Intact := by
  refine hi.modify hl hd (fun s => ?_) ((hi.indexed id).insert hn attributes)
  obtain ⟨hr, -, hdict, -⟩ := Shape.insert_frame s name attributes
  exact ⟨hr, hdict, insert_previous s name attributes⟩

theorem addProperty_intact (hi : t.Intact) (hl : t.isLive source = true) {name : Atom}
    (hn : t.lookup? source name = none) (attributes : Attributes) :
    (t.addProperty source name attributes).2.2.Intact := by
  have ho := (addProperty_spec hi.toOrdered hl hn attributes).moves.grows.ordered
  have hs := hi.derived source hl
  unfold ShapeTable.addProperty at *
  dsimp only at *
  split
  case isTrue hd => exact insertInPlace_intact hi hl hd hn attributes
  case isFalse hd =>
    rw [if_neg hd] at ho
    cases ha : t.additions[(source, name, attributes)]? with
    | some target => exact hi
    | none =>
      rw [ha] at ho
      dsimp only at ho ⊢
      split
      case isTrue =>
        obtain ⟨hm, hdict, -, he⟩ := toDictionary_spec hi.toOrdered hl
        refine insertInPlace_intact (toDictionary_intact hi hl) hm.live hdict ?_ attributes
        rw [lookup?, (hi.indexed source).lookup?_congr (hm.grows.ordered.indexed _) he]
        exact hn
      case isFalse hlt =>
        rw [if_neg hlt] at ho
        obtain ⟨hr, -, hdict, -⟩ := Shape.insert_frame (t.get source) name attributes
        have hx := (hi.indexed source).insert hn attributes
        have hderived : t.Derived { ((t.get source).insert name attributes).2 with
            previous := some source, transitionCount := (t.get source).transitionCount + 1 } := by
          refine ⟨hr.trans hs.fresh, fun _ h => Option.some.inj h ▸ hl, fun h => (by cases h),
            fun _ => ?_, hx.names_nodup⟩
          simp only [Shape.insert_properties, Array.size_push]
          rw [hs.count (by simpa using hd)]
        obtain ⟨-, -, hget, -, -⟩ := push_spec hi.toOrdered hderived.fresh
        refine (hi.push hderived hx).link ho rfl rfl (fun _ _ => .inl) (fun key id h => ?_)
          fun _ _ => .inl
        rcases getElem?_insert_cases h with ⟨rfl, rfl⟩ | h
        · right
          rw [hget]
        · exact .inl h

theorem remove_previous (s : Shape) (name : Atom) :
    (s.remove name).previous = s.previous := by
  unfold Shape.remove
  cases s.index[name]? with
  | none => rfl
  | some position =>
    dsimp only
    cases s.properties[position]? <;> rfl

theorem removeProperty_intact (hi : t.Intact) (hl : t.isLive source = true) (name : Atom) :
    (t.removeProperty source name).2.2.Intact := by
  obtain ⟨hm, hd, -, -⟩ := ensureDictionary_spec hi.toOrdered hl
  have hdict := ensureDictionary_intact hi hl
  refine hdict.modify hm.live hd (fun s => ?_) ((hdict.indexed _).remove name)
  obtain ⟨hr, -, hd, -⟩ := s.remove_frame name
  exact ⟨hr, hd, remove_previous s name⟩

theorem setAttributes_previous (s : Shape) (name : Atom) (attributes : Attributes) :
    (s.setAttributes name attributes).previous = s.previous := by
  unfold Shape.setAttributes
  split <;> rfl

theorem changeAttributes_intact (hi : t.Intact) (hl : t.isLive source = true) (name : Atom)
    (attributes : Attributes) : (t.changeAttributes source name attributes).2.Intact := by
  obtain ⟨hm, hd, -, -⟩ := ensureDictionary_spec hi.toOrdered hl
  have hdict := ensureDictionary_intact hi hl
  refine hdict.modify hm.live hd (fun s => ?_) ((hdict.indexed _).setAttributes name attributes)
  obtain ⟨hr, -, hd, -⟩ := s.setAttributes_frame name attributes
  exact ⟨hr, hd, setAttributes_previous s name attributes⟩

theorem changePrototype_intact (hi : t.Intact) (hl : t.isLive source = true) (prototype : Value) :
    (t.changePrototype source prototype).2.Intact := by
  have ho := (changePrototype_spec hi.toOrdered hl prototype).1.grows.ordered
  have hs := hi.derived source hl
  unfold ShapeTable.changePrototype at *
  dsimp only at *
  split
  case isTrue hd => exact hi.modify hl hd (fun s => ⟨rfl, rfl, rfl⟩) (hi.indexed source)
  case isFalse hd =>
    rw [if_neg hd] at ho
    cases hc : t.prototypeChanges[(source, prototype)]? with
    | some target => exact hi
    | none =>
      rw [hc] at ho
      have hderived : t.Derived { t.get source with previous := some source, prototype } :=
        ⟨hs.fresh, fun _ h => Option.some.inj h ▸ hl, fun h => (by cases h), hs.count, hs.distinct⟩
      obtain ⟨hdead, -, hget, hother, -⟩ := push_spec hi.toOrdered hderived.fresh
      refine (hi.push hderived (hi.indexed source)).link ho rfl rfl (fun _ _ => .inl)
        (fun _ _ => .inl) fun key id h => ?_
      rcases getElem?_insert_cases h with ⟨rfl, rfl⟩ | h
      · right
        have hne : source ≠ (t.push { t.get source with previous := some source, prototype }).1 := by
          intro heq
          rw [← heq, hl] at hdead
          cases hdead
        rw [hget, (hother source hne).2]
      · exact .inl h

/-! ### Sweeps -/

/-- **A swept table is intact**: the shape a kept one was derived from is kept. -/
theorem sweep_intact (hi : t.Intact) (inUse : List ShapeId) (alive : Value → Bool) :
    (t.sweep inUse alive).2.Intact := by
  have hget {id : ShapeId} (hl : (t.sweep inUse alive).2.isLive id = true) :
      t.isLive id = true ∧ (t.sweep inUse alive).2.get id = t.get id := by
    obtain ⟨hl, hk⟩ := (sweep_isLive t inUse alive id).mp hl
    exact ⟨hl, sweep_get t inUse alive id (.inl hk)⟩
  have hparent {id parent : ShapeId} (hl : (t.sweep inUse alive).2.isLive id = true)
      (hp : (t.get id).previous = some parent) :
      (t.sweep inUse alive).2.isLive parent = true := by
    obtain ⟨-, hk⟩ := (sweep_isLive t inUse alive id).mp hl
    exact (sweep_isLive t inUse alive parent).mpr ⟨(hi.parent hp).2, kept_closed hi.parented hk hp⟩
  refine { sweep_ordered t inUse alive hi.toOrdered with
    freed := fun id hlt hl => ?_, orphan := fun id hl => ?_, derived := fun id hl => ?_
    descends := fun id hl => ?_, rooted := fun key id h => ?_, added := fun key id h => ?_
    changed := fun key id h => ?_ }
  · rw [size_sweep] at hlt
    rw [mem_free_sweep]
    rw [Bool.eq_false_iff, Ne, sweep_isLive] at hl
    cases hold : t.isLive id with
    | false => exact .inl (hi.freed id hlt hold)
    | true => exact .inr ⟨rfl, by simpa [hold] using hl⟩
  · rw [Bool.eq_false_iff, Ne, sweep_isLive] at hl
    cases hold : t.isLive id with
    | false =>
      rw [sweep_get t inUse alive id (.inr hold)]
      exact hi.orphan id hold
    | true =>
      rw [sweep_get_reclaimed t inUse alive hold (by simpa [hold] using hl)]
      rfl
  · obtain ⟨hold, hsame⟩ := hget hl
    rw [hsame]
    exact { hi.derived id hold with previous := fun _ => hparent hl }
  · have hd := hi.descends id (hget hl).1
    induction hd with
    | origin h => exact .origin (by rw [(hget hl).2, h])
    | step h _ ih => exact .step (by rw [(hget hl).2, h]) (ih (hparent hl h))
  · obtain ⟨h, hk, -⟩ := (sweep_roots t inUse alive key id).mp h
    rw [sweep_get t inUse alive id (.inl hk)]
    exact hi.rooted key id h
  · obtain ⟨h, -, hk⟩ := (sweep_additions t inUse alive key id).mp h
    rw [sweep_get t inUse alive id (.inl hk)]
    exact hi.added key id h
  · obtain ⟨h, hks, hk, -⟩ := (sweep_prototypeChanges t inUse alive key id).mp h
    rw [sweep_get t inUse alive id (.inl hk), sweep_get t inUse alive key.1 (.inl hks)]
    exact hi.changed key id h

end ShapeTable

end ScriptMachine
