import ScriptMachine.Heap.Property
import ScriptMachine.Proofs.Atom
import ScriptMachine.Proofs.Heap.Collection

/-! # Coherent heaps

A heap is coherent (`Heap.Coherent`) when its tables are in order, every cell has a live shape of its
kind, no two cells share a dictionary, and an array index lives in one place: a filled element is
never shadowed by a named property. `Heap.Evolves` is what every change but a collection keeps: live
cells, shared shapes, edges and interned names stay.

`Coherent.move` is the one argument behind all changes of a single cell: the cell moves to a shape
that the table grew, or stays where it is. -/

namespace ScriptMachine

/-- The dense element of an index is present. -/
def Cell.Filled (c : Cell) (position : Nat) : Prop :=
  ∃ e v, c.payload = .array e ∧ e.items[position]? = some v ∧ v.isHole = false

namespace Heap

/-- **A coherent heap.** -/
structure Coherent (h : Heap) : Prop where
  /-- No slot is colored. -/
  white : h.AllWhite
  /-- The shapes are in order. -/
  shapes : h.shapes.Ordered
  /-- The names are in order. -/
  atoms : h.atoms.Ordered
  /-- The properties of a cell have names that are interned. -/
  named : ∀ id c p, h.cell? id = some c → p ∈ (h.shapes.get c.shape).properties →
    h.atoms.Knows p.name
  /-- The shape of a cell is live. -/
  live : ∀ id c, h.cell? id = some c → h.shapes.isLive c.shape = true
  /-- It is a shape of the kind of the cell. -/
  kind : ∀ id c, h.cell? id = some c → (h.shapes.get c.shape).kind = c.kind
  /-- A dictionary belongs to one cell. -/
  owner : ∀ id c id' c', h.cell? id = some c → h.cell? id' = some c' → c.shape = c'.shape →
    (h.shapes.get c.shape).dictionary = true → id = id'
  /-- An array index lives in one place, as long as names can be told apart. -/
  single : h.atoms.Fits → ∀ id c name index, h.cell? id = some c → h.atoms.arrayIndex? name = some index →
    c.Filled index.toNat → h.shapes.lookup? c.shape name = none

/-- **A housed heap**: the part of coherence that is about cells and their shapes only. -/
structure Housed (h : Heap) : Prop where
  /-- No slot is colored. -/
  white : h.AllWhite
  /-- The shapes are in order. -/
  shapes : h.shapes.Ordered
  /-- The shape of a cell is live. -/
  live : ∀ id c, h.cell? id = some c → h.shapes.isLive c.shape = true
  /-- It is a shape of the kind of the cell. -/
  kind : ∀ id c, h.cell? id = some c → (h.shapes.get c.shape).kind = c.kind
  /-- A dictionary belongs to one cell. -/
  owner : ∀ id c id' c', h.cell? id = some c → h.cell? id' = some c' → c.shape = c'.shape →
    (h.shapes.get c.shape).dictionary = true → id = id'

/-- A new heap is coherent. -/
theorem coherent_new (limits : HeapLimits) : (Heap.new limits).Coherent where
  white := by simp [AllWhite, Heap.new]
  shapes := ⟨by simp [Heap.new], by simp [Heap.new], by simp [Heap.new], by simp [Heap.new],
    by simp [Heap.new], fun _ => .of_empty rfl rfl⟩
  atoms := AtomTable.Ordered.empty
  named := by simp [Heap.new, cell?]
  live := by simp [Heap.new, cell?]
  kind := by simp [Heap.new, cell?]
  owner := by simp [Heap.new, cell?]
  single := by simp [Heap.new, cell?]

/-- **What a heap keeps** as long as nothing is collected. -/
structure Evolves (h h' : Heap) : Prop where
  /-- Cells stay. -/
  live : ∀ id, h.isLive id = true → h'.isLive id = true
  /-- Shared shapes stay as they are. -/
  shared : ∀ id, h.shapes.Shared id → h'.shapes.Shared id ∧ h'.shapes.get id = h.shapes.get id
  /-- Roots of the table of shapes stay. -/
  roots : ∀ (key : CellKind × Value) id, h.shapes.roots[key]? = some id →
    h'.shapes.roots[key]? = some id
  /-- Additions stay. -/
  additions : ∀ (key : ShapeId × Atom × Attributes) id, h.shapes.additions[key]? = some id →
    h'.shapes.additions[key]? = some id
  /-- Names stay. -/
  atoms : h'.atoms.Extends h.atoms
  /-- Persistent roots stay. -/
  persistent : ∀ v, some v ∈ h.roots → some v ∈ h'.roots
  /-- Temporaries are only added. -/
  temporaries : ∃ more, h'.temporaries = h.temporaries ++ more

variable {h h' h'' : Heap} {id : Handle} {c : Cell}

theorem Evolves.refl (h : Heap) : h.Evolves h :=
  ⟨fun _ h => h, fun _ h => ⟨h, rfl⟩, fun _ _ h => h, fun _ _ h => h, .refl _, fun _ h => h,
    #[], by simp⟩

theorem Evolves.trans (h₁ : h.Evolves h') (h₂ : h'.Evolves h'') : h.Evolves h'' where
  live id hl := h₂.live id (h₁.live id hl)
  shared id hs := by
    obtain ⟨hs', hget⟩ := h₁.shared id hs
    obtain ⟨hs'', hget'⟩ := h₂.shared id hs'
    exact ⟨hs'', hget'.trans hget⟩
  roots key id hr := h₂.roots key id (h₁.roots key id hr)
  additions key id ha := h₂.additions key id (h₁.additions key id ha)
  atoms := h₂.atoms.trans h₁.atoms
  persistent v hv := h₂.persistent v (h₁.persistent v hv)
  temporaries := by
    obtain ⟨more, hm⟩ := h₁.temporaries
    obtain ⟨more', hm'⟩ := h₂.temporaries
    exact ⟨more ++ more', by rw [hm', hm, Array.append_assoc]⟩

/-- Coherence is a matter of the cells, the shapes and the names. -/
theorem Coherent.congr (hc : h.Coherent) (hw : h'.AllWhite) (hcell : h'.cell? = h.cell?)
    (hs : h'.shapes = h.shapes) (ha : h'.atoms = h.atoms) : h'.Coherent where
  white := hw
  shapes := by rw [hs]; exact hc.shapes
  atoms := by rw [ha]; exact hc.atoms
  named := by rw [hcell, hs, ha]; exact hc.named
  live := by rw [hcell, hs]; exact hc.live
  kind := by rw [hcell, hs]; exact hc.kind
  owner := by rw [hcell, hs]; exact hc.owner
  single := by rw [hcell, hs, ha]; exact hc.single

/-- Replacing other parts of a heap changes nothing either. -/
theorem Evolves.congr (he : h.Evolves h') (hcell : h''.cell? = h'.cell?)
    (hs : h''.shapes = h'.shapes) (ha : h''.atoms = h'.atoms) (hr : h''.roots = h'.roots)
    (ht : h''.temporaries = h'.temporaries) : h.Evolves h'' where
  live id hl := by rw [isLive_congr hcell]; exact he.live id hl
  shared := by rw [hs]; exact he.shared
  roots := by rw [hs]; exact he.roots
  additions := by rw [hs]; exact he.additions
  atoms := by rw [ha]; exact he.atoms
  persistent := by rw [hr]; exact he.persistent
  temporaries := by rw [ht]; exact he.temporaries

end Heap

theorem ShapeTable.Moves.refl {t : ShapeTable} {id : ShapeId} (ho : t.Ordered)
    (hl : t.isLive id = true) : t.Moves id t id :=
  ⟨(Grows.refl ho).from id, hl, rfl, fun hd => .inl ⟨rfl, hd⟩⟩

namespace Heap

variable {h : Heap} {id : Handle} {c : Cell}

/-! ### Changing one cell -/

theorem Coherent.housed (hc : h.Coherent) : h.Housed :=
  ⟨hc.white, hc.shapes, hc.live, hc.kind, hc.owner⟩

/-- The shape of another cell is not the dictionary that a cell leaves. -/
theorem Housed.shape_of_other (hh : h.Housed) (hcell : h.cell? id = some c) {t : ShapeTable}
    {target : ShapeId} (hm : h.shapes.Moves c.shape t target) {id' : Handle} {c' : Cell}
    (hne : id' ≠ id) (hcell' : h.cell? id' = some c') :
    t.isLive c'.shape = true ∧ t.get c'.shape = h.shapes.get c'.shape := by
  refine hm.grows.keeps c'.shape (hh.live id' c' hcell') ?_
  rintro ⟨hsame, hdict⟩
  exact hne (hh.owner id' c' id c hcell' hcell hsame (by rw [hsame]; exact hdict))

theorem Coherent.shape_of_other (hc : h.Coherent) (hcell : h.cell? id = some c) {t : ShapeTable}
    {target : ShapeId} (hm : h.shapes.Moves c.shape t target) {id' : Handle} {c' : Cell}
    (hne : id' ≠ id) (hcell' : h.cell? id' = some c') :
    t.isLive c'.shape = true ∧ t.get c'.shape = h.shapes.get c'.shape :=
  hc.housed.shape_of_other hcell hm hne hcell'

/-- The cells after a change of one of them. -/
theorem cell?_move (hcell : h.cell? id = some c) (t : ShapeTable) (f : Cell → Cell) (id' : Handle) :
    ({ h with shapes := t }.modifyCell id f).cell? id' =
      if id' = id then some (f c) else h.cell? id' := by
  rw [cell?_modifyCell]
  have : ({ h with shapes := t } : Heap).cell? = h.cell? := cell?_congr rfl
  rw [this, hcell]
  rfl

/-- **A cell moves** to a shape of a table that has grown: all cells are housed as before. -/
theorem Housed.move (hh : h.Housed) (hcell : h.cell? id = some c) {t : ShapeTable}
    {target : ShapeId} (hm : h.shapes.Moves c.shape t target) {f : Cell → Cell}
    (hshape : (f c).shape = target) (hkind : (f c).kind = c.kind) :
    ({ h with shapes := t }.modifyCell id f).Housed := by
  have hother {id' : Handle} {c' : Cell} (hne : id' ≠ id) (hcell' : h.cell? id' = some c') :=
    hh.shape_of_other hcell hm hne hcell'
  have hread := cell?_move hcell t f
  refine ⟨AllWhite.modifyCell (hh.white.congr rfl) f, hm.grows.ordered, fun id' c' hcell' => ?_,
    fun id' c' hcell' => ?_, fun id₁ c₁ id₂ c₂ h₁ h₂ hsame hdict => ?_⟩
  · rw [hread] at hcell'
    split at hcell'
    case isTrue =>
      obtain rfl := Option.some.inj hcell'
      rw [hshape]
      exact hm.live
    case isFalse hne => exact (hother hne hcell').1
  · rw [hread] at hcell'
    split at hcell'
    case isTrue =>
      obtain rfl := Option.some.inj hcell'
      rw [hshape, hkind, ← hh.kind id c hcell]
      exact hm.kind
    case isFalse hne =>
      rw [← hh.kind id' c' hcell']
      exact congrArg Shape.kind (hother hne hcell').2
  · change (t.get c₁.shape).dictionary = true at hdict
    -- the dictionary this cell moves to is not the shape of another one
    have hown {c' : Cell} {id' : Handle} (hne : id' ≠ id) (hcell' : h.cell? id' = some c')
        (hsame : c'.shape = target) (hdict : (t.get target).dictionary = true) : False := by
      rcases hm.owner hdict with ⟨htarget, hd⟩ | hdead
      · have hshared := hsame.trans htarget
        exact hne (hh.owner id' c' id c hcell' hcell hshared (by rw [hshared]; exact hd))
      · rw [← hsame, hh.live id' c' hcell'] at hdead
        cases hdead
    rw [hread] at h₁ h₂
    split at h₁
    case isTrue heq₁ =>
      obtain rfl := Option.some.inj h₁
      rw [hshape] at hsame hdict
      split at h₂
      case isTrue heq₂ => rw [heq₁, heq₂]
      case isFalse hne₂ => exact (hown hne₂ h₂ hsame.symm hdict).elim
    case isFalse hne₁ =>
      split at h₂
      case isTrue heq₂ =>
        obtain rfl := Option.some.inj h₂
        rw [hshape] at hsame
        exact (hown hne₁ h₁ hsame (by rw [← hsame]; exact hdict)).elim
      case isFalse hne₂ =>
        refine hh.owner id₁ c₁ id₂ c₂ h₁ h₂ hsame ?_
        rw [← (hother hne₁ h₁).2]
        exact hdict

/-- **A cell moves** to a shape of a table that has grown, and changes in other ways: if it keeps its
kind, its properties are interned and none of them names one of its elements, the heap stays
coherent. -/
theorem Coherent.move (hc : h.Coherent) (hcell : h.cell? id = some c) {t : ShapeTable}
    {target : ShapeId} (hm : h.shapes.Moves c.shape t target) {f : Cell → Cell}
    (hshape : (f c).shape = target) (hkind : (f c).kind = c.kind)
    (hnamed : ∀ p ∈ (t.get target).properties, h.atoms.Knows p.name)
    (hsingle : h.atoms.Fits → ∀ name index, h.atoms.arrayIndex? name = some index → (f c).Filled index.toNat →
      (t.get target).lookup? name = none) :
    ({ h with shapes := t }.modifyCell id f).Coherent ∧
      h.Evolves ({ h with shapes := t }.modifyCell id f) := by
  have hother {id' : Handle} {c' : Cell} (hne : id' ≠ id) (hcell' : h.cell? id' = some c') :=
    hc.shape_of_other hcell hm hne hcell'
  have hread := cell?_move hcell t f
  obtain ⟨hwhite, hordered, hlive, hkind, howner⟩ := hc.housed.move hcell hm hshape hkind
  refine ⟨⟨hwhite, hordered, hc.atoms, fun id' c' p hcell' hp => ?_, hlive, hkind, howner,
    fun hfit id' c' name index hcell' hi hf => ?_⟩,
    ⟨fun id' hl => ?_, fun s hs => hm.grows.shared hs, hm.grows.roots, hm.grows.additions,
      .refl _, fun _ hv => hv, #[], by simp [modifyCell]⟩⟩
  · rw [hread] at hcell'
    split at hcell'
    case isTrue =>
      obtain rfl := Option.some.inj hcell'
      rw [hshape] at hp
      exact hnamed p hp
    case isFalse hne =>
      refine hc.named id' c' p hcell' ?_
      rw [← (hother hne hcell').2]
      exact hp
  · rw [hread] at hcell'
    split at hcell'
    case isTrue =>
      obtain rfl := Option.some.inj hcell'
      rw [hshape]
      exact hsingle hfit name index hi hf
    case isFalse hne =>
      have := hc.single hfit id' c' name index hcell' hi hf
      unfold ShapeTable.lookup? at this ⊢
      rw [← (hother hne hcell').2] at this
      exact this
  · rw [isLive_modifyCell]
    exact hl

/-! ### Collections -/

/-- **Survivors of a collection keep their shapes**, and live in them as before. -/
theorem Housed.collect (hh : h.Housed) (values : List Value) (words : List UInt64) :
    (h.collect values words).2.Housed := by
  obtain ⟨inUse, hs, -, hmem⟩ := collect_shapes hh.white values words
  have hcell {id : Handle} {c : Cell} (hcell : (h.collect values words).2.cell? id = some c) :
      h.cell? id = some c := ((cell?_collect hh.white values words).mp hcell).1
  have hget {id : Handle} {c : Cell} (hcell : (h.collect values words).2.cell? id = some c) :
      (h.collect values words).2.shapes.get c.shape = h.shapes.get c.shape :=
    shape_collect hh.white values words hcell
  refine ⟨hh.white.collect values words, ?_, fun id c h₁ => ?_, fun id c h₁ => ?_,
    fun id c id' c' h₁ h₂ hsame hdict => ?_⟩
  · rw [hs]
    exact ShapeTable.sweep_ordered _ _ _ hh.shapes
  · have hl := hh.live id c (hcell h₁)
    rw [hs, ShapeTable.sweep_isLive]
    exact ⟨hl, ShapeTable.keeps_of_mem _ (hmem id c h₁) hl⟩
  · rw [hget h₁]
    exact hh.kind id c (hcell h₁)
  · rw [hget h₁] at hdict
    exact hh.owner id c id' c' (hcell h₁) (hcell h₂) hsame hdict

/-- **A collection keeps a heap coherent.** -/
theorem Coherent.collect (hc : h.Coherent) (values : List Value) (words : List UInt64) :
    (h.collect values words).2.Coherent := by
  have hframe := collect_frame hc.white values words
  have hatoms : (h.collect values words).2.atoms = h.atoms := by rw [hframe]
  have hcell {id : Handle} {c : Cell} (hcell : (h.collect values words).2.cell? id = some c) :
      h.cell? id = some c := ((cell?_collect hc.white values words).mp hcell).1
  have hget {id : Handle} {c : Cell} (hcell : (h.collect values words).2.cell? id = some c) :
      (h.collect values words).2.shapes.get c.shape = h.shapes.get c.shape :=
    shape_collect hc.white values words hcell
  obtain ⟨hwhite, hordered, hlive, hkind, howner⟩ := hc.housed.collect values words
  refine ⟨hwhite, hordered, by rw [hatoms]; exact hc.atoms, fun id c p h₁ hp => ?_, hlive, hkind,
    howner, fun hfit id c name index h₁ hi hf => ?_⟩
  · rw [hget h₁] at hp
    rw [hatoms]
    exact hc.named id c p (hcell h₁) hp
  · rw [hatoms] at hfit hi
    have := hc.single hfit id c name index (hcell h₁) hi hf
    unfold ShapeTable.lookup? at this ⊢
    rw [hget h₁]
    exact this

end Heap

end ScriptMachine
