import ScriptMachine.InlineCache
import ScriptMachine.Proofs.Heap.Operations

/-! # What inline caches remember

`PropertyEntry.Valid` says when an entry of a property cache may be replayed for a name: the shapes
it mentions are shared ones, and the name is where the entry says it is. A valid entry stays valid
while the heap evolves (`Valid.evolves`), and over a collection as long as its shapes are live
(`Valid.collect`). Replaying a valid entry reads what a lookup finds (`lookupProperty?_own`,
`lookupProperty?_prototype`) and writes what a write does (`setProperty_replace`,
`setProperty_transition`). -/

namespace ScriptMachine

namespace InlineCache

variable {κ ε : Type} [DecidableEq κ] {cache : InlineCache κ ε} {k k' : κ} {e e' : ε}

/-- The entries of a cache. -/
def entries : InlineCache κ ε → List (κ × ε)
  | .uninitialized | .megamorphic => []
  | .monomorphic key entry => [(key, entry)]
  | .polymorphic entries => entries

theorem mem_of_lookup? (h : cache.lookup? k = some e) : (k, e) ∈ cache.entries := by
  cases cache with
  | uninitialized | megamorphic => cases h
  | monomorphic key entry =>
    simp only [lookup?] at h
    split at h
    case isTrue hk => simp [entries, hk, Option.some.inj h]
    case isFalse => cases h
  | polymorphic entries =>
    simp only [lookup?, Option.map_eq_some_iff] at h
    obtain ⟨x, hx, rfl⟩ := h
    obtain rfl : x.1 = k := by simpa using List.find?_some hx
    exact List.mem_of_find?_eq_some hx

theorem mem_update (h : (k', e') ∈ (cache.update k e).entries) :
    (k', e') ∈ cache.entries ∨ k' = k ∧ e' = e := by
  cases cache with
  | uninitialized => exact .inr (by simpa [update, entries] using h)
  | megamorphic => cases h
  | monomorphic key entry =>
    simp only [update] at h
    split at h
    case isTrue hk =>
      subst hk
      exact .inr (by simpa [entries] using h)
    case isFalse => simpa [entries] using h
  | polymorphic entries =>
    simp only [update] at h
    split at h
    · obtain ⟨x, hx, heq⟩ := List.mem_map.mp h
      split at heq
      case isTrue hk =>
        obtain ⟨rfl, rfl⟩ := Prod.mk.inj heq
        exact .inr ⟨hk, rfl⟩
      case isFalse =>
        rw [← heq]
        exact .inl hx
    · split at h
      · simpa [InlineCache.entries] using h
      · cases h

omit [DecidableEq κ] in
theorem mem_retain {keep : κ → ε → Bool} (h : (k, e) ∈ (cache.retain keep).entries) :
    (k, e) ∈ cache.entries ∧ keep k e = true := by
  cases cache with
  | uninitialized | megamorphic => cases h
  | monomorphic key entry =>
    simp only [retain] at h
    split at h
    case isTrue hk =>
      obtain ⟨rfl, rfl⟩ : k = key ∧ e = entry := by simpa [entries] using h
      exact ⟨h, hk⟩
    case isFalse => cases h
  | polymorphic entries =>
    have hmem : (k, e) ∈ entries.filter fun x => keep x.1 x.2 := by
      simp only [retain] at h
      split at h
      case h_1 => cases h
      case h_2 heq =>
        rw [heq]
        exact h
      case h_3 => exact h
    obtain ⟨hm, hk⟩ := List.mem_filter.mp hmem
    exact ⟨hm, hk⟩

end InlineCache

namespace Heap

variable {h h' : Heap} {name : Atom} {id : Handle} {c : Cell}

/-! ### Names that shapes decide -/

/-- The name is not the length of cells of the kind. -/
def Lengthless (h : Heap) (kind : CellKind) (name : Atom) : Prop :=
  kind = .array ∧ h.atoms.arrayIndex? name = none ∨ kind = .string → h.atoms.name name ≠ "length"

theorem Evolves.named (he : h.Evolves h') (hk : h.atoms.Knows name) {kind : CellKind}
    (hn : h.Named kind name) : h'.Named kind name where
  element hkind := (he.atoms.arrayIndex? hk).trans (hn.element hkind)
  length hkind := by
    rw [he.atoms.name hk]
    exact hn.length hkind

theorem Evolves.lengthless (he : h.Evolves h') (hk : h.atoms.Knows name) {kind : CellKind}
    (hn : h.Lengthless kind name) : h'.Lengthless kind name := by
  unfold Lengthless
  rw [he.atoms.arrayIndex? hk, he.atoms.name hk]
  exact hn

theorem synthesized?_of_named (hn : h.Named c.kind name) : h.synthesized? c name = none := by
  unfold synthesized?
  cases hp : c.payload with
  | array e =>
    have hk : c.kind = .array := by rw [Cell.kind, hp]; rfl
    simp [hn.element hk, hn.length (.inl hk)]
  | string text =>
    have hk : c.kind = .string := by rw [Cell.kind, hp]; rfl
    simp [hn.length (.inr hk)]
  | plain | function _ | activation _ => rfl

/-- A property that a shape lists is no element and no length. -/
theorem synthesized?_of_listed (hc : h.Coherent) (hfit : h.atoms.Fits) (hcell : h.cell? id = some c)
    {p : Property} (hl : h.shapes.lookup? c.shape name = some p)
    (hn : h.Lengthless c.kind name) : h.synthesized? c name = none := by
  unfold synthesized?
  cases hp : c.payload with
  | array e =>
    have hk : c.kind = .array := by rw [Cell.kind, hp]; rfl
    cases hi : h.atoms.arrayIndex? name with
    | none => simp [hn (.inl ⟨hk, hi⟩)]
    | some index =>
      dsimp only
      cases hitem : e.items[index.toNat]? with
      | none => rfl
      | some v =>
        cases hh : v.isHole with
        | true => simp [hh]
        | false =>
          have := hc.single hfit id c name index hcell hi ⟨e, v, hp, hitem, hh⟩
          rw [this] at hl
          cases hl
  | string text =>
    have hk : c.kind = .string := by rw [Cell.kind, hp]; rfl
    simp [hn (.inr hk)]
  | plain | function _ | activation _ => rfl

theorem lengthless_of_synthesized? (hs : h.synthesized? c name = none) :
    h.Lengthless c.kind name := by
  rintro (⟨hk, hi⟩ | hk) hname
  · obtain ⟨e, hp⟩ : ∃ e, c.payload = .array e := by
      unfold Cell.kind Payload.kind at hk
      split at hk <;> cases hk
      exact ⟨_, ‹_›⟩
    simp [synthesized?, hp, hi, hname] at hs
  · obtain ⟨text, hp⟩ : ∃ text, c.payload = .string text := by
      unfold Cell.kind Payload.kind at hk
      split at hk <;> cases hk
      exact ⟨_, ‹_›⟩
    simp [synthesized?, hp, hname] at hs

theorem named_of_synthesized? (hs : h.synthesized? c name = none)
    (hi : ¬((h.atoms.arrayIndex? name).isSome ∧ c.kind.hasElements)) : h.Named c.kind name where
  element hk := by
    rw [hk] at hi
    simpa [CellKind.hasElements] using hi
  length hk := by
    refine lengthless_of_synthesized? hs (hk.imp_left fun hk => ⟨hk, ?_⟩)
    rw [hk] at hi
    simpa [CellKind.hasElements] using hi

/-- A shared shape whose cells look the name up in it. -/
def Guards (h : Heap) (shape : ShapeId) (name : Atom) : Prop :=
  h.shapes.Shared shape ∧ h.Named (h.shapes.get shape).kind name

end Heap

/-- **A valid entry** for a name. -/
def PropertyEntry.Valid (h : Heap) (name : Atom) : PropertyEntry → Prop
  | .getOwn shape offset =>
    h.Guards shape name ∧ ∃ p, h.shapes.lookup? shape name = some p ∧ p.offset = offset
  | .getPrototype shape holder holderShape offset =>
    h.Guards shape name ∧ h.shapes.lookup? shape name = none ∧
      (h.shapes.get shape).prototype = .cell holder ∧ h.shapes.Shared holderShape ∧
      h.Lengthless (h.shapes.get holderShape).kind name ∧
      ∃ p, h.shapes.lookup? holderShape name = some p ∧ p.offset = offset
  | .replace shape offset =>
    h.Guards shape name ∧ ∃ p, h.shapes.lookup? shape name = some p ∧ p.offset = offset ∧
      p.attributes.readOnly = false
  | .transition source target offset =>
    h.Guards source name ∧ h.shapes.Shared target ∧ h.shapes.lookup? source name = none ∧
      h.shapes.additions[(source, name, Attributes.none)]? = some target ∧
      ∃ p, h.shapes.lookup? target name = some p ∧ p.offset = offset

namespace PropertyEntry

variable {h h' : Heap} {name : Atom} {e : PropertyEntry}

/-- A valid entry stays valid as long as its shapes, their edges and the name stay. -/
theorem Valid.transfer (hv : e.Valid h name)
    (hs : ∀ s ∈ e.shapes, h.shapes.Shared s →
      h'.shapes.Shared s ∧ h'.shapes.get s = h.shapes.get s)
    (ha : ∀ source target, source ∈ e.shapes → target ∈ e.shapes →
      h.shapes.additions[(source, name, Attributes.none)]? = some target →
      h'.shapes.additions[(source, name, Attributes.none)]? = some target)
    (hn : ∀ kind, h.Named kind name → h'.Named kind name)
    (hl : ∀ kind, h.Lengthless kind name → h'.Lengthless kind name) : e.Valid h' name := by
  have hguards {s : ShapeId} (hm : s ∈ e.shapes) (hg : h.Guards s name) :
      h'.Guards s name ∧ h'.shapes.get s = h.shapes.get s := by
    obtain ⟨hshared, hget⟩ := hs s hm hg.1
    exact ⟨⟨hshared, by rw [hget]; exact hn _ hg.2⟩, hget⟩
  cases e with
  | getOwn shape offset =>
    obtain ⟨hg, hp⟩ := hv
    obtain ⟨hg', hget⟩ := hguards (by simp [shapes]) hg
    exact ⟨hg', by rw [ShapeTable.lookup?, hget]; exact hp⟩
  | getPrototype shape holder holderShape offset =>
    obtain ⟨hg, hnone, hproto, hshared, hlength, hp⟩ := hv
    obtain ⟨hg', hget⟩ := hguards (by simp [shapes]) hg
    obtain ⟨hshared', hget'⟩ := hs holderShape (by simp [shapes]) hshared
    refine ⟨hg', ?_, by rw [hget]; exact hproto, hshared', by rw [hget']; exact hl _ hlength, ?_⟩
    · rw [ShapeTable.lookup?, hget]
      exact hnone
    · rw [ShapeTable.lookup?, hget']
      exact hp
  | replace shape offset =>
    obtain ⟨hg, hp⟩ := hv
    obtain ⟨hg', hget⟩ := hguards (by simp [shapes]) hg
    exact ⟨hg', by rw [ShapeTable.lookup?, hget]; exact hp⟩
  | transition source target offset =>
    obtain ⟨hg, hshared, hnone, hedge, hp⟩ := hv
    obtain ⟨hg', hget⟩ := hguards (by simp [shapes]) hg
    obtain ⟨hshared', hget'⟩ := hs target (by simp [shapes]) hshared
    refine ⟨hg', hshared', ?_, ha source target (by simp [shapes]) (by simp [shapes]) hedge, ?_⟩
    · rw [ShapeTable.lookup?, hget]
      exact hnone
    · rw [ShapeTable.lookup?, hget']
      exact hp

/-- **A valid entry stays valid** while the heap evolves. -/
theorem Valid.evolves (hv : e.Valid h name) (he : h.Evolves h') (hk : h.atoms.Knows name) :
    e.Valid h' name :=
  hv.transfer (fun s _ => he.shared s) (fun _ _ _ _ => he.additions _ _)
    (fun _ => he.named hk) fun _ => he.lengthless hk

/-- **A valid entry survives a collection** that keeps its shapes. -/
theorem Valid.collect (hc : h.Coherent) (hv : e.Valid h name) (values : List Value)
    (words : List UInt64)
    (hkeep : ∀ s ∈ e.shapes, h.shapes.isLive s = true →
      (h.collect values words).2.shapes.isLive s = true) :
    e.Valid (h.collect values words).2 name := by
  obtain ⟨inUse, hs, -, -⟩ := Heap.collect_shapes hc.white values words
  have hatoms : (h.collect values words).2.atoms = h.atoms := by
    rw [Heap.collect_frame hc.white values words]
  rw [hs] at hkeep
  refine hv.transfer (fun s hm hshared => ?_) (fun source target hm hm' hedge => ?_) ?_ ?_
  · rw [hs]
    obtain ⟨-, hk⟩ := (ShapeTable.sweep_isLive _ _ _ s).mp (hkeep s hm hshared.1)
    exact ⟨ShapeTable.sweep_shared _ _ _ s hshared hk, ShapeTable.sweep_get _ _ _ s (.inl hk)⟩
  · obtain ⟨hsource, htarget, -⟩ := hc.shapes.addition _ _ _ _ hedge
    rw [hs, ShapeTable.sweep_additions]
    exact ⟨hedge, ((ShapeTable.sweep_isLive _ _ _ _).mp (hkeep source hm hsource.1)).2,
      ((ShapeTable.sweep_isLive _ _ _ _).mp (hkeep target hm' htarget.1)).2⟩
  · intro kind hn
    exact ⟨by rw [hatoms]; exact hn.element, by rw [hatoms]; exact hn.length⟩
  · intro kind hn
    unfold Heap.Lengthless
    rw [hatoms]
    exact hn

end PropertyEntry

namespace Heap

variable {h h' : Heap} {name : Atom} {id : Handle} {c : Cell} {offset : Nat} {value : Value}

/-! ### Replaying an entry -/

/-- A cached read of the receiver finds what a lookup finds. -/
theorem lookupProperty?_own (hc : h.Coherent) (hcell : h.cell? id = some c)
    (hv : (PropertyEntry.getOwn c.shape offset).Valid h name) :
    ∃ attributes, h.lookupProperty? id name =
      some (.own c.shape offset attributes (h.readSlot id offset)) := by
  obtain ⟨⟨-, hn⟩, p, hp, rfl⟩ := hv
  rw [hc.kind id c hcell] at hn
  refine ⟨p.attributes, ?_⟩
  simp only [lookupProperty?, hcell, synthesized?_of_named hn, hp, readSlot]

/-- A cached read of the prototype finds what a lookup finds, if the prototype has its shape. -/
theorem lookupProperty?_prototype (hc : h.Coherent) (hfit : h.atoms.Fits)
    (hcell : h.cell? id = some c) {holder : Handle} {holderShape : ShapeId}
    (hv : (PropertyEntry.getPrototype c.shape holder holderShape offset).Valid h name)
    (hholder : h.shapeOf? holder = some holderShape) :
    h.lookupProperty? id name =
      some (.prototype holder holderShape offset 1 (h.readSlot holder offset)) := by
  obtain ⟨⟨-, hn⟩, hnone, hproto, -, hlength, p, hp, rfl⟩ := hv
  rw [hc.kind id c hcell] at hn
  obtain ⟨d, hd, rfl⟩ := Option.map_eq_some_iff.mp hholder
  rw [hc.kind holder d hd] at hlength
  obtain ⟨fuel, hfuel⟩ : ∃ fuel, h.slots.size = fuel + 1 := by
    obtain ⟨_, hs, -⟩ := cell?_eq_some.mp hcell
    have := (Array.getElem?_eq_some_iff.mp hs).1
    exact ⟨h.slots.size - 1, by omega⟩
  simp only [lookupProperty?, hcell, synthesized?_of_named hn, hnone, hproto, hfuel, lookupChain,
    Value.cell?_cell, hd, synthesized?_of_listed hc hfit hd hp hlength, hp, readSlot]

/-- A cached replacement writes what a write does. -/
theorem setProperty_replace (hc : h.Coherent) (hcell : h.cell? id = some c)
    (hv : (PropertyEntry.replace c.shape offset).Valid h name) :
    setProperty id name value h =
      .ok (.replaced c.shape offset) (h.writeSlot id c.shape offset value) := by
  obtain ⟨⟨-, hn⟩, p, hp, rfl, hw⟩ := hv
  rw [hc.kind id c hcell] at hn
  rw [setProperty_named hcell hn, putNamed_some hcell hp, hw, writeSlot_same hcell]
  rfl

/-- A cached addition writes what a write does. -/
theorem setProperty_transition (hc : h.Coherent) (hcell : h.cell? id = some c) {target : ShapeId}
    (hv : (PropertyEntry.transition c.shape target offset).Valid h name) :
    setProperty id name value h =
      .ok (.added c.shape target offset) (h.writeSlot id target offset value) := by
  obtain ⟨⟨hs, hn⟩, -, hnone, hedge, p, hp, rfl⟩ := hv
  rw [hc.kind id c hcell] at hn
  obtain ⟨hadd, hwrite⟩ := writeSlot_edge hcell hs.2 hnone hedge hp value
  rw [setProperty_named hcell hn, putNamed_none hcell hnone, hwrite, hadd]

end Heap

end ScriptMachine
