import ScriptMachine.Proofs.Heap.Coherence

/-! # Changes of a heap

`Heap.Change P` says once what an operation on properties can do in one step: intern a name, look up
an empty shape, update one cell, count its bytes, or protect a value. The values it stores satisfy
`P`, and no cell gets another prototype. Operations are chains of such steps (`Heap.Changes`), so that an
invariant needs one proof for each kind of step. The first one is coherence (`Changes.coherent`). An allocation is a step of its own
(`Coherent.allocate`). -/

namespace ScriptMachine

/-- The cell stores the value in a property or in its payload. -/
def Cell.Holds (c : Cell) (v : Value) : Prop := v ∈ c.slots ∨ v ∈ c.payload.references

namespace Heap

/-- An update of one cell: it moves to a shape of a table that has grown, keeps its kind, stores only
values it had or that satisfy `P`, and keeps each index in one place. -/
structure Update (P : Value → Prop) (h : Heap) (c : Cell) (t : ShapeTable) (c' : Cell) : Prop where
  /-- The table grows and the cell moves. -/
  moves : h.shapes.Moves c.shape t c'.shape
  /-- The cell keeps its kind. -/
  kind : c'.kind = c.kind
  /-- The names of its properties are interned. -/
  named : ∀ p ∈ (t.get c'.shape).properties, h.atoms.Knows p.name
  /-- Its elements are not shadowed. -/
  single : h.atoms.Fits → ∀ name index, h.atoms.arrayIndex? name = some index → c'.Filled index.toNat →
    (t.get c'.shape).lookup? name = none
  /-- What it stores is not made up. -/
  holds : ∀ v, c'.Holds v → c.Holds v ∨ P v
  /-- The cell keeps its prototype. -/
  prototype : (t.get c'.shape).prototype = (h.shapes.get c.shape).prototype

/-- **One step of an operation** on a heap, storing values that satisfy `P`. -/
inductive Change (P : Value → Prop) (h : Heap) : Heap → Prop
  /-- A name is interned. -/
  | intern (name : String) : Change P h (h.intern name).2
  /-- An empty shape is looked up, or made. -/
  | root (kind : CellKind) (prototype : Value) : Change P h (h.rootShape kind prototype).2
  /-- A cell is updated. -/
  | update {id : Handle} {c : Cell} {t : ShapeTable} {f : Cell → Cell} :
      h.cell? id = some c → h.Update P c t (f c) → Change P h ({ h with shapes := t }.modifyCell id f)
  /-- The bytes of a cell are counted. -/
  | count (id : Handle) : Change P h (h.refreshFootprint id)
  /-- A value is protected. -/
  | protect {v : Value} : P v → Change P h (h.pushTemporary v)

/-- **A chain of steps.** -/
inductive Changes (P : Value → Prop) (h : Heap) : Heap → Prop
  /-- No step. -/
  | refl : Changes P h h
  /-- One more step. -/
  | tail {h' h'' : Heap} : Changes P h h' → Change P h' h'' → Changes P h h''

variable {P Q : Value → Prop} {h h' h'' : Heap} {id : Handle} {c : Cell}

theorem Changes.single (hc : Change P h h') : Changes P h h' := .tail .refl hc

theorem Changes.trans (h₁ : Changes P h h') (h₂ : Changes P h' h'') : Changes P h h'' := by
  induction h₂ with
  | refl => exact h₁
  | tail _ hc ih => exact .tail ih hc

theorem Change.mono (hPQ : ∀ v, P v → Q v) (hc : Change P h h') : Change Q h h' := by
  cases hc with
  | intern name => exact .intern name
  | root kind prototype => exact .root kind prototype
  | update hcell hu =>
    exact .update hcell { hu with holds := fun v hv => (hu.holds v hv).imp_right (hPQ v) }
  | count id => exact .count id
  | protect hv => exact .protect (hPQ _ hv)

theorem Changes.mono (hPQ : ∀ v, P v → Q v) (hc : Changes P h h') : Changes Q h h' := by
  induction hc with
  | refl => exact .refl
  | tail _ hc ih => exact .tail ih (hc.mono hPQ)

/-! ### Coherence -/

theorem Coherent.intern (hc : h.Coherent) (name : String) :
    (h.intern name).2.Coherent ∧ h.Evolves (h.intern name).2 := by
  obtain ⟨ho, hext, -⟩ := AtomTable.intern_spec hc.atoms name
  refine ⟨⟨hc.white.congr rfl, hc.shapes, ho, fun id c p hcell hp => ?_, hc.live, hc.kind, hc.owner,
    fun hfit id c name' index hcell hi hf => ?_⟩,
    ⟨fun _ hl => hl, fun _ hs => ⟨hs, rfl⟩, fun _ _ h => h, fun _ _ h => h, hext, fun _ h => h,
      #[], by simp [Heap.intern]⟩⟩
  · exact hext.knows (hc.named id c p hcell hp)
  · -- a name that is new is not the name of a property
    by_cases hk : h.atoms.Knows name'
    · exact hc.single (hext.fits hfit) id c name' index hcell ((hext.arrayIndex? hk).symm.trans hi) hf
    · refine (hc.shapes.indexed _).lookup?_eq_none.mpr fun p hp hname => hk ?_
      rw [← hname]
      exact hc.named id c p hcell hp

theorem Housed.root (hh : h.Housed) (kind : CellKind) (prototype : Value) :
    (h.rootShape kind prototype).2.Housed := by
  obtain ⟨hg, -⟩ := ShapeTable.root_spec hh.shapes kind prototype
  have hkeeps {s : ShapeId} (hl : h.shapes.isLive s = true) :
      (h.shapes.root kind prototype).2.isLive s = true ∧
        (h.shapes.root kind prototype).2.get s = h.shapes.get s := hg.keeps s hl fun h => h
  refine ⟨hh.white.congr rfl, hg.ordered, fun id c hcell => ?_, fun id c hcell => ?_,
    fun id c id' c' hcell hcell' hsame hd => ?_⟩
  · exact (hkeeps (hh.live id c hcell)).1
  · rw [← hh.kind id c hcell]
    exact congrArg Shape.kind (hkeeps (hh.live id c hcell)).2
  · refine hh.owner id c id' c' hcell hcell' hsame ?_
    rw [← (hkeeps (hh.live id c hcell)).2]
    exact hd

theorem Coherent.root (hc : h.Coherent) (kind : CellKind) (prototype : Value) :
    (h.rootShape kind prototype).2.Coherent ∧ h.Evolves (h.rootShape kind prototype).2 := by
  obtain ⟨hg, -⟩ := ShapeTable.root_spec hc.shapes kind prototype
  have hget {id : Handle} {c : Cell} (hcell : h.cell? id = some c) :
      (h.rootShape kind prototype).2.shapes.get c.shape = h.shapes.get c.shape :=
    (hg.keeps c.shape (hc.live id c hcell) fun h => h).2
  obtain ⟨hwhite, hordered, hlive, hkind, howner⟩ := hc.housed.root kind prototype
  refine ⟨⟨hwhite, hordered, hc.atoms, fun id c p hcell hp => ?_, hlive, hkind, howner,
    fun hfit id c name index hcell hi hf => ?_⟩,
    ⟨fun _ hl => hl, fun _ hs => hg.shared hs, hg.roots, hg.additions, .refl _, fun _ h => h,
      #[], by simp [rootShape]⟩⟩
  · refine hc.named id c p hcell ?_
    rw [← hget hcell]
    exact hp
  · have := hc.single hfit id c name index hcell hi hf
    unfold ShapeTable.lookup? at this ⊢
    rw [hget hcell]
    exact this

/-- What handles name after a cell was placed: what they did, or the new cell. -/
theorem cell?_place_cases (cell : Cell) (bytes : Nat) (other : Handle) :
    (h.place cell bytes).2.cell? other = h.cell? other ∨
      other = (h.place cell bytes).1 ∧ (h.place cell bytes).2.cell? other = some cell := by
  obtain ⟨j, g⟩ := other
  cases hb : h.freeList.back? with
  | none =>
    rw [place_new hb]
    simp only [cell?, Array.getElem?_push, Handle.mk.injEq]
    by_cases hj : j.toNat = h.slots.size
    · have hj' : j = h.slots.size.toUInt32 := by simp [← hj]
      by_cases hg : g = 0
      · right
        simp [hj, ← hj', hg, placed]
      · left
        simp [hj, placed, Ne.symm hg]
    · left
      simp [hj]
  | some i =>
    simp only [place, hb, cell?, Array.getElem?_modify, Handle.mk.injEq]
    by_cases hj : i = j
    · subst hj
      cases hs : h.slots[i.toNat]? with
      | none =>
        left
        simp
      | some slot =>
        by_cases hg : g = slot.generation
        · right
          simp [hg]
        · left
          simp [Ne.symm hg]
    · left
      have : i.toNat ≠ j.toNat := fun e => hj (UInt32.toNat_inj.mp e)
      simp [this]

/-- What an allocation does: nothing, or it places a cell and protects it. -/
theorem allocate_cases (h : Heap) (shape : ShapeId) (payload : Payload) :
    (∃ failure, h.allocate shape payload = (.error failure, h)) ∨
      ∃ bytes, let cell := Cell.new shape (h.shapes.get shape).slotCount payload
        (h.allocate shape payload).1 = .ok (h.place cell bytes).1 ∧
        (h.allocate shape payload).2 = { h with
          slots := (h.place cell bytes).2.slots
          freeList := (h.place cell bytes).2.freeList
          liveBytes := h.liveBytes + bytes
          liveCells := h.liveCells + 1
          stats := { h.stats with cellsAllocated := h.stats.cellsAllocated + 1 }
          temporaries := h.temporaries.push (.cell (h.place cell bytes).1) } := by
  unfold Heap.allocate
  dsimp only
  split
  case isTrue => exact .inl ⟨_, rfl⟩
  case isFalse =>
    refine .inr ⟨_, rfl, ?_⟩
    simp only [place]
    split <;> rfl

theorem payload_new (shape : ShapeId) (count : Nat) (payload : Payload) :
    (Cell.new shape count payload).payload = payload ∧
      (Cell.new shape count payload).shape = shape := by
  unfold Cell.new Cell.ensureSlots
  split <;> exact ⟨rfl, rfl⟩

/-- A cell after an allocation was there before, or it is the new one. -/
theorem cell?_allocated {shape : ShapeId} {payload : Payload} {id : Handle} {c : Cell}
    (hc : (h.allocate shape payload).2.cell? id = some c) : h.cell? id = some c ∨
      (h.allocate shape payload).1 = .ok id ∧ c.payload = payload ∧ c.shape = shape := by
  rcases allocate_cases h shape payload with ⟨_, heq⟩ | ⟨bytes, hok, heq⟩
  · rw [heq] at hc
    exact .inl hc
  · rw [heq] at hc
    rcases cell?_place_cases (h := h) (Cell.new shape (h.shapes.get shape).slotCount payload)
      bytes id with hsame | ⟨hid, hnew⟩
    · exact .inl (hsame ▸ hc)
    · obtain rfl := Option.some.inj (hnew.symm.trans hc)
      exact .inr ⟨hid ▸ hok, payload_new shape _ payload⟩

/-- A cell after an allocation was there before, or it has the new payload. -/
theorem cell?_allocate_cases {shape : ShapeId} {payload : Payload} {id : Handle} {c : Cell}
    (hc : (h.allocate shape payload).2.cell? id = some c) :
    h.cell? id = some c ∨ c.payload = payload :=
  (cell?_allocated hc).imp_right fun hnew => hnew.2.1

/-- An allocation touches neither shapes nor names nor persistent roots. -/
theorem allocate_frame (h : Heap) (shape : ShapeId) (payload : Payload) :
    (h.allocate shape payload).2.shapes = h.shapes ∧
      (h.allocate shape payload).2.atoms = h.atoms ∧
      (h.allocate shape payload).2.roots = h.roots ∧
      ∃ more, (h.allocate shape payload).2.temporaries = h.temporaries ++ more := by
  rcases allocate_cases h shape payload with ⟨_, heq⟩ | ⟨bytes, -, heq⟩
  · rw [heq]
    exact ⟨rfl, rfl, rfl, #[], by simp⟩
  · rw [heq]
    exact ⟨rfl, rfl, rfl, #[.cell (h.place (Cell.new shape (h.shapes.get shape).slotCount payload)
      bytes).1], by simp⟩

theorem isLive_allocate (shape : ShapeId) (payload : Payload) {id : Handle}
    (hl : h.isLive id = true) : (h.allocate shape payload).2.isLive id = true := by
  obtain ⟨c, hcell⟩ := isLive_iff.mp hl
  rcases allocate_cases h shape payload with ⟨_, heq⟩ | ⟨bytes, -, heq⟩
  · rw [heq]
    exact hl
  · rw [heq]
    rcases cell?_place_cases (h := h) (Cell.new shape (h.shapes.get shape).slotCount payload)
      bytes id with hsame | ⟨-, hnew⟩
    · exact isLive_of_cell? (hsame.trans hcell)
    · exact isLive_of_cell? hnew

/-- **Allocating a cell of a shared shape** of its kind. -/
theorem Housed.allocate (hh : h.Housed) {shape : ShapeId} {payload : Payload}
    (hs : h.shapes.Shared shape) (hk : (h.shapes.get shape).kind = payload.kind) :
    (h.allocate shape payload).2.Housed := by
  obtain ⟨hshapes, -⟩ := allocate_frame h shape payload
  refine ⟨?_, by rw [hshapes]; exact hh.shapes, fun id c hcell => ?_, fun id c hcell => ?_,
    fun id c id' c' hcell hcell' hsame hd => ?_⟩
  · rcases allocate_cases h shape payload with ⟨_, heq⟩ | ⟨bytes, -, heq⟩
    · rw [heq]
      exact hh.white
    · intro slot hslot
      rw [heq] at hslot
      exact hh.white.place _ bytes slot hslot
  · rw [hshapes]
    rcases cell?_allocated hcell with hold | ⟨-, -, rfl⟩
    · exact hh.live id c hold
    · exact hs.1
  · rw [hshapes]
    rcases cell?_allocated hcell with hold | ⟨-, hpayload, rfl⟩
    · exact hh.kind id c hold
    · rw [hk, Cell.kind, hpayload]
  · rw [hshapes] at hd
    rcases cell?_allocated hcell with hold | ⟨-, -, rfl⟩
    · rcases cell?_allocated hcell' with hold' | ⟨-, -, rfl⟩
      · exact hh.owner id c id' c' hold hold' hsame hd
      · rw [hsame, hs.2] at hd
        cases hd
    · rw [hs.2] at hd
      cases hd

theorem Coherent.allocate_on (hc : h.Coherent) {shape : ShapeId} {payload : Payload}
    (hs : h.shapes.Shared shape) (hk : (h.shapes.get shape).kind = payload.kind)
    (he : (h.shapes.get shape).properties = #[]) :
    (h.allocate shape payload).2.Coherent ∧ h.Evolves (h.allocate shape payload).2 := by
  obtain ⟨hshapes, hatoms, hroots, htemporaries⟩ := allocate_frame h shape payload
  obtain ⟨hwhite, hordered, hlive, hkind, howner⟩ := hc.housed.allocate hs hk
  refine ⟨⟨hwhite, hordered, by rw [hatoms]; exact hc.atoms, fun id c p hcell hp => ?_, hlive, hkind,
    howner, fun hfit id c name index hcell hi hf => ?_⟩,
    ⟨fun id => isLive_allocate shape payload, fun _ h => by rw [hshapes]; exact ⟨h, rfl⟩,
      fun _ _ h => by rw [hshapes]; exact h, fun _ _ h => by rw [hshapes]; exact h,
      by rw [hatoms]; exact .refl _, fun _ h => by rw [hroots]; exact h, htemporaries⟩⟩
  · rw [hshapes] at hp
    rw [hatoms]
    rcases cell?_allocated hcell with hold | ⟨-, -, rfl⟩
    · exact hc.named id c p hold hp
    · rw [he] at hp
      simp at hp
  · rw [hatoms] at hfit hi
    rw [hshapes]
    rcases cell?_allocated hcell with hold | ⟨-, -, rfl⟩
    · exact hc.single hfit id c name index hold hi hf
    · refine (hc.shapes.indexed _).lookup?_eq_none.mpr fun p hp => ?_
      rw [he] at hp
      simp at hp

theorem Coherent.allocate (hc : h.Coherent) {shape : ShapeId} {payload : Payload}
    {prototype : Value} (hr : h.shapes.roots[(payload.kind, prototype)]? = some shape) :
    (h.allocate shape payload).2.Coherent ∧ h.Evolves (h.allocate shape payload).2 := by
  obtain ⟨hshared, hk, -, hempty⟩ := hc.shapes.root _ _ _ hr
  exact hc.allocate_on hshared hk hempty

theorem pushTemporary_eq (h : Heap) (v : Value) :
    ∃ more, h.pushTemporary v = { h with temporaries := h.temporaries ++ more } := by
  unfold pushTemporary
  split
  · exact ⟨#[v], by simp⟩
  · exact ⟨#[], by simp⟩

theorem refreshFootprint_frame (h : Heap) (id : Handle) :
    h.refreshFootprint id = { h with
      slots := (h.refreshFootprint id).slots
      liveBytes := (h.refreshFootprint id).liveBytes } := by
  cases hc : h.cell? id with
  | none => rw [refreshFootprint_of_none hc]
  | some c =>
    obtain ⟨slot, hs, hg, hcell⟩ := cell?_eq_some.mp hc
    rw [refreshFootprint_of_cell? hs hg hcell]

/-- **Every step keeps a heap coherent**, and the heap evolves. -/
theorem Change.coherent (hc : h.Coherent) (hs : Change P h h') : h'.Coherent ∧ h.Evolves h' := by
  cases hs with
  | intern name => exact hc.intern name
  | root kind prototype => exact hc.root kind prototype
  | update hcell hu =>
    exact hc.move hcell hu.moves rfl hu.kind hu.named hu.single
  | count id =>
    have hcell := cell?_refreshFootprint h id
    have hframe := refreshFootprint_frame h id
    refine ⟨hc.congr hc.white.refreshFootprint hcell ?_ ?_,
      (Evolves.refl h).congr hcell ?_ ?_ ?_ ?_⟩
    all_goals rw [hframe]
  | protect _ =>
    obtain ⟨more, heq⟩ := pushTemporary_eq h _
    rw [heq]
    exact ⟨hc.congr (hc.white.congr rfl) rfl rfl rfl,
      { Evolves.refl h with temporaries := ⟨more, rfl⟩ }⟩

/-- **Operations keep a heap coherent**, and the heap evolves. -/
theorem Changes.coherent (hc : h.Coherent) (hs : Changes P h h') : h'.Coherent ∧ h.Evolves h' := by
  induction hs with
  | refl => exact ⟨hc, .refl h⟩
  | tail _ hs ih =>
    obtain ⟨hc', he⟩ := hs.coherent ih.1
    exact ⟨hc', ih.2.trans he⟩

end Heap

end ScriptMachine
