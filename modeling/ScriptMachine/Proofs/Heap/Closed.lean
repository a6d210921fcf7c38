import ScriptMachine.Proofs.Heap.Operations

/-! # Closed heaps

A heap is closed (`Heap.Closed`) when nothing in it dangles: what a cell stores, its prototype, the
persistent roots and the temporaries refer to cells that are live. Steps that store only live values
keep a heap closed (`Changes.closed`), and so do allocations (`Closed.allocate`), as long as every slot has a handle, and
collections (`Closed.collect`). -/

namespace ScriptMachine

/-- The value is no reference, or refers to a live cell. -/
def Value.Live (h : Heap) (v : Value) : Prop := ∀ id, v.cell? = some id → h.isLive id = true

namespace Heap

/-- **A closed heap.** -/
structure Closed (h : Heap) : Prop where
  /-- Cells store live values. -/
  held : ∀ id c v, h.cell? id = some c → c.Holds v → v.Live h
  /-- Cells have live prototypes. -/
  prototype : ∀ id c, h.cell? id = some c → (h.shapes.get c.shape).prototype.Live h
  /-- Persistent roots are live. -/
  roots : ∀ v, some v ∈ h.roots → v.Live h
  /-- Temporaries are live. -/
  temporaries : ∀ v ∈ h.temporaries, v.Live h

variable {P : Value → Prop} {h h' : Heap} {id : Handle} {c : Cell} {v : Value}

theorem live_cell : (Value.cell id).Live h ↔ h.isLive id = true := by
  simp [Value.Live]

theorem Evolves.value (he : h.Evolves h') (hv : v.Live h) : v.Live h' :=
  fun id hid => he.live id (hv id hid)

theorem live_congr (hcell : h'.cell? = h.cell?) : v.Live h' ↔ v.Live h := by
  unfold Value.Live
  rw [isLive_congr hcell]

/-- A heap is closed if it changed in nothing that matters. -/
theorem Closed.congr (hc : h.Closed) (hcell : h'.cell? = h.cell?) (hs : h'.shapes = h.shapes)
    (hr : h'.roots = h.roots) (ht : ∀ v ∈ h'.temporaries, v.Live h) : h'.Closed where
  held id c v hid hh := by
    rw [hcell] at hid
    exact (live_congr hcell).mpr (hc.held id c v hid hh)
  prototype id c hid := by
    rw [hcell] at hid
    rw [hs]
    exact (live_congr hcell).mpr (hc.prototype id c hid)
  roots v hv := by
    rw [hr] at hv
    exact (live_congr hcell).mpr (hc.roots v hv)
  temporaries v hv := (live_congr hcell).mpr (ht v hv)

/-! ### Allocation -/

theorem size_place (cell : Cell) (bytes : Nat) : h.slots.size ≤ (h.place cell bytes).2.slots.size := by
  unfold place
  split <;> simp

theorem hasRoom_of_place {cell : Cell} {bytes : Nat}
    (hr : (h.place cell bytes).2.slots.size ≤ 2 ^ 32) : h.HasRoom := by
  intro hempty
  have hb : h.freeList.back? = none := Array.back?_eq_none_iff.mpr hempty
  rw [place_new hb] at hr
  simp only [Array.size_push] at hr
  omega

/-- **An allocated cell** is new, and all other handles name what they did. -/
theorem cell?_allocate (hf : h.FreeListed) {shape : ShapeId} {payload : Payload} {id : Handle}
    (ho : (h.allocate shape payload).1 = .ok id)
    (hr : (h.allocate shape payload).2.slots.size ≤ 2 ^ 32) :
    h.cell? id = none ∧ ∀ other, (h.allocate shape payload).2.cell? other =
      if other = id then some (Cell.new shape (h.shapes.get shape).slotCount payload)
      else h.cell? other := by
  rcases allocate_cases h shape payload with ⟨failure, heq⟩ | ⟨bytes, hid, heq⟩
  · rw [heq] at ho
    cases ho
  · obtain rfl := Except.ok.inj (hid.symm.trans ho)
    rw [heq] at hr ⊢
    obtain ⟨hnone, hother⟩ := cell?_place hf (hasRoom_of_place hr)
      (Cell.new shape (h.shapes.get shape).slotCount payload) bytes
    exact ⟨hnone, fun other => hother other⟩

theorem FreeListed.allocate (hf : h.FreeListed) {shape : ShapeId} {payload : Payload}
    (hr : (h.allocate shape payload).2.slots.size ≤ 2 ^ 32) :
    (h.allocate shape payload).2.FreeListed := by
  rcases allocate_cases h shape payload with ⟨failure, heq⟩ | ⟨bytes, -, heq⟩
  · rw [heq]
    exact hf
  · rw [heq] at hr ⊢
    exact (hf.place (hasRoom_of_place hr) _ bytes).congr rfl rfl

theorem holds_new {shape : ShapeId} {count : Nat} {payload : Payload}
    (hv : (Cell.new shape count payload).Holds v) : v = .undefined ∨ v ∈ payload.references := by
  rcases hv with hv | hv
  · left
    rcases Cell.mem_ensureSlots hv with hv | hv
    · exact (Array.mem_replicate.mp hv).2
    · exact hv
  · right
    rw [← (payload_new shape count payload).1]
    exact hv

theorem Closed.allocate (hc : h.Closed) (hco : h.Coherent) (hf : h.FreeListed) {shape : ShapeId}
    {payload : Payload} {prototype : Value}
    (hroot : h.shapes.roots[(payload.kind, prototype)]? = some shape) (hp : prototype.Live h)
    (hv : ∀ v ∈ payload.references, v.Live h)
    (hr : (h.allocate shape payload).2.slots.size ≤ 2 ^ 32) :
    (h.allocate shape payload).2.Closed := by
  have he : h.Evolves (h.allocate shape payload).2 := (hco.allocate hroot).2
  cases ho : (h.allocate shape payload).1 with
  | error failure =>
    rcases allocate_cases h shape payload with ⟨_, heq⟩ | ⟨_, hid, -⟩
    · rw [heq]
      exact hc
    · rw [ho] at hid
      cases hid
  | ok new =>
    obtain ⟨-, hother⟩ := cell?_allocate hf ho hr
    have hnew : (h.allocate shape payload).2.isLive new = true := by
      exact isLive_of_cell? ((hother new).trans (if_pos rfl))
    rcases allocate_cases h shape payload with ⟨_, heq⟩ | ⟨bytes, hid, heq⟩
    · rw [heq] at ho
      cases ho
    · obtain rfl := Except.ok.inj (hid.symm.trans ho)
      have hshapes : (h.allocate shape payload).2.shapes = h.shapes := by rw [heq]
      have hroots : (h.allocate shape payload).2.roots = h.roots := by rw [heq]
      have htemps : (h.allocate shape payload).2.temporaries =
          h.temporaries.push (.cell (h.place (Cell.new shape (h.shapes.get shape).slotCount payload)
            bytes).1) := by rw [heq]
      refine ⟨fun id c v hcell hh => ?_, fun id c hcell => ?_, fun v hv => ?_, fun v hv => ?_⟩
      · rw [hother] at hcell
        split at hcell
        · obtain rfl := Option.some.inj hcell
          rcases holds_new hh with rfl | hm
          · exact fun id hid => by simp at hid
          · exact he.value (hv v hm)
        · exact he.value (hc.held id c v hcell hh)
      · rw [hshapes]
        rw [hother] at hcell
        split at hcell
        · obtain rfl := Option.some.inj hcell
          rw [(payload_new _ _ _).2, (hco.shapes.root _ _ _ hroot).2.2.1]
          exact he.value hp
        · exact he.value (hc.prototype id c hcell)
      · rw [hroots] at hv
        exact he.value (hc.roots v hv)
      · rw [htemps] at hv
        rcases Array.mem_push.mp hv with hv | rfl
        · exact he.value (hc.temporaries v hv)
        · exact live_cell.mpr hnew

/-! ### Steps -/

/-- What steps leave alone: slots come and go only by allocations and collections. -/
structure Keeps (h h' : Heap) : Prop where
  /-- No slot is added. -/
  size : h'.slots.size = h.slots.size
  /-- No handle begins or ceases to name a cell, or names one of another kind. -/
  kinds : ∀ id, (h'.cell? id).map Cell.kind = (h.cell? id).map Cell.kind
  /-- The free list stays. -/
  freeList : h'.freeList = h.freeList
  /-- So do the removed roots. -/
  freeRoots : h'.freeRoots = h.freeRoots
  /-- Empty slots stay empty. -/
  listed : h.FreeListed → h'.FreeListed

theorem Keeps.refl (h : Heap) : h.Keeps h := ⟨rfl, fun _ => rfl, rfl, rfl, fun h => h⟩

theorem Keeps.trans {h'' : Heap} (h₁ : h.Keeps h') (h₂ : h'.Keeps h'') : h.Keeps h'' :=
  ⟨h₂.size.trans h₁.size, fun id => (h₂.kinds id).trans (h₁.kinds id),
    h₂.freeList.trans h₁.freeList, h₂.freeRoots.trans h₁.freeRoots,
    fun hf => h₂.listed (h₁.listed hf)⟩

theorem Change.keeps (hs : Change P h h') : h.Keeps h' := by
  cases hs with
  | intern name => exact ⟨rfl, fun _ => rfl, rfl, rfl, fun hf => hf.congr rfl rfl⟩
  | root kind prototype => exact ⟨rfl, fun _ => rfl, rfl, rfl, fun hf => hf.congr rfl rfl⟩
  | @update id c t f hcell hu =>
    refine ⟨by simp [modifyCell], fun id' => ?_, rfl, rfl, fun hf => ?_⟩
    · rw [cell?_move hcell]
      split
      case isTrue heq =>
        rw [heq, hcell]
        exact congrArg some hu.kind
      case isFalse => rfl
    · have hf' : ({ h with shapes := t } : Heap).FreeListed := hf.congr rfl rfl
      exact hf'.modifyCell f
  | count id =>
    have hframe := refreshFootprint_frame h id
    refine ⟨?_, fun id' => by rw [cell?_refreshFootprint], by rw [hframe], by rw [hframe],
      fun hf => hf.refreshFootprint⟩
    cases hc : h.cell? id with
    | none => rw [refreshFootprint_of_none hc]
    | some c =>
      obtain ⟨slot, hs, hg, hc⟩ := cell?_eq_some.mp hc
      rw [refreshFootprint_of_cell? hs hg hc]
      simp
  | protect _ =>
    obtain ⟨more, heq⟩ := pushTemporary_eq h _
    rw [heq]
    exact ⟨rfl, fun _ => rfl, rfl, rfl, fun hf => hf.congr rfl rfl⟩

theorem Changes.keeps (hs : Changes P h h') : h.Keeps h' := by
  induction hs with
  | refl => exact .refl h
  | tail _ hs ih => exact ih.trans hs.keeps

theorem Closed.update (hc : h.Closed) (hco : h.Coherent) {t : ShapeTable} {f : Cell → Cell}
    (hcell : h.cell? id = some c) (hu : h.Update (·.Live h) c t (f c)) :
    ({ h with shapes := t }.modifyCell id f).Closed := by
  obtain ⟨-, he⟩ := hco.move hcell hu.moves rfl hu.kind hu.named hu.single
  refine ⟨fun id' c' v hid hh => ?_, fun id' c' hid => ?_, fun v hv => he.value (hc.roots v hv),
    fun v hv => he.value (hc.temporaries v hv)⟩
  · rw [cell?_move hcell] at hid
    split at hid
    · obtain rfl := Option.some.inj hid
      rcases hu.holds v hh with hold | hnew
      · exact he.value (hc.held id c v hcell hold)
      · exact he.value hnew
    · exact he.value (hc.held id' c' v hid hh)
  · rw [cell?_move hcell] at hid
    split at hid
    · obtain rfl := Option.some.inj hid
      change ((t.get (f c).shape).prototype).Live _
      rw [hu.prototype]
      exact he.value (hc.prototype id c hcell)
    case isFalse hne =>
      change ((t.get c'.shape).prototype).Live _
      rw [(hco.shape_of_other hcell hu.moves hne hid).2]
      exact he.value (hc.prototype id' c' hid)

/-- **A step that stores live values keeps a heap closed.** -/
theorem Change.closed (hc : h.Closed) (hco : h.Coherent) (hs : Change (·.Live h) h h') :
    h'.Closed := by
  have he := (hs.coherent hco).2
  cases hs with
  | intern name => exact hc.congr (cell?_congr rfl) rfl rfl hc.temporaries
  | root kind prototype =>
    obtain ⟨hg, -⟩ := ShapeTable.root_spec hco.shapes kind prototype
    refine ⟨fun id c v hid hh => he.value (hc.held id c v hid hh), fun id c hid => ?_,
      fun v hv => he.value (hc.roots v hv), fun v hv => he.value (hc.temporaries v hv)⟩
    have hget := (hg.keeps c.shape (hco.live id c hid) fun h => h).2
    rw [show (h.rootShape kind prototype).2.shapes = (h.shapes.root kind prototype).2 from rfl, hget]
    exact he.value (hc.prototype id c hid)
  | update hcell hu => exact hc.update hco hcell hu
  | count id =>
    have hframe := refreshFootprint_frame h id
    refine hc.congr (cell?_refreshFootprint h id) ?_ ?_ fun v hv => ?_
    · rw [hframe]
    · rw [hframe]
    · rw [hframe] at hv
      exact hc.temporaries v hv
  | @protect v hv =>
    unfold pushTemporary
    split
    · refine hc.congr (cell?_congr rfl) rfl rfl fun w hw => ?_
      rcases Array.mem_push.mp hw with hw | rfl
      · exact hc.temporaries w hw
      · exact hv
    · exact hc

/-- **Operations that store live values keep a heap closed.** -/
theorem Changes.closed (hc : h.Closed) (hco : h.Coherent) (hs : Changes (·.Live h) h h') :
    h'.Closed := by
  induction hs with
  | refl => exact hc
  | tail hs hlast ih =>
    obtain ⟨hco', he⟩ := hs.coherent hco
    exact (hlast.mono fun v hv => he.value hv).closed ih hco'

/-! ### Collections -/

/-- What a collection starts from stays live. -/
theorem live_collect (hw : h.AllWhite) {values : List Value} {words : List UInt64}
    (hm : v ∈ h.allRoots values words) (hv : v.Live h) : v.Live (h.collect values words).2 := by
  intro id hid
  obtain ⟨c, hc⟩ := isLive_iff.mp (hv id hid)
  rw [Value.cell?_eq_some.mp hid] at hm
  exact isLive_of_cell? ((cell?_collect hw values words).mpr ⟨hc, .root hm (isLive_of_cell? hc)⟩)

/-- **A collection keeps a heap closed.** -/
theorem Closed.collect (hc : h.Closed) (hw : h.AllWhite) (values : List Value)
    (words : List UInt64) : (h.collect values words).2.Closed := by
  have hframe := collect_frame hw values words
  have hroots : (h.collect values words).2.roots = h.roots := by rw [hframe]
  have htemps : (h.collect values words).2.temporaries = h.temporaries := by rw [hframe]
  have hchild {id : Handle} {c : Cell} {v : Value}
      (hid : (h.collect values words).2.cell? id = some c) (hm : v ∈ h.references c)
      (hv : v.Live h) : v.Live (h.collect values words).2 := by
    intro child hchild
    obtain ⟨hcell, hr⟩ := (cell?_collect hw values words).mp hid
    obtain ⟨d, hd⟩ := isLive_iff.mp (hv child hchild)
    rw [Value.cell?_eq_some.mp hchild] at hm
    exact isLive_of_cell? ((cell?_collect hw values words).mpr
      ⟨hd, .step hr hcell (mem_references.mp hm) (isLive_of_cell? hd)⟩)
  refine ⟨fun id c v hid hh => ?_, fun id c hid => ?_, fun v hv => ?_, fun v hv => ?_⟩
  · have hcell := ((cell?_collect hw values words).mp hid).1
    refine hchild hid ?_ (hc.held id c v hcell hh)
    unfold references
    rcases hh with hh | hh
    · simp [hh]
    · simp [hh]
  · have hcell := ((cell?_collect hw values words).mp hid).1
    rw [shape_collect hw values words hid]
    exact hchild hid (by simp [references]) (hc.prototype id c hcell)
  · rw [hroots] at hv
    exact live_collect hw (mem_allRoots.mpr (.inr (.inr (.inl hv)))) (hc.roots v hv)
  · rw [htemps] at hv
    exact live_collect hw (mem_allRoots.mpr (.inr (.inr (.inr hv)))) (hc.temporaries v hv)

end Heap

end ScriptMachine
