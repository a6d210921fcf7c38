import ScriptMachine.Proofs.Machine.Intact
import ScriptMachine.Proofs.Machine.Safe

/-! # What can happen to a machine

Everything that a machine does is made of steps (`Machine.Step`), and a run is a trail of them
(`Machine.Trail`). A step says which variables it wrote in scope records, so that a trail tells the
value of every variable that lives in one: it is the last that was written there
(`Trail.scopeRecord?`), as long as the record is there at all. A record can only go away in a
collection, and then its handle is spent. Steps keep a machine intact (`Trail.intact`). -/

namespace ScriptMachine

/-- A write to a variable in a scope record. -/
structure SlotWrite where
  /-- The record. -/
  record : Handle
  /-- The variable. -/
  index : Nat
  /-- Its new value. -/
  value : Value

/-- What writes leave in the variables of a record. -/
def SlotWrite.applyAll (id : Handle) (writes : List SlotWrite) (slots : Array Value) : Array Value :=
  writes.foldl (fun slots w =>
    if w.record = id then slots.setIfInBounds w.index w.value else slots) slots

/-- The frame is still the same call, and variables that have moved to the heap stay there. -/
structure Frame.Carries (f f' : Frame) : Prop where
  call : f'.call = f.call
  activation : ∀ a, f.activation = some a → f'.activation = some a

theorem Frame.Carries.refl (f : Frame) : f.Carries f := ⟨rfl, fun _ h => h⟩

theorem Frame.Carries.trans {f f' f'' : Frame} (h₁ : f.Carries f') (h₂ : f'.Carries f'') :
    f.Carries f'' :=
  ⟨h₂.call.trans h₁.call, fun a h => h₂.activation a (h₁.activation a h)⟩

namespace Machine

/-- What writing a register writes to scope records. -/
def registerWrites (m : Machine) (r : Register) (v : Value) : List SlotWrite :=
  match m.frame? with
  | none => []
  | some f =>
    match f.redirects r with
    | some activation => [⟨activation, r.toNat, v⟩]
    | none => []

/-- What writing a variable of an enclosing scope writes to scope records. -/
def scopedWrites (m : Machine) (depth index : UInt32) (v : Value) : List SlotWrite :=
  match m.scopeAt? depth with
  | some scope => [⟨scope, index.toNat, v⟩]
  | none => []

/-- **A step of a machine**, with the variables it writes in scope records. -/
inductive Step (m : Machine) : List SlotWrite → Machine → Prop
  /-- Operations on cells. -/
  | heap {h : Heap} : m.heap.Retains h → Step m [] { m with heap := h }
  /-- An allocation. -/
  | allocate (shape : ShapeId) {payload : Payload} : m.Admits payload →
      Step m [] { m with heap := (m.heap.allocate shape payload).2 }
  /-- A collection. -/
  | collect : Step m [] m.collect.2
  /-- Code is compiled, counted, or its caches change. -/
  | recode {codes : Array CodeEntry} : codes.size = m.codes.size →
      (∀ entry ∈ codes, m.Complete entry) → Step m [] { m with codes }
  /-- The running frame writes a register. -/
  | register (r : Register) (v : Value) : Step m (m.registerWrites r v) (m.setRegister r v)
  /-- The running frame writes a variable of an enclosing scope. -/
  | binding (depth index : UInt32) (v : Value) :
      Step m (m.scopedWrites depth index v) (m.setScopedVar depth index v)
  /-- The running frame moves on, or changes its scopes. -/
  | frame {f : Frame} {g : Frame → Frame} : m.frame? = some f → m.Grounded (g f) →
      f.Carries (g f) → Step m [] (m.modifyFrame g)
  /-- A frame is pushed, with its registers. -/
  | push {f : Frame} (registers : RegisterFile) : m.Grounded f →
      Step m [] { m with frames := m.frames.push f, registers }
  /-- The running frame is popped, with its registers. -/
  | pop (registers : RegisterFile) : Step m [] { m with frames := m.frames.pop, registers }
  /-- Something else changes. -/
  | beside {m' : Machine} : m'.heap = m.heap → m'.frames = m.frames → m'.codes = m.codes →
      m'.hosts = m.hosts → m'.registers = m.registers → Step m [] m'
  /-- A host function is registered. -/
  | host (entry : HostEntry) : Step m [] { m with hosts := m.hosts.push entry }
  /-- Code is registered. -/
  | code {entry : CodeEntry} : m.Complete entry → Step m [] { m with codes := m.codes.push entry }

/-- **A run**, with all the variables it writes in scope records. -/
inductive Trail (m : Machine) : List SlotWrite → Machine → Prop
  /-- No step. -/
  | refl : Trail m [] m
  /-- One more step. -/
  | tail {writes writes' : List SlotWrite} {m' m'' : Machine} :
      Trail m writes m' → Step m' writes' m'' → Trail m (writes ++ writes') m''

variable {m m' m'' : Machine} {writes writes' : List SlotWrite} {id : Handle} {record : ScopeRecord}

/-! ### Steps other than collections -/

/-- What a step does that is no collection. -/
structure Evolves (m : Machine) (writes : List SlotWrite) (m' : Machine) : Prop where
  codes : m.codes.size ≤ m'.codes.size
  hosts : m.hosts.size ≤ m'.hosts.size
  slots : m.heap.slots.size ≤ m'.heap.slots.size
  white : m'.heap.AllWhite
  listed : m'.heap.Roomy → m'.heap.FreeListed
  records : m'.heap.Roomy → ∀ id record, m.scopeRecord? id = some record →
    m'.scopeRecord? id = some { record with slots := SlotWrite.applyAll id writes record.slots }
  spent : ∀ id, m.heap.Spent id → m'.heap.Spent id
  admitted : ∀ id c, m'.heap.cell? id = some c → m.Admits c.payload
  grounded : ∀ f ∈ m'.frames, m.Grounded f
  complete : ∀ entry ∈ m'.codes, m.Complete entry

theorem size_applyAll (id : Handle) (writes : List SlotWrite) (slots : Array Value) :
    (SlotWrite.applyAll id writes slots).size = slots.size := by
  unfold SlotWrite.applyAll
  induction writes generalizing slots with
  | nil => rfl
  | cons w rest ih =>
    rw [List.foldl_cons, ih]
    split
    · exact Array.size_setIfInBounds
    · rfl

theorem Evolves.extends (he : m.Evolves writes m') : m.Extends m' where
  codes := he.codes
  hosts := he.hosts
  slots := he.slots
  records hr id record hrecord := ⟨_, he.records hr id record hrecord, size_applyAll id writes _, rfl⟩

theorem Evolves.intact (he : m.Evolves writes m') : m'.Intact where
  white := he.white
  listed := he.listed
  cells id c hc := he.extends.admits (he.admitted id c hc)
  frames f hf := he.extends.grounded (he.grounded f hf)
  codes entry hentry := he.extends.complete (he.complete entry hentry)

/-- A step that leaves the heap alone. -/
theorem Intact.evolves_beside (hm : m.Intact) (hheap : m'.heap = m.heap)
    (hcodes : m.codes.size ≤ m'.codes.size) (hhosts : m.hosts.size ≤ m'.hosts.size)
    (hframes : ∀ f ∈ m'.frames, m.Grounded f) (hcomplete : ∀ entry ∈ m'.codes, m.Complete entry) :
    m.Evolves [] m' where
  codes := hcodes
  hosts := hhosts
  slots := by rw [hheap]
  white := by rw [hheap]; exact hm.white
  listed := by rw [hheap]; exact hm.listed
  records _ id record hrecord := by
    rw [scopeRecord?_congr (m := m) (by rw [hheap]), hrecord]
    rfl
  spent id hs := by rwa [hheap]
  admitted id c hc := hm.cells id c (by rwa [← hheap])
  grounded := hframes
  complete := hcomplete

/-- A step that changes cells in their slots only. -/
theorem Intact.evolves_heap (hm : m.Intact) {h : Heap} (hw : h.AllWhite)
    (ho : h.slots.map Slot.outline = m.heap.slots.map Slot.outline)
    (hf : h.freeList = m.heap.freeList) (hl : m.heap.FreeListed → h.FreeListed)
    (hrecords : ∀ id record, m.scopeRecord? id = some record →
      scopeRecord? { m with heap := h } id =
        some { record with slots := SlotWrite.applyAll id writes record.slots })
    (hadmits : ∀ id c, h.cell? id = some c → m.Admits c.payload) :
    m.Evolves writes { m with heap := h } := by
  have hsize : h.slots.size = m.heap.slots.size := by
    have := congrArg Array.size ho
    simpa using this
  refine ⟨Nat.le_refl _, Nat.le_refl _, Nat.le_of_eq hsize.symm, hw, fun hr => ?_,
    fun _ => hrecords, fun id hs => hs.outline ho hf, hadmits, hm.frames, hm.codes⟩
  unfold Heap.Roomy at hr
  dsimp only at hr
  rw [hsize] at hr
  exact hl (hm.listed hr)

/-- What is admitted depends on what operations on cells leave alone. -/
theorem admits_of_fixture {c c' : Cell} (hc : m.Admits c.payload) (h : c'.fixture = c.fixture) :
    m.Admits c'.payload := by
  cases hp : c'.payload with
  | function data =>
    have := Cell.fixture_eq_function.mp (h ▸ Cell.fixture_eq_function.mpr hp)
    rwa [this] at hc
  | activation record =>
    have := Cell.fixture_eq_activation.mp (h ▸ Cell.fixture_eq_activation.mpr hp)
    rwa [this] at hc
  | _ => trivial

theorem Intact.evolves_retains (hm : m.Intact) {h : Heap} (hr : m.heap.Retains h) :
    m.Evolves [] { m with heap := h } := by
  refine hm.evolves_heap (hr.white hm.white) hr.outline hr.free hr.listed
    (fun id record hrecord => ?_) fun id c' hc' => ?_
  · rw [scopeRecord?_retains hr, hrecord]
    rfl
  · obtain ⟨c, hc, hsame⟩ := hr.cell? hc'
    exact admits_of_fixture (hm.cells id c hc) hsame

/-- **A write to a variable** in a scope record. -/
theorem Intact.evolves_setScopeSlot (hm : m.Intact) (a : Handle) (index : Nat) (v : Value) :
    m.Evolves [⟨a, index, v⟩] (m.setScopeSlot a index v) := by
  refine hm.evolves_heap (hm.white.modifyCell _) (Heap.outline_modifyCell _ _ _) rfl
    (fun hl => hl.modifyCell _) (fun id record hrecord => ?_) fun id c hc => ?_
  · have := scopeRecord?_setScopeSlot m a index v id
    refine this.trans ?_
    by_cases hid : id = a
    · subst hid
      rw [if_pos rfl, hrecord]
      simp [SlotWrite.applyAll]
    · rw [if_neg hid, hrecord]
      simp [SlotWrite.applyAll, Ne.symm hid]
  · rw [Heap.cell?_modifyCell] at hc
    split at hc
    case isFalse => exact hm.cells id c hc
    case isTrue hid =>
      subst hid
      obtain ⟨old, hold, rfl⟩ := Option.map_eq_some_iff.mp hc
      have hadmits := hm.cells id old hold
      rcases old with ⟨_, _, _, payload⟩
      cases payload <;> exact hadmits

/-- **An allocation.** -/
theorem Intact.evolves_allocate (hm : m.Intact) (shape : ShapeId) {payload : Payload}
    (hp : m.Admits payload) : m.Evolves [] { m with heap := (m.heap.allocate shape payload).2 } := by
  have hsize : m.heap.slots.size ≤ (m.heap.allocate shape payload).2.slots.size := by
    rcases Heap.allocate_cases m.heap shape payload with ⟨_, heq⟩ | ⟨bytes, -, heq⟩
    · rw [heq]
    · rw [heq]
      exact Heap.size_place _ bytes
  have hlisted (hr : (m.heap.allocate shape payload).2.Roomy) : m.heap.FreeListed :=
    hm.listed (Nat.lt_of_le_of_lt hsize hr)
  refine ⟨Nat.le_refl _, Nat.le_refl _, hsize, hm.white.allocate shape payload,
    fun hr => (hlisted hr).allocate (Nat.le_of_lt hr), fun hr id record hrecord => ?_,
    fun id hs => hs.allocate shape payload, fun id c hc => ?_, hm.frames, hm.codes⟩
  · obtain ⟨c, room, hc, hpayload⟩ := scopeRecord?_eq_some.mp hrecord
    refine scopeRecord?_eq_some.mpr ⟨c, room, ?_, hpayload⟩
    cases ho : (m.heap.allocate shape payload).1 with
    | error failure =>
      rcases Heap.allocate_cases m.heap shape payload with ⟨_, heq⟩ | ⟨_, hok, -⟩
      · simp only [heq]
        exact hc
      · rw [hok] at ho
        cases ho
    | ok new =>
      obtain ⟨hnone, hcell⟩ := Heap.cell?_allocate (hlisted hr) ho (Nat.le_of_lt hr)
      refine (hcell id).trans ?_
      rw [if_neg, hc]
      rintro rfl
      rw [hnone] at hc
      cases hc
  · rcases Heap.cell?_allocate_cases hc with hold | hnew
    · exact hm.cells id c hold
    · rwa [hnew]

/-! ### Collections -/

/-- The cells that a collection keeps. -/
theorem Intact.cell?_collect {c : Cell} (hm : m.Intact) : m.collect.2.heap.cell? id = some c ↔
    m.heap.cell? id = some c ∧ m.heap.Reachable m.anchors id := by
  rw [heap_collect]
  exact Heap.cell?_collect hm.white m.roots m.rootWords

/-- A scope record that can be reached stays. -/
theorem Intact.scopeRecord?_collect (hm : m.Intact) (hrecord : m.scopeRecord? id = some record)
    (hreach : m.heap.isLive id → m.heap.Reachable m.anchors id) :
    m.collect.2.scopeRecord? id = some record := by
  obtain ⟨c, room, hc, hp⟩ := scopeRecord?_eq_some.mp hrecord
  exact scopeRecord?_eq_some.mpr
    ⟨c, room, hm.cell?_collect.mpr ⟨hc, hreach (Heap.isLive_of_cell? hc)⟩, hp⟩

theorem Intact.size_collect (hm : m.Intact) : m.collect.2.heap.slots.size = m.heap.slots.size := by
  rw [heap_collect]
  exact Heap.size_collect hm.white _ _

/-- The scopes of a frame are what a collection starts from. -/
theorem cell_mem_frameRoots {f : Frame} (hid : f.scope = some id ∨ f.activation = some id) :
    Value.cell id ∈ frameRoots f := by
  rw [mem_frameRoots]
  rcases hid with hid | hid
  · exact .inr (.inr (.inl (by rw [hid]; rfl)))
  · exact .inr (.inr (.inr (.inl (by rw [hid]; rfl))))

theorem mem_anchors_of_frame {f : Frame} (hf : f ∈ m.frames)
    (hid : f.scope = some id ∨ f.activation = some id) : Value.cell id ∈ m.anchors :=
  Heap.mem_allRoots.mpr (.inl (mem_roots.mpr (.inr (.inl ⟨f, hf, cell_mem_frameRoots hid⟩))))

/-- **A collection keeps a machine intact.** -/
theorem Intact.collect (hm : m.Intact) : m.collect.2.Intact := by
  obtain ⟨forget, hforget, heq⟩ := collect_frame m
  have hheap : m.collect.2.heap = (m.heap.collect m.roots m.rootWords).2 := by rw [heq]
  have hframes : m.collect.2.frames = m.frames := by rw [heq]
  have hcodes : m.collect.2.codes = m.codes.map forget := by rw [heq]
  have hknows {target : CallTarget} (hk : m.Knows target) : m.collect.2.Knows target := by
    rw [heq]
    cases target with
    | script code => simpa [Knows] using hk
    | host function => exact hk
  have hroomy (hr : m.collect.2.heap.Roomy) : m.heap.Roomy := by
    unfold Heap.Roomy at hr ⊢
    rwa [hm.size_collect] at hr
  have hanchors {scope : Option Handle} (ha : m.Anchors scope)
      (hreach : ∀ id, scope = some id → m.heap.isLive id → m.heap.Reachable m.anchors id) :
      m.collect.2.Anchors scope := fun hr id hid => by
    obtain ⟨record, hrecord⟩ := ha (hroomy hr) id hid
    exact ⟨record, hm.scopeRecord?_collect hrecord (hreach id hid)⟩
  refine ⟨?_, fun hr => ?_, fun id c hc => ?_, fun f hf => ?_, fun entry hentry => ?_⟩
  · rw [hheap]
    exact hm.white.collect _ _
  · rw [hheap]
    exact (hm.listed (hroomy hr)).collect hm.white _ _
  · obtain ⟨hcell, hreach⟩ := hm.cell?_collect.mp hc
    have hadmits := hm.cells id c hcell
    cases hp : c.payload with
    | function data =>
      rw [hp] at hadmits
      exact ⟨hknows hadmits.1, hanchors hadmits.2 fun s hs =>
        .step hreach hcell (.scope hp hs)⟩
    | activation record =>
      rw [hp] at hadmits
      exact hanchors hadmits fun s hs => .step hreach hcell (.parent hp hs)
    | _ => trivial
  · rw [hframes] at hf
    have hg := hm.frames f hf
    refine ⟨?_, hanchors hg.scope fun s hs => .root (mem_anchors_of_frame hf (.inl hs)),
      fun hr id hid => ?_, fun hr => ?_⟩
    · rw [hcodes, Array.size_map]
      exact hg.code
    · obtain ⟨record, hrecord, hsize⟩ := hg.activation (hroomy hr) id hid
      exact ⟨record, hm.scopeRecord?_collect hrecord
        (.root (mem_anchors_of_frame hf (.inr hid))), hsize⟩
    · obtain ⟨ids, hlength, hc⟩ := hg.blocks (hroomy hr)
      refine ⟨ids, hlength, hc.transfer fun id hid => ?_⟩
      rw [hheap]
      exact hc.link?_collect hm.white _ _
        (fun s hs => mem_roots.mpr (.inr (.inl ⟨f, hf, cell_mem_frameRoots (.inl hs)⟩))) hid
  · rw [hcodes] at hentry
    obtain ⟨old, hold, rfl⟩ := Array.mem_map.mp hentry
    have hc := hm.codes old hold
    have hc' : m.Complete (forget old) := by
      refine hc.congr ?_ (fun l hl => hc.compiled l ?_) fun cache hcache => hc.calls cache ?_
      · rw [hforget old]
        rfl
      · rw [hforget old] at hl
        exact hl
      · rw [hforget old] at hcache
        exact hcache
    exact { hc' with
      functions := fun code hcode => by
        rw [hcodes, Array.size_map]
        exact hc'.functions code hcode
      calls := fun cache hcache callee target h => hknows (hc'.calls cache hcache callee target h) }

/-! ### Steps and runs -/

/-- **What a step does**, if it is no collection. -/
theorem Step.evolves (hm : m.Intact) (hs : Step m writes m') :
    m.Evolves writes m' ∨ writes = [] ∧ m' = m.collect.2 := by
  cases hs with
  | heap hr => exact .inl (hm.evolves_retains hr)
  | allocate shape hp => exact .inl (hm.evolves_allocate shape hp)
  | collect => exact .inr ⟨rfl, rfl⟩
  | recode hsize hc =>
    exact .inl (hm.evolves_beside rfl (Nat.le_of_eq hsize.symm) (Nat.le_refl _) hm.frames hc)
  | register r v =>
    left
    unfold registerWrites setRegister
    cases m.frame? with
    | none => exact hm.evolves_beside rfl (Nat.le_refl _) (Nat.le_refl _) hm.frames hm.codes
    | some f =>
      dsimp only
      cases f.redirects r with
      | some a => exact hm.evolves_setScopeSlot _ _ _
      | none => exact hm.evolves_beside rfl (Nat.le_refl _) (Nat.le_refl _) hm.frames hm.codes
  | binding depth index v =>
    left
    unfold scopedWrites setScopedVar
    cases m.scopeAt? depth with
    | some scope => exact hm.evolves_setScopeSlot _ _ _
    | none => exact hm.evolves_beside rfl (Nat.le_refl _) (Nat.le_refl _) hm.frames hm.codes
  | @frame f g hf hg _ =>
    refine .inl (hm.evolves_beside rfl (Nat.le_refl _) (Nat.le_refl _) (fun k hk => ?_) hm.codes)
    obtain ⟨i, hi⟩ := Array.mem_iff_getElem?.mp hk
    simp only [modifyFrame, Array.getElem?_modify] at hi
    split at hi
    case isFalse => exact hm.frames k (Array.mem_of_getElem? hi)
    case isTrue hlast =>
      rw [frame?, Array.back?_eq_getElem?, hlast] at hf
      rw [hf] at hi
      obtain rfl := Option.some.inj hi
      exact hg
  | push registers hg =>
    refine .inl (hm.evolves_beside rfl (Nat.le_refl _) (Nat.le_refl _) (fun k hk => ?_) hm.codes)
    exact (Array.mem_push.mp hk).elim (hm.frames k) fun h => h ▸ hg
  | pop registers =>
    exact .inl (hm.evolves_beside rfl (Nat.le_refl _) (Nat.le_refl _)
      (fun k hk => hm.frames k (Array.mem_toList_iff.mp (List.dropLast_subset _
        (Array.toList_pop ▸ Array.mem_toList_iff.mpr hk)))) hm.codes)
  | beside hheap hframes hcodes hhosts _ =>
    refine .inl (hm.evolves_beside hheap (by rw [hcodes]) (by rw [hhosts]) ?_ ?_)
    · rw [hframes]
      exact hm.frames
    · rw [hcodes]
      exact hm.codes
  | host entry =>
    exact .inl (hm.evolves_beside rfl (Nat.le_refl _) (by simp) hm.frames hm.codes)
  | code hc =>
    refine .inl (hm.evolves_beside rfl (by simp) (Nat.le_refl _) hm.frames fun k hk => ?_)
    exact (Array.mem_push.mp hk).elim (hm.codes k) fun h => h ▸ hc

/-- **A step keeps a machine intact.** -/
theorem Step.intact (hm : m.Intact) (hs : Step m writes m') : m'.Intact := by
  rcases hs.evolves hm with he | ⟨-, rfl⟩
  · exact he.intact
  · exact hm.collect

theorem Step.size_le (hm : m.Intact) (hs : Step m writes m') :
    m.heap.slots.size ≤ m'.heap.slots.size := by
  rcases hs.evolves hm with he | ⟨-, rfl⟩
  · exact he.slots
  · exact Nat.le_of_eq hm.size_collect.symm

/-- A spent handle stays spent. -/
theorem Step.spent (hm : m.Intact) (hs : Step m writes m') (hr : m'.heap.Roomy)
    (hspent : m.heap.Spent id) : m'.heap.Spent id := by
  have hroomy : m.heap.Roomy := Nat.lt_of_le_of_lt (hs.size_le hm) hr
  rcases hs.evolves hm with he | ⟨-, rfl⟩
  · exact he.spent id hspent
  · rw [heap_collect]
    exact hspent.collect hm.white (Nat.le_of_lt hroomy) _ _

/-- **What becomes of a scope record**: it holds what was written to it, or it is gone for good. -/
theorem Step.scopeRecord? (hm : m.Intact) (hs : Step m writes m') (hr : m'.heap.Roomy)
    (hrecord : m.scopeRecord? id = some record) :
    m'.scopeRecord? id = some { record with slots := SlotWrite.applyAll id writes record.slots } ∨
      m'.heap.Spent id := by
  have hroomy : m.heap.Roomy := Nat.lt_of_le_of_lt (hs.size_le hm) hr
  rcases hs.evolves hm with he | ⟨rfl, rfl⟩
  · exact .inl (he.records hr id record hrecord)
  · obtain ⟨c, room, hc, hp⟩ := scopeRecord?_eq_some.mp hrecord
    cases hafter : m.collect.2.heap.cell? id with
    | some c' =>
      obtain ⟨hsame, -⟩ := hm.cell?_collect.mp hafter
      obtain rfl := Option.some.inj (hc.symm.trans hsame)
      exact .inl (scopeRecord?_eq_some.mpr ⟨c, room, hafter, hp⟩)
    | none =>
      rw [heap_collect] at hafter ⊢
      exact .inr (Heap.spent_of_collect hm.white (hm.listed hroomy) _ _
        (Heap.isLive_of_cell? hc) hafter)

theorem Trail.single (hs : Step m writes m') : Trail m writes m' := .tail .refl hs

theorem Trail.trans (h₁ : Trail m writes m') (h₂ : Trail m' writes' m'') :
    Trail m (writes ++ writes') m'' := by
  induction h₂ with
  | refl => rwa [List.append_nil]
  | tail _ hs ih =>
    rw [← List.append_assoc]
    exact ih.tail hs

/-- **A run keeps a machine intact.** -/
theorem Trail.intact (hm : m.Intact) (ht : Trail m writes m') : m'.Intact := by
  induction ht with
  | refl => exact hm
  | tail _ hs ih => exact hs.intact ih

theorem Trail.size_le (hm : m.Intact) (ht : Trail m writes m') :
    m.heap.slots.size ≤ m'.heap.slots.size := by
  induction ht with
  | refl => exact Nat.le_refl _
  | tail ht hs ih => exact Nat.le_trans ih (hs.size_le (ht.intact hm))

theorem applyAll_append (id : Handle) (writes writes' : List SlotWrite) (slots : Array Value) :
    SlotWrite.applyAll id (writes ++ writes') slots =
      SlotWrite.applyAll id writes' (SlotWrite.applyAll id writes slots) := List.foldl_append

/-- **What becomes of a scope record in a run**: it holds what was written to it, or it is gone for
good. -/
theorem Trail.scopeRecord? (hm : m.Intact) (ht : Trail m writes m') (hr : m'.heap.Roomy)
    (hrecord : m.scopeRecord? id = some record) :
    m'.scopeRecord? id = some { record with slots := SlotWrite.applyAll id writes record.slots } ∨
      m'.heap.Spent id := by
  induction ht with
  | refl => exact .inl hrecord
  | @tail _ _ mid m' ht hs ih =>
    have hmid := ht.intact hm
    have hroomy : mid.heap.Roomy := Nat.lt_of_le_of_lt (hs.size_le hmid) hr
    rcases ih hroomy with hthere | hspent
    · rw [applyAll_append]
      exact hs.scopeRecord? hmid hr hthere
    · exact .inr (hs.spent hmid hr hspent)

end Machine

end ScriptMachine
