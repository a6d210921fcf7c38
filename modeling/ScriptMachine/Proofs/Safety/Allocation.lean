import ScriptMachine.Proofs.Heap.Faults
import ScriptMachine.Proofs.Machine.Access
import ScriptMachine.Proofs.Machine.Runs

/-! # Allocating and raising are safe

An allocation may collect first. What it stores must be guarded, so that it outlives the collection
(`Runs.allocate`); the new cell is a temporary, so that it outlives the next one. A write that runs out
of memory collects and is tried again, with operands that are guarded (`Runs.heapWrite`). -/

namespace ScriptMachine

open Machine

/-- `m'` still holds on to what `m` does, and runs the same frames. -/
structure Machine.Steady (m m' : Machine) : Prop where
  frames : m'.frames = m.frames
  anchors : ∀ v ∈ m.anchors, v ∈ m'.anchors

namespace Machine

variable {m m' m'' : Machine} {v : Value} {h : Heap}

theorem Steady.refl (m : Machine) : m.Steady m := ⟨rfl, fun _ h => h⟩

theorem Steady.trans (h₁ : m.Steady m') (h₂ : m'.Steady m'') : m.Steady m'' :=
  ⟨h₂.frames.trans h₁.frames, fun v hv => h₂.anchors v (h₁.anchors v hv)⟩

theorem steady_evolves (he : m.heap.Evolves h) : m.Steady { m with heap := h } := by
  refine ⟨rfl, fun v hv => ?_⟩
  obtain ⟨more, hmore⟩ := he.temporaries
  rcases mem_anchors.mp hv with hv | hv | hv | hv
  · exact mem_anchors.mpr (.inl hv)
  · exact mem_anchors.mpr (.inr (.inl hv))
  · exact mem_anchors.mpr (.inr (.inr (.inl (he.persistent v hv))))
  · refine mem_anchors.mpr (.inr (.inr (.inr ?_)))
    simp only [hmore]
    exact Array.mem_append_left _ hv

theorem steady_changes {P : Value → Prop} (hs : m.Safe) (hc : Heap.Changes P m.heap h) :
    m.Steady { m with heap := h } := steady_evolves (hc.coherent hs.heap).2

theorem steady_collect (hs : m.Safe) : m.Steady m.collect.2 := by
  obtain ⟨_, _, heq⟩ := collect_frame m
  exact ⟨by rw [heq], fun v hv => by rw [anchors_collect hs]; exact hv⟩

theorem Safe.guards_temporary (hs : m.Safe) (hv : v ∈ m.heap.temporaries) : m.Guards v :=
  hs.guards (mem_anchors.mpr (.inr (.inr (.inr hv))))

theorem Safe.guards_intrinsic (hs : m.Safe) {id : Handle} (hid : id ∈ m.intrinsics.objects) :
    m.Guards (.cell id) :=
  hs.guards (mem_anchors.mpr (.inr (.inr (.inl (hs.anchored.intrinsics.rooted id hid)))))

theorem Guards.intern (hg : m.Guards v) (name : String) :
    Guards { m with heap := (m.heap.intern name).2 } v :=
  hg.congr rfl rfl (fun _ _ _ => rfl) fun _ h => h

theorem Guards.rootShape (hg : m.Guards v) (hs : m.Safe) (kind : CellKind) (prototype : Value) :
    Guards { m with heap := (m.heap.rootShape kind prototype).2 } v := by
  obtain ⟨hgrown, -⟩ := ShapeTable.root_spec hs.heap.shapes kind prototype
  refine hg.congr rfl rfl (fun id c hcell => ?_) fun _ h => h
  have hkeeps := (hgrown.keeps _ (hs.heap.live id c hcell) fun h => h).2
  change (((m.heap.shapes.root kind prototype).2.get c.shape).prototype :: c.slots.toList) ++ _ = _
  rw [hkeeps]
  rfl

/-! ### A new cell -/

section Allocate
variable {shape : ShapeId} {payload : Payload} {prototype : Value}

theorem size_le_allocate (h : Heap) (shape : ShapeId) (payload : Payload) :
    h.slots.size ≤ (h.allocate shape payload).2.slots.size := by
  rcases Heap.allocate_cases h shape payload with ⟨_, heq⟩ | ⟨bytes, -, heq⟩
  · rw [heq]
  · rw [heq]
    exact Heap.size_place _ bytes

theorem grows_allocate (hs : m.Safe)
    (hr : m.heap.shapes.roots[(payload.kind, prototype)]? = some shape) :
    m.Grows { m with heap := (m.heap.allocate shape payload).2 } :=
  ⟨size_le_allocate _ _ _, (hs.heap.allocate hr).2.atoms⟩

/-- **A new cell that stores values that are held** keeps a machine safe. -/
theorem Safe.allocate (hs : m.Safe)
    (hr : m.heap.shapes.roots[(payload.kind, prototype)]? = some shape) (hp : m.Holds prototype)
    (hv : ∀ v ∈ payload.references, m.Holds v) :
    Safe { m with heap := (m.heap.allocate shape payload).2 } := by
  obtain ⟨hco, he⟩ := hs.heap.allocate hr
  refine ⟨hco, ⟨hs.anchored.intrinsics.evolves he, hs.anchored.names.extends he.atoms⟩,
    hs.caches.evolves rfl he (fun _ _ _ h => h),
    fun entry hentry => (hs.codes entry hentry).extends he.atoms, hs.listeners, hs.hosts,
    fun failure hf ha => hs.parked failure hf ((grows_allocate hs hr).addressable ha), fun ha => ?_⟩
  have ha' : m.Addressable := (grows_allocate hs hr).addressable ha
  have hclean := hs.clean ha'
  have hclosed : (m.heap.allocate shape payload).2.Closed :=
    hclean.closed.allocate hs.heap hclean.listed hr (hp ha') (fun v h => hv v h ha') ha
  have hproto : (m.heap.shapes.get shape).prototype.Live m.heap := by
    rw [(hs.heap.shapes.root _ _ _ hr).2.2.1]
    exact hp ha'
  refine ⟨hclosed, hclean.listed.allocate ha, hclean.acyclic.allocate hclean.listed hproto ha,
    fun v hv => ?_⟩
  rcases mem_anchors.mp hv with hv | hv | hv | hv
  · exact he.value (hclean.anchors v (mem_anchors.mpr (.inl hv)))
  · exact he.value (hclean.anchors v (mem_anchors.mpr (.inr (.inl hv))))
  · exact hclosed.roots v hv
  · exact hclosed.temporaries v hv

theorem temporary_allocate {id : Handle} (hid : (m.heap.allocate shape payload).1 = .ok id) :
    .cell id ∈ (m.heap.allocate shape payload).2.temporaries := by
  rcases Heap.allocate_cases m.heap shape payload with ⟨_, heq⟩ | ⟨bytes, hok, heq⟩
  · rw [heq] at hid
    cases hid
  · obtain rfl := Except.ok.inj (hok.symm.trans hid)
    rw [heq]
    simp

end Allocate

end Machine

namespace Runs

variable {α : Type} {env : Env} {m : Machine} {Q : α → Machine → Prop} {v : Value}

theorem collect (hs : m.Safe) :
    Runs env m collectGarbage fun _ m' => m' = m.collect.2 :=
  step hs.collect (grows_collect hs) rfl

theorem discardCollect (hs : m.Safe) :
    Runs env m (discard collectGarbage) fun _ m' => m' = m.collect.2 := by
  change Runs env m (collectGarbage >>= fun _ => pure ()) _
  refine bind (collect hs) ?_
  rintro _ m' hs' _ hm'
  exact ret hs' hm'

/-- What an allocation promises: the frames and anchors are kept, the new cell is a temporary, and the
values that were guarded are held. -/
structure Allocated (m : Machine) (v : Value) (m' : Machine) : Prop where
  steady : m.Steady m'
  temporary : v ∈ m'.heap.temporaries
  kept : ∀ v, m.Guards v → m'.Holds v

/-- A new cell is held. -/
theorem Allocated.holds {x : MachineM α} {value : α → Value}
    (hx : Runs env m x fun a => Allocated m (value a)) :
    Runs env m x fun a m' => m'.Holds (value a) :=
  hx.monoSafe fun _ _ hs h => (hs.guards_temporary h.temporary).holds

/-- **An allocation**, with an empty shape of a guarded prototype. -/
theorem allocate (hs : m.Safe) {shape : ShapeId} {payload : Payload} {hexact : payload.Exact}
    {kind : CellKind} {prototype : Value} (hk : payload.kind = kind)
    (hr : m.heap.shapes.roots[(kind, prototype)]? = some shape) (hp : m.Guards prototype)
    (hlive : prototype.Live m.heap) (hv : ∀ v ∈ payload.references, m.Guards v) :
    Runs env m (allocate shape payload hexact) fun id => Allocated m (.cell id) := by
  subst hk
  have hplace {m₁ : Machine} (hs₁ : m₁.Safe) (hsteady : m.Steady m₁)
      (hkept : ∀ v, m.Guards v → m₁.Holds v)
      (hr₁ : m₁.heap.shapes.roots[(payload.kind, prototype)]? = some shape) :
      Runs env m₁ (allocateCell shape payload) fun id => Allocated m (.cell id) := by
    refine pass hs₁ (fun v h => hkept v (hv v h)) ?_
    have hsafe := hs₁.allocate hr₁ (hkept _ hp) fun v h => hkept v (hv v h)
    have hgrows := grows_allocate hs₁ hr₁
    have he := (hs₁.heap.allocate hr₁).2
    have hstep : Runs env m₁ (ScriptMachine.withHeap (·.allocate shape payload)) fun r m' =>
        r = (m₁.heap.allocate shape payload).1 ∧
          m' = { m₁ with heap := (m₁.heap.allocate shape payload).2 } :=
      step hsafe hgrows ⟨rfl, rfl⟩
    refine bind hstep ?_
    rintro r m' hs' _ ⟨hres, rfl⟩
    cases r with
    | error failure =>
      refine fatal hs' fun _ => ?_
      rcases Heap.allocate_cases m₁.heap shape payload with ⟨failure', heq⟩ | ⟨_, hok, _⟩
      · rw [heq] at hres
        rw [Except.error.inj hres]
        intro hstale
        simp only [Heap.allocate] at heq
        split at heq
        · obtain ⟨hfail, -⟩ := Prod.mk.inj heq
          rw [hstale] at hfail
          cases hfail
        · cases (Prod.mk.inj heq).1
      · rw [hok] at hres
        cases hres
    | ok id =>
      refine ret hs' ⟨hsteady.trans (steady_evolves he), temporary_allocate hres.symm, ?_⟩
      intro v hg ha
      exact he.value (hkept v hg (hgrows.addressable ha))
  unfold ScriptMachine.allocate
  refine pass hs (fun v h => (hv v h).holds) ?_
  refine look (ite (fun _ => ?_) fun _ => hplace hs (.refl m) (fun v hg => hg.holds) hr)
  refine bind (discardCollect hs) ?_
  rintro _ _ hs' _ rfl
  refine hplace hs' (steady_collect hs) (fun v hg => hg.collect hs) ?_
  have hlive' := hp.live_collect hs hlive
  rw [heap_collect] at hlive' ⊢
  exact hs.heap.root_collect _ _ hlive' hr

theorem newObject (hs : m.Safe) : Runs env m newObject (Allocated m) := by
  have hroot := hs.anchored.intrinsics.shaped.object
  have hmem : m.intrinsics.objectPrototype ∈ m.intrinsics.objects := by simp [Intrinsics.objects]
  refine look (bind (allocate hs rfl hroot (hs.guards_intrinsic hmem)
    (Heap.live_cell.mpr (hs.anchored.intrinsics.live _ hmem)) (by simp [Payload.references])) ?_)
  intro id m' hs' _ ha
  exact ret hs' ha

theorem newArray (hs : m.Safe) {elements : Elements} (hv : ∀ v ∈ elements.items, m.Guards v) :
    Runs env m (newArray elements) (Allocated m) := by
  have hroot := hs.anchored.intrinsics.shaped.array
  have hmem : m.intrinsics.arrayPrototype ∈ m.intrinsics.objects := by simp [Intrinsics.objects]
  refine look (bind (allocate hs rfl hroot (hs.guards_intrinsic hmem)
    (Heap.live_cell.mpr (hs.anchored.intrinsics.live _ hmem)) ?_) ?_)
  · simpa [Payload.references] using hv
  · intro id m' hs' _ ha
    exact ret hs' ha

theorem newString (hs : m.Safe) (text : String) : Runs env m (newString text) (Allocated m) := by
  have hroot := hs.anchored.intrinsics.shaped.string
  refine look (bind (allocate hs rfl hroot (guards_of_not_cell (by simp)) ?_
    (by simp [Payload.references])) ?_)
  · intro id hid
    simp at hid
  · intro id m' hs' _ ha
    exact ret hs' ha

/-! ### Operations of the heap -/

/-- Steps of the heap that store values that are held. -/
theorem withHeap (hs : m.Safe) {f : Heap → α × Heap}
    (hc : Heap.Changes m.Holds m.heap (f m.heap).2)
    (hQ : Q (f m.heap).1 { m with heap := (f m.heap).2 }) : Runs env m (withHeap f) Q :=
  step (hs.changes hc) (grows_changes hs hc) hQ

theorem modifyHeap (hs : m.Safe) {f : Heap → Heap} {Q : PUnit → Machine → Prop}
    (hc : Heap.Changes m.Holds m.heap (f m.heap)) (hQ : Q ⟨⟩ { m with heap := f m.heap }) :
    Runs env m (modifyHeap f) Q :=
  update (hs.changes hc) (grows_changes hs hc) hQ

/-- An operation that stores values that are held. -/
theorem tryHeap (hs : m.Safe) {x : HeapM α}
    (hx : Heap.Changes m.Holds m.heap (leaves (x m.heap))) :
    Runs env m (tryHeap x) fun r m' =>
      m' = { m with heap := leaves (x m.heap) } ∧ Ran x m.heap r m' := by
  have hsafe := hs.changes hx
  have hgrows := grows_changes hs hx
  have heq (env : Env) := tryHeap_eq x env m
  cases hr : x m.heap with
  | ok a h =>
    rw [hr] at heq hsafe hgrows
    exact known heq hsafe hgrows ⟨rfl, hr⟩
  | error fault h =>
    rw [hr] at heq hsafe hgrows
    exact known heq hsafe hgrows ⟨rfl, hr⟩

theorem intern (hs : m.Safe) (name : String) : Runs env m (intern name) fun atom m' =>
    m' = { m with heap := (m.heap.intern name).2 } ∧ m'.heap.atoms.Knows atom := by
  exact withHeap hs (.single (.intern name)) ⟨rfl, AtomTable.knows_intern hs.heap.atoms name⟩

theorem notifyAt (hs : m.Safe) (kind : EventKind) (exception : Option Value)
    (line : Option UInt32) : Runs env m (notifyAt kind exception line) fun _ m' => m' = m := by
  unfold ScriptMachine.notifyAt
  refine look (ite (fun h => ?_) fun _ => ret hs rfl)
  rw [hs.listeners] at h
  cases h

/-- **Raising a value** that is held. -/
theorem raise (hs : m.Safe) (hv : m.Holds v) : Runs env m (raise v) Q := by
  have hc : Heap.Changes m.Holds m.heap (m.heap.pushTemporary v) := .single (.protect hv)
  have hsafe := hs.changes hc
  have hheld : Machine.Holds { m with heap := m.heap.pushTemporary v } v := hv.changes hs hc
  have hgrows := grows_changes hs hc
  have hraised : Safe { m with heap := m.heap.pushTemporary v, lastRaised := some v
                               exceptionTrace := m.captureTrace } := by
    refine hsafe.rehold rfl rfl rfl rfl rfl rfl hsafe.parked (fun w hw => ?_)
      fun w hw => hsafe.holds_word hw
    by_cases heq : w = v
    · rw [heq]
      exact hheld
    · apply hsafe.holds_root
      simp only [roots, List.mem_append, Option.mem_toList, Option.some.injEq] at hw ⊢
      rcases hw with ((((hw | hw) | hw) | hw) | hw) | hw
      · exact .inl (.inl (.inl (.inl (.inl hw))))
      · exact .inl (.inl (.inl (.inl (.inr hw))))
      · exact .inl (.inl (.inl (.inr hw)))
      · exact absurd hw.symm heq
      · exact .inl (.inr hw)
      · exact .inr hw
  unfold ScriptMachine.raise
  refine bind (Q := fun _ m' => m'.Holds v) (update hraised ⟨hgrows.slots, hgrows.atoms⟩ hheld) ?_
  intro _ m₁ hs₁ _ hv₁
  refine bind (notifyAt hs₁ _ _ _) ?_
  rintro _ _ hs₂ _ rfl
  exact unwind hs₂ hv₁

theorem newError (hs : m.Safe) (kind : ErrorKind) (message : String) :
    Runs env m (newError kind message) fun v m' => m'.Holds v := by
  have hmem := hs.anchored.intrinsics.errors kind
  have hroot := (ShapeTable.root_spec hs.heap.shapes .object
    (.cell (m.intrinsics.errorPrototype kind))).2
  unfold ScriptMachine.newError
  refine look (bind (Q := fun shape m' =>
    shape = (m.heap.rootShape .object (.cell (m.intrinsics.errorPrototype kind))).1 ∧
    m' = { m with heap := (m.heap.rootShape .object
      (.cell (m.intrinsics.errorPrototype kind))).2 })
    (withHeap hs (.single (.root .object _)) ⟨rfl, rfl⟩) ?_)
  rintro _ _ hs₁ _ ⟨rfl, rfl⟩
  refine bind (allocate hs₁ rfl hroot (hs₁.guards_intrinsic hmem)
    (Heap.live_cell.mpr (hs₁.anchored.intrinsics.live _ hmem)) (by simp [Payload.references])) ?_
  intro object m₂ hs₂ _ ho
  have hobject := hs₂.guards_temporary ho.temporary
  refine bind (newString hs₂ message) ?_
  intro text m₃ hs₃ _ ht
  have hobject₃ := ht.kept _ hobject
  have htext₃ := (hs₃.guards_temporary ht.temporary).holds
  refine pass hs₃ (by simp [hobject₃, htext₃]) ?_
  have hdef := Heap.defineProperty_changes (storable_holds m₃) htext₃ hs₃.heap object
    hs₃.anchored.names.message { dontEnum := true }
  refine look (bind (tryHeap hs₃ hdef) ?_)
  rintro r m₄ hs₄ hg₄ ⟨hm₄, hr⟩
  cases r with
  | ok _ =>
    refine ret hs₄ ?_
    rw [hm₄]
    exact hobject₃.changes hs₃ hdef
  | error fault =>
    refine fatal hs₄ fun ha => ?_
    have hlive := hobject₃ (hg₄.addressable ha) object (by simp)
    obtain ⟨c, hcell⟩ := Heap.isLive_iff.mp hlive
    obtain ⟨h', hok⟩ := @Heap.defineProperty_ok _ object c m₃.names.message text
      { dontEnum := true } hcell
    have hr' : Heap.defineProperty object m₃.names.message text { dontEnum := true } m₃.heap = _ :=
      hr
    rw [hok] at hr'
    cases hr'

theorem raiseError (hs : m.Safe) (kind : ErrorKind) (message : String) :
    Runs env m (raiseError kind message) Q := by
  refine bind (newError hs kind message) ?_
  intro v m' hs' _ hv
  exact raise hs' hv

theorem propertyFault (hs : m.Safe) {fault : PropertyFault}
    (hf : m.Addressable → fault ≠ .staleHandle) : Runs env m (propertyFault fault) Q := by
  cases fault with
  | staleHandle => exact fatal hs fun ha => absurd rfl (hf ha)
  | outOfMemory => exact look (fatal hs fun _ => by simp)
  | invalidArrayLength => exact raiseError hs _ _
  | prototypeCycle | prototypeChainTooLong | invalidPrototype => exact raiseError hs _ _

/-- An operation on a cell that is held. -/
theorem runHeap (hs : m.Safe) {x : HeapM α}
    (hx : Heap.Changes m.Holds m.heap (leaves (x m.heap)))
    (hf : m.Addressable → ∀ h, x m.heap ≠ .error .staleHandle h) :
    Runs env m (runHeap x) fun a m' =>
      m' = { m with heap := leaves (x m.heap) } ∧ x m.heap = .ok a m'.heap := by
  refine bind (tryHeap hs hx) ?_
  rintro r m' hs' hg ⟨hm', hr⟩
  cases r with
  | ok a => exact ret hs' ⟨hm', hr⟩
  | error fault =>
    refine propertyFault hs' fun ha hstale => ?_
    rw [hstale] at hr
    exact hf (hg.addressable ha) _ hr

/-- **A write that is tried again after a collection**, with operands that are guarded. -/
theorem heapWrite (hs : m.Safe) (id : Handle) {held : List Value} {x : HeapM α}
    (hid : .cell id ∈ held) (hheld : ∀ v ∈ held, m.Guards v)
    (hx : ∀ m₁ : Machine, m₁.Safe → m.Grows m₁ → (∀ v ∈ held, m₁.Holds v) →
      Heap.Changes m₁.Holds m₁.heap (leaves (x m₁.heap)))
    (hf : ∀ h, Heap.Sturdy id x h) :
    Runs env m (heapWrite held x) fun a m' => m.Steady m' ∧
      ∃ m₁ : Machine, m₁.Safe ∧ m.Grows m₁ ∧ x m₁.heap = .ok a m'.heap := by
  have hlive {m₁ : Machine} (hv : ∀ v ∈ held, m₁.Holds v) (ha : m₁.Addressable) (h : Heap) :
      x m₁.heap ≠ .error .staleHandle h := by
    intro he
    have hnone := (hf m₁.heap _ h he).2 rfl
    have hl := hv _ hid ha id (by simp)
    obtain ⟨c, hcell⟩ := Heap.isLive_iff.mp hl
    rw [hnone] at hcell
    cases hcell
  have hholds : ∀ v ∈ held, m.Holds v := fun v hv => (hheld v hv).holds
  have hx₁ := hx m hs (.refl m) hholds
  unfold ScriptMachine.heapWrite
  refine pass hs hholds ?_
  refine bind (tryHeap hs hx₁) ?_
  rintro r m₁ hs₁ hg₁ ⟨hm₁, hr⟩
  cases r with
  | ok a =>
    refine ret hs₁ ⟨?_, m, hs, .refl m, hr⟩
    rw [hm₁]
    exact steady_changes hs hx₁
  | error fault =>
    cases fault with
    | outOfMemory =>
      have hsame : m₁ = m := by
        have hheap : leaves (x m.heap) = m.heap := by
          have hr' : x m.heap = .error .outOfMemory m₁.heap := hr
          rw [hr']
          exact (hf m.heap _ m₁.heap hr').1
        rw [hm₁, hheap]
      subst hsame
      refine bind (discardCollect hs) ?_
      rintro _ _ hs₂ hg₂ rfl
      have hkept : ∀ v ∈ held, m₁.collect.2.Holds v := fun v hv => (hheld v hv).collect hs
      refine pass hs₂ hkept ?_
      have hx₂ := hx _ hs₂ hg₂ hkept
      refine (runHeap hs₂ hx₂ (hlive hkept)).mono ?_
      rintro a m' ⟨hm', hok⟩
      refine ⟨?_, _, hs₂, hg₂, hok⟩
      rw [hm']
      exact (steady_collect hs).trans (steady_changes hs₂ hx₂)
    | staleHandle =>
      refine propertyFault hs₁ fun ha => ?_
      exact absurd hr (hlive hholds (hg₁.addressable ha) _)
    | invalidArrayLength | prototypeCycle | prototypeChainTooLong | invalidPrototype =>
      exact propertyFault hs₁ fun _ => by simp

theorem checkInterrupt (hs : m.Safe) : Runs env m checkInterrupt fun _ m' => m.Steady m' := by
  have hkeep (m' : Machine) (hr : m'.roots = m.roots) (hw : m'.rootWords = m.rootWords)
      (hrest : m' = { m with interruptRequested := m'.interruptRequested, watchdog := m'.watchdog }) :
      m'.Safe := by
    refine hs.rehold (by rw [hrest]) (by rw [hrest]) (by rw [hrest]) (by rw [hrest])
      (by rw [hrest]) (by rw [hrest]) (fun failure hf => ?_) (fun v hv => ?_) fun v hv => ?_
    · rw [hrest] at hf
      exact hs.parked failure hf
    · rw [hr] at hv
      exact hs.holds_root hv
    · rw [hw] at hv
      exact hs.holds_word hv
  unfold ScriptMachine.checkInterrupt
  refine look (ite (fun _ => ?_) fun _ => ?_)
  · refine bind (Q := fun _ _ => True)
      (update (hkeep { m with interruptRequested := false } rfl rfl rfl) ⟨Nat.le_refl _, .refl _⟩
        trivial) ?_
    intro _ m₁ hs₁ _ _
    exact fatal hs₁ fun _ => by simp
  · refine bind (Q := fun _ m' => m.Steady m')
      (step (hkeep { m with watchdog := m.watchdog.tick.2 } rfl rfl rfl) ⟨Nat.le_refl _, .refl _⟩
        ⟨rfl, fun _ h => h⟩) ?_
    intro late m₁ hs₁ _ hsteady
    exact ite (fun _ => fatal hs₁ fun _ => by simp) fun _ => ret hs₁ hsteady

end Runs

end ScriptMachine
