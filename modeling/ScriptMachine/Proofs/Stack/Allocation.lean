import ScriptMachine.Machine.Operators
import ScriptMachine.Machine.Property
import ScriptMachine.Proofs.Machine.Access
import ScriptMachine.Proofs.Machine.Safe
import ScriptMachine.Proofs.Stack.Orderly

/-! # Objects, errors and properties leave the stacks alone

The operations that make cells, raise errors and access properties have no frames of their own. They
change the heap, and the caches of the code, so what there is to show is that an allocation or a
collection in the middle of them breaks no scope chain (`Orderly.allocate`, `Orderly.collect`). The
frames root their chains, which is why a collection keeps them. -/

namespace ScriptMachine

open Machine

variable {m m' : Machine} {h : Heap}

/-! ### Registered code -/

theorem CodeEntry.lower_congr {entry entry' : CodeEntry} (hf : entry'.fixed = entry.fixed) :
    entry'.lower = entry.lower := by
  have hblock := congrArg CodeEntry.block hf
  have hatoms := congrArg CodeEntry.atoms hf
  have hconstants := congrArg CodeEntry.constants hf
  simp only [fixed] at hblock hatoms hconstants
  simp only [lower, tables, hblock, hatoms, hconstants]

namespace Machine

/-- Code that is left alone is still registered. -/
theorem code?_of_fixed (h : m'.codes.map CodeEntry.fixed = m.codes.map CodeEntry.fixed) {code : CodeId}
    {entry : CodeEntry} (hcode : m.code? code = some entry) :
    ∃ entry', m'.code? code = some entry' ∧ entry'.fixed = entry.fixed := by
  have hget := congrArg (·[code.index]?) h
  simp only [Array.getElem?_map] at hget
  unfold Machine.code? at hcode ⊢
  rw [hcode] at hget
  exact Option.map_eq_some_iff.mp hget

theorem Endures.code? (he : m.Endures m') {code : CodeId} {entry : CodeEntry}
    (hcode : m.code? code = some entry) :
    ∃ entry', m'.code? code = some entry' ∧ entry'.fixed = entry.fixed :=
  code?_of_fixed he.codes hcode

/-! ### Changes beside the stacks -/

/-- A change of what the stacks do not depend on. -/
theorem Orderly.beside {n : Machine} (hm : m.Orderly) (hf : n.frames = m.frames)
    (hr : n.registers = m.registers) (hc : n.config = m.config) (hk : n.codes = m.codes)
    (hh : n.heap = m.heap) (hnest : n.reentryDepth = m.reentryDepth) (hhosts : n.hosts = m.hosts)
    (hl : n.listeners = m.listeners) : n.Orderly ∧ m.Still n := by
  refine ⟨⟨⟨?_, ?_, ?_, ?_, ?_⟩, ⟨?_, ?_⟩, ⟨?_, ?_, ?_⟩, ?_, ?_⟩, ⟨hc, by rw [hr], by rw [hk], ?_⟩, hf, hr,
    fun _ f _ n _ => by rw [hh]⟩
  · rw [hf]
    exact hm.stacked.tile
  · rw [hf, hr]
    exact hm.stacked.size
  · rw [hf, hc]
    exact hm.stacked.depth
  · rw [hr]
    exact hm.stacked.room
  · rw [hnest, hc]
    exact hm.stacked.nesting
  · rw [hk]
    exact hm.settled.lowered
  · unfold code?
    rw [hf, hk]
    exact hm.settled.moved
  · rw [hh]
    exact hm.chained.white
  · rw [hh]
    exact hm.chained.listed
  · rw [hh, hf]
    exact hm.chained.scopes
  · rw [hhosts]
    exact hm.hosted.hosts
  · rw [hl]
    exact hm.hosted.listeners
  · rw [hh]

/-- **A change of the heap** that keeps the chains of the frames. -/
theorem Orderly.reheap (hm : m.Orderly) (hw : h.AllWhite) (hs : m.heap.slots.size ≤ h.slots.size)
    (hl : h.Roomy → h.FreeListed)
    (hc : h.Roomy → ∀ f ∈ m.frames, h.Scoped f.scopeDepth.toNat f.scope ∧
      ∀ n ≤ f.scopeDepth.toNat, h.enclosing^[n] f.scope = m.heap.enclosing^[n] f.scope) :
    Orderly { m with heap := h } ∧ m.Still { m with heap := h } ∧ m.Balanced { m with heap := h } :=
  ⟨⟨⟨hm.stacked.tile, hm.stacked.size, hm.stacked.depth, hm.stacked.room, hm.stacked.nesting⟩,
      ⟨hm.settled.lowered, hm.settled.moved⟩, ⟨hw, hl, fun hr f hf => (hc hr f hf).1⟩,
      ⟨hm.hosted.hosts, hm.hosted.listeners⟩⟩,
    ⟨⟨rfl, rfl, rfl, hs⟩, rfl, rfl, fun hr f hf => (hc hr f hf).2⟩, rfl, rfl⟩

/-- A change of cells that keeps the links between scope records. -/
theorem Orderly.relinks (hm : m.Orderly) (hlinks : h.link? = m.heap.link?) (hw : h.AllWhite)
    (hl : m.heap.FreeListed → h.FreeListed) (hs : h.slots.size = m.heap.slots.size) :
    Orderly { m with heap := h } ∧ m.Still { m with heap := h } ∧ m.Balanced { m with heap := h } := by
  have hroomy (hroom : h.Roomy) : m.heap.Roomy := by
    unfold Heap.Roomy at hroom ⊢
    rwa [hs] at hroom
  refine hm.reheap hw (Nat.le_of_eq hs.symm) (fun hroom => hl (hm.chained.listed (hroomy hroom)))
    fun hroom f hf => ?_
  exact (hm.chained.scopes (hroomy hroom) f hf).transfer fun ids _ id _ => congrFun hlinks id

/-- Operations on cells. -/
theorem Orderly.retains (hm : m.Orderly) (hr : m.heap.Retains h) :
    Orderly { m with heap := h } ∧ m.Still { m with heap := h } ∧ m.Balanced { m with heap := h } :=
  hm.relinks hr.links (hr.white hm.chained.white) hr.listed hr.size

/-- **An allocation.** -/
theorem Orderly.allocate (hm : m.Orderly) (shape : ShapeId) (payload : Payload) :
    let h := (m.heap.allocate shape payload).2
    Orderly { m with heap := h } ∧ m.Still { m with heap := h } ∧ m.Balanced { m with heap := h } := by
  have hsize : m.heap.slots.size ≤ (m.heap.allocate shape payload).2.slots.size := by
    rcases Heap.allocate_cases m.heap shape payload with ⟨_, heq⟩ | ⟨bytes, -, heq⟩
    · rw [heq]
    · rw [heq]
      exact Heap.size_place _ bytes
  refine hm.reheap (hm.chained.white.allocate shape payload) hsize (fun hroom => ?_)
    fun hroom f hf => ?_
  · exact (hm.chained.listed (Nat.lt_of_le_of_lt hsize hroom)).allocate (Nat.le_of_lt hroom)
  · have hroom' : m.heap.Roomy := Nat.lt_of_le_of_lt hsize hroom
    refine (hm.chained.scopes hroom' f hf).transfer fun ids hc id hid => ?_
    obtain ⟨parent, hl⟩ := hc.link hid
    rw [Heap.link?_allocate (hm.chained.listed hroom') (Nat.le_of_lt hroom) id parent hl, hl]

/-- A change of the caches and counters of code. -/
theorem Orderly.recode (hm : m.Orderly) (codes : Array CodeEntry)
    (hfixed : codes.map CodeEntry.fixed = m.codes.map CodeEntry.fixed)
    (hl : ∀ entry ∈ codes, ∀ l, entry.compiled = some l → entry.lower = .ok l) :
    Orderly { m with codes } ∧ m.Still { m with codes } ∧ m.Balanced { m with codes } := by
  have hend : m.Endures { m with codes } := ⟨rfl, rfl, hfixed, Nat.le_refl _⟩
  refine ⟨⟨⟨hm.stacked.tile, hm.stacked.size, hm.stacked.depth, hm.stacked.room, hm.stacked.nesting⟩,
    ⟨hl, fun f hf hd => ?_⟩, ⟨hm.chained.white, hm.chained.listed, hm.chained.scopes⟩,
    ⟨hm.hosted.hosts, hm.hosted.listeners⟩⟩, ⟨hend, rfl, rfl, fun _ _ _ _ _ => rfl⟩, rfl, rfl⟩
  obtain ⟨entry, hcode, hmoved⟩ := hm.settled.moved f hf hd
  obtain ⟨entry', hcode', hsame⟩ := hend.code? hcode
  have hblock := congrArg CodeEntry.block hsame
  exact ⟨entry', hcode', fun ha => (congrArg Block.needsActivation hblock).trans (hmoved ha)⟩

/-- A change of one registered block that keeps its tier code. -/
theorem Orderly.modifyCode (hm : m.Orderly) (code : CodeId) {c : CodeEntry → CodeEntry}
    (hc : ∀ entry, (c entry).fixed = entry.fixed)
    (hl : ∀ entry, m.code? code = some entry →
      ∀ l, (c entry).compiled = some l → (c entry).lower = .ok l) :
    (m.modifyCode code c).Orderly ∧ m.Still (m.modifyCode code c) ∧
      m.Balanced (m.modifyCode code c) := by
  refine hm.recode _ ?_ fun entry hentry l hcompiled => ?_
  · refine Array.ext_getElem? fun i => ?_
    simp only [Array.getElem?_map, Array.getElem?_modify]
    split
    · simp [Option.map_map, Function.comp_def, hc]
    · rfl
  · obtain ⟨i, hi⟩ := Array.mem_iff_getElem?.mp hentry
    rw [Array.getElem?_modify] at hi
    split at hi
    case isTrue hcode =>
      obtain ⟨old, hold, rfl⟩ := Option.map_eq_some_iff.mp hi
      exact hl old (by rw [code?, hcode, hold]) l hcompiled
    case isFalse => exact hm.settled.lowered entry (Array.mem_of_getElem? hi) l hcompiled

/-- **A collection.** -/
theorem Orderly.collect (hm : m.Orderly) :
    m.collect.2.Orderly ∧ m.Still m.collect.2 ∧ m.Balanced m.collect.2 := by
  have hw := hm.chained.white
  have hsize := Heap.size_collect hw m.roots m.rootWords
  have hroomy (hr : (m.heap.collect m.roots m.rootWords).2.Roomy) : m.heap.Roomy := by
    unfold Heap.Roomy at hr ⊢
    rwa [hsize] at hr
  obtain ⟨hm₁, hs₁, hb₁⟩ := hm.reheap (hw.collect m.roots m.rootWords) (Nat.le_of_eq hsize.symm)
    (fun hr => (hm.chained.listed (hroomy hr)).collect hw m.roots m.rootWords) fun hr f hf =>
      (hm.chained.scopes (hroomy hr) f hf).collect hw m.roots m.rootWords fun id hid => by
        refine mem_roots.mpr (.inr (.inl ⟨f, hf, ?_⟩))
        exact mem_frameRoots.mpr (.inr (.inr (.inl (by rw [hid]; rfl))))
  obtain ⟨forget, hforget, heq⟩ := collect_frame m
  have hfixed (entry : CodeEntry) : (forget entry).fixed = entry.fixed := by
    rw [hforget entry]
    rfl
  obtain ⟨hm₂, hs₂, hb₂⟩ := hm₁.recode (m.codes.map forget)
    (by simp [Array.map_map, Function.comp_def, hfixed]) fun entry hentry l hl => by
      obtain ⟨old, hold, rfl⟩ := Array.mem_map.mp hentry
      rw [CodeEntry.lower_congr (hfixed old)]
      rw [hforget old] at hl
      exact hm.settled.lowered old hold l hl
  rw [heq]
  exact ⟨hm₂, hs₁.trans hs₂, hb₁.trans hb₂⟩

end Machine

/-- **Listeners leave the stacks as they are**, and do not unwind. -/
theorem Proceeds.notifyAt {env : Env} (he : env.Orderly) (hm : m.Orderly) (kind : EventKind)
    (exception : Option Value) (line : Option UInt32) :
    Proceeds (notifyAt kind exception line env m) (fun _ m' => m.Still m' ∧ m.Balanced m')
      fun _ _ => False := by
  refine look (ite (fun _ => ?_) fun _ => ret hm ⟨.refl m, .refl m⟩)
  change Proceeds ((reenter _ >>= fun _ => pure ()) env m) _ _
  refine bind (he.notify _ m hm) ?_
  intro _ m' hm' h
  exact ret hm' h

/-- **Raising** has no result. -/
theorem Proceeds.raise {α : Type} {env : Env} (he : env.Orderly) (hm : m.Orderly) (value : Value)
    {Q : α → Machine → Prop} :
    Proceeds (raise value env m) Q fun _ m' => m.Still m' ∧ m.Balanced m' := by
  obtain ⟨hm₁, hs₁, hb₁⟩ := hm.retains (Heap.retains_pushTemporary m.heap value)
  obtain ⟨hm₂, hs₂⟩ := hm₁.beside (n := { m with
    heap := m.heap.pushTemporary value, lastRaised := some value, exceptionTrace := m.captureTrace })
    rfl rfl rfl rfl rfl rfl rfl rfl
  refine bind (Q := fun _ m' => m.Still m' ∧ m.Balanced m') (change hm₂ ⟨hs₁.trans hs₂, rfl, rfl⟩) ?_
  rintro _ m' hm' ⟨hs, hb⟩
  refine bind ((notifyAt he hm' _ _ _).mono (fun _ _ _ h => h) fun _ _ _ h => h.elim) ?_
  rintro _ m'' hm'' ⟨hs', hb'⟩
  exact unwind hm'' ⟨hs.trans hs', hb.trans hb'⟩

/-- An interruption is a failure. -/
theorem Proceeds.checkInterrupt {env : Env} (hm : m.Orderly) :
    Proceeds (checkInterrupt env m) (fun _ m' => m.Still m' ∧ m.Balanced m')
      fun u m' => (m.Still m' ∧ m.Balanced m') ∧ ∃ failure, u = .fatal failure := by
  obtain ⟨hm₁, hs₁⟩ := hm.beside (n := { m with interruptRequested := false })
    rfl rfl rfl rfl rfl rfl rfl rfl
  obtain ⟨hm₂, hs₂⟩ := hm.beside (n := { m with watchdog := m.watchdog.tick.2 })
    rfl rfl rfl rfl rfl rfl rfl rfl
  refine look (ite (fun _ => ⟨hm₁, ⟨hs₁, rfl, rfl⟩, _, rfl⟩) fun _ => ?_)
  refine bind (Q := fun _ m' => m.Still m' ∧ m.Balanced m') (step hm₂ ⟨hs₂, rfl, rfl⟩) ?_
  intro late m₃ hm₃ h₃
  exact ite (fun _ => unwind hm₃ ⟨h₃, _, rfl⟩) fun _ => ret hm₃ h₃

namespace Keeping

variable {α : Type} {R : Machine → Machine → Prop} {x : MachineM α}

theorem discarded [IsPreorder Machine R] (hx : Keeping R x) : Keeping R (discard x) := by
  change Keeping R (x >>= fun _ => pure ())
  exact bind hx fun _ => ret _

/-! ### The heap -/

theorem modifyHeap {f : Heap → Heap} (hf : ∀ h : Heap, h.Retains (f h)) :
    Restful (modifyHeap f) := change fun m hm => hm.retains (hf m.heap)

theorem withHeap {f : Heap → α × Heap} (hf : ∀ h : Heap, h.Retains (f h).2) :
    Restful (withHeap f) := step fun m hm => hm.retains (hf m.heap)

theorem tryHeap {x : HeapM α} (hx : Heap.Retaining x) : Restful (tryHeap x) := by
  refine withHeap fun h => ?_
  have hr := hx h
  cases hrun : x h <;> rw [hrun] at hr <;> exact hr

theorem intern (name : String) : Restful (intern name) := withHeap fun _ => .of_slots rfl rfl

theorem collectGarbage : Restful collectGarbage := step fun _ hm => hm.collect

/-- **An allocation**, after a collection when one is due. -/
theorem allocate (shape : ShapeId) (payload : Payload) (hexact : payload.Exact) :
    Restful (allocate shape payload hexact) := by
  have hplace : Restful (allocateCell shape payload) := by
    refine bind (checkpoint _) fun _ => bind (step fun m hm => hm.allocate shape payload) fun r => ?_
    cases r with
    | ok id => exact ret id
    | error failure => exact fatal failure
  refine bind (checkpoint _) fun _ => bind look fun m => ?_
  exact ite (fun _ => bind (discarded collectGarbage) fun _ => hplace) fun _ => hplace

theorem newObject : Restful newObject := bind look fun _ => bind (allocate _ _ _) fun _ => ret _

theorem newArray (elements : Elements) : Restful (newArray elements) :=
  bind look fun _ => bind (allocate _ _ _) fun _ => ret _

theorem newString (text : String) : Restful (newString text) :=
  bind look fun _ => bind (allocate _ _ _) fun _ => ret _

/-! ### Listeners and errors -/

theorem notifyAt (kind : EventKind) (exception : Option Value) (line : Option UInt32) :
    Restful (notifyAt kind exception line) := fun _ _ he hm =>
  (Proceeds.notifyAt he hm kind exception line).mono (fun _ _ _ h => h) fun _ _ _ h => h.elim

theorem raise (value : Value) : Restful (raise value : MachineM α) :=
  fun _ _ he hm => Proceeds.raise he hm value

theorem raiseFromHost (value : Value) : Restful (raiseFromHost value : MachineM α) :=
  bind look fun _ => ite (fun _ => unwind _) fun _ => raise value

theorem newError (kind : ErrorKind) (message : String) : Restful (newError kind message) := by
  refine bind look fun _ => bind (withHeap fun _ => .of_slots rfl rfl) fun _ =>
    bind (allocate _ _ _) fun _ => bind (newString message) fun _ => bind (checkpoint _) fun _ =>
    bind look fun _ => bind (tryHeap (.defineProperty _ _ _ _)) fun r => ?_
  cases r with
  | ok _ => exact ret _
  | error _ => exact fatal _

theorem raiseError (kind : ErrorKind) (message : String) :
    Restful (raiseError kind message : MachineM α) :=
  bind (newError kind message) fun v => raise v

theorem propertyFault (fault : PropertyFault) : Restful (propertyFault fault : MachineM α) := by
  cases fault with
  | staleHandle => exact fatal _
  | outOfMemory => exact bind look fun _ => fatal _
  | invalidArrayLength => exact raiseError _ _
  | prototypeCycle | prototypeChainTooLong | invalidPrototype => exact raiseError _ _

theorem runHeap {x : HeapM α} (hx : Heap.Retaining x) : Restful (runHeap x) := by
  refine bind (tryHeap hx) fun r => ?_
  cases r with
  | ok a => exact ret a
  | error fault => exact propertyFault fault

/-- **A write that is tried again after a collection.** -/
theorem heapWrite (held : List Value) {x : HeapM α} (hx : Heap.Retaining x) :
    Restful (heapWrite held x) := by
  refine bind (checkpoint held) fun _ => bind (tryHeap hx) fun r => ?_
  cases r with
  | ok a => exact ret a
  | error fault =>
    cases fault with
    | outOfMemory =>
      exact bind (discarded collectGarbage) fun _ => bind (checkpoint held) fun _ => runHeap hx
    | _ => exact propertyFault _

theorem checkInterrupt : Restful checkInterrupt := fun _ _ _ hm =>
  (Proceeds.checkInterrupt hm).mono (fun _ _ _ h => h) fun _ _ _ h => h.1

/-! ### Properties -/

theorem cacheProperty (site : Site) (entry : PropertyEntry) :
    Restful (modify (·.cacheProperty site entry) : MachineM Unit) := by
  refine change fun m hm => ?_
  unfold Machine.cacheProperty
  split
  · exact ⟨hm, .refl m, .refl m⟩
  · cases site with
    | none => exact ⟨hm, .refl m, .refl m⟩
    | some site =>
      refine hm.modifyCode _ (fun _ => rfl) fun entry hentry l hl => ?_
      exact hm.settled.lowered entry (Array.mem_of_getElem? hentry) l hl

theorem readCell (id : Handle) (name : Atom) (site : Site) : Restful (readCell id name site) := by
  refine bind look fun m => ?_
  dsimp only
  split
  · exact ret _
  · refine bind (settled _) fun lookup => ite (fun _ => ?_) fun _ => ret _
    split
    · exact bind (cacheProperty site _) fun _ => ret _
    · exact ret _

theorem getById (base : Value) (name : Atom) (site : Site) : Restful (getById base name site) := by
  refine bind look fun m => ?_
  split
  · exact bind (readCell _ name site) fun _ => ret _
  · exact ite (fun _ => raiseError _ _) fun _ => ret _

theorem refuseWrite (name : Atom) : Restful (refuseWrite name) := by
  refine bind look fun m => ?_
  split
  · exact ret _
  · exact raiseError _ _

theorem putById (base : Value) (name : Atom) (value : Value) (site : Site) :
    Restful (putById base name value site) := by
  refine bind look fun m => ?_
  split
  · exact ite (fun _ => raiseError _ _) fun _ => ret _
  · dsimp only
    split
    · exact modifyHeap fun h => Heap.retains_writeSlot h _ _ _ _
    · refine bind (heapWrite _ (.setProperty _ name value)) fun outcome =>
        ite (fun _ => refuseWrite name) fun _ => bind look fun m => ite (fun _ => ?_) fun _ => ret _
      split
      · exact cacheProperty site _
      · exact ret _

theorem deleteById (base : Value) (name : Atom) : Restful (deleteById base name) := by
  refine bind look fun m => ?_
  split
  · exact ite (fun _ => raiseError _ _) fun _ => ret _
  · exact bind (runHeap (.deleteProperty _ name)) fun _ => bind look fun _ =>
      ite (fun _ => bind (raiseError _ _) fun _ => ret _) fun _ => ret _

theorem keyAtom (key : Value) : Restful (keyAtom key) := bind look fun _ => intern _

theorem getByVal (base key : Value) : Restful (getByVal base key) := by
  have hname : Restful (do ScriptMachine.getById base (← ScriptMachine.keyAtom key) none) :=
    bind (keyAtom key) fun name => getById base name none
  refine bind look fun m => ?_
  split
  · split
    · split
      · exact newString _
      · exact ret _
    · exact ite (fun _ => bind (withHeap fun h => Heap.retains_getIndex? h _ _) fun _ => settled _)
        fun _ => hname
  · exact hname

theorem putByVal (base key value : Value) : Restful (putByVal base key value) := by
  refine bind look fun m => ?_
  split
  · exact bind (heapWrite _ (.setIndex _ _ value)) fun _ => ite
      (fun _ => bind (withHeap fun _ => .of_slots rfl rfl) fun name => refuseWrite name) fun _ => ret _
  · exact bind (keyAtom key) fun name => putById base name value none

theorem hasKey (key base : Value) : Restful (hasKey key base) := by
  refine bind look fun m => ?_
  split
  · exact raiseError _ _
  · exact bind (keyAtom key) fun _ => bind look fun _ => settled _

theorem instanceOf (value constructor : Value) : Restful (instanceOf value constructor) := by
  refine bind look fun m => ite (fun _ => raiseError _ _) fun _ => ?_
  split
  · exact ret _
  · refine bind (getById _ _ none) fun _ => bind look fun _ => ?_
    split
    · exact raiseError _ _
    · exact settled _

theorem getGlobalById (name : Atom) (site : Site) : Restful (getGlobalById name site) := by
  refine bind look fun m => bind (readCell _ name site) fun lookup => ?_
  split
  · exact bind look fun _ => raiseError _ _
  · exact ret _

theorem putGlobalById (name : Atom) (value : Value) (site : Site) :
    Restful (putGlobalById name value site) := bind look fun _ => putById _ name value site

/-! ### Operators -/

theorem addValues (a b : Value) : Restful (addValues a b) :=
  bind look fun _ => ite (fun _ => newString _) fun _ => ret _

theorem applyBinary (op : BinaryOp) (a b : Value) : Restful (applyBinary op a b) := by
  unfold ScriptMachine.applyBinary
  split
  · exact ret _
  · refine bind look fun m => ?_
    cases op with
    | add => exact addValues a b
    | _ => exact ret _

theorem applyUnary (op : UnaryOp) (a : Value) : Restful (applyUnary op a) := by
  refine bind look fun m => ?_
  cases op with
  | typeOf => exact newString _
  | _ => exact ret _

end Keeping

end ScriptMachine
