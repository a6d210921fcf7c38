import ScriptMachine.Machine.Operators
import ScriptMachine.Machine.Property
import ScriptMachine.Proofs.Progress.Basic

/-! # Allocation, errors and properties are calm

Operations without activities of their own leave the frames and the registers as they are. Raising
tells the listeners, and so does every operation that may raise; a listener can do anything to the
scopes of the running frame, but the frames stay where they are. -/

namespace ScriptMachine

open Machine

variable {m m' : Machine} {h : Heap}

/-- **A payload for a new cell**: what a function runs is registered, and its scope, or the scope around
a scope record, is that of a frame. -/
def Machine.Supplies (m : Machine) : Payload → Prop
  | .function data =>
    m.Knows data.target ∧ (data.scope = none ∨ ∃ f ∈ m.frames, data.scope = f.scope)
  | .activation record _ => record.parent = none ∨ ∃ f ∈ m.frames, record.parent = f.scope
  | _ => True

namespace Machine

/-! ### Changes beside the frames -/

theorem arrives_heap (hr : m.heap.Retains h) :
    m.Arrives { m with heap := h } ∧ m.Quiet { m with heap := h } :=
  ⟨(Step.heap hr).arrives, rfl, rfl, rfl, rfl⟩

theorem arrives_beside {n : Machine} (hh : n.heap = m.heap) (hf : n.frames = m.frames)
    (hc : n.codes = m.codes) (hhosts : n.hosts = m.hosts) (hr : n.registers = m.registers) :
    m.Arrives n ∧ m.Quiet n :=
  ⟨(Step.beside hh hf hc hhosts hr).arrives, hf, hr, hhosts, by rw [hc]⟩

/-- A change of one registered block. -/
theorem Intact.arrives_modifyCode (hm : m.Intact) (code : CodeId) {c : CodeEntry → CodeEntry}
    (hfixed : ∀ entry, (c entry).fixed = entry.fixed)
    (hc : ∀ entry, m.code? code = some entry → m.Complete (c entry)) :
    m.Arrives (m.modifyCode code c) ∧ m.Quiet (m.modifyCode code c) := by
  refine ⟨(Step.recode (m := m) (by simp) fun entry hentry => ?_).arrives, rfl, rfl, rfl, ?_⟩
  · obtain ⟨i, hi⟩ := Array.mem_iff_getElem?.mp hentry
    rw [Array.getElem?_modify] at hi
    split at hi
    case isTrue hcode =>
      obtain ⟨old, hold, rfl⟩ := Option.map_eq_some_iff.mp hi
      exact hc old (by rw [Machine.code?, hcode, hold])
    case isFalse => exact hm.codes entry (Array.mem_of_getElem? hi)
  · refine Array.ext_getElem? fun i => ?_
    simp only [modifyCode, Array.getElem?_map, Array.getElem?_modify]
    split
    · simp [Option.map_map, Function.comp_def, hfixed]
    · rfl

/-- A change of one registered block that leaves its tier code and its call sites alone. -/
theorem Intact.arrives_recount (hm : m.Intact) (code : CodeId) {c : CodeEntry → CodeEntry}
    (hfixed : ∀ entry, (c entry).fixed = entry.fixed)
    (hcompiled : ∀ entry, (c entry).compiled = entry.compiled)
    (hcalls : ∀ entry, (c entry).caches.calls = entry.caches.calls) :
    m.Arrives (m.modifyCode code c) ∧ m.Quiet (m.modifyCode code c) :=
  hm.arrives_modifyCode code hfixed fun entry hentry => by
    have hc := hm.code? hentry
    refine hc.congr (hfixed entry) (fun l hl => hc.compiled l (hcompiled entry ▸ hl)) ?_
    rw [hcalls]
    exact hc.calls

theorem arrives_collect (m : Machine) : m.Arrives m.collect.2 ∧ m.Quiet m.collect.2 := by
  refine ⟨Step.collect.arrives, ?_⟩
  obtain ⟨forget, hforget, heq⟩ := collect_frame m
  rw [heq]
  refine ⟨rfl, rfl, rfl, ?_⟩
  rw [Array.map_map]
  refine Array.map_congr_left fun entry _ => ?_
  rw [Function.comp_apply, hforget entry]
  rfl

/-! ### New cells -/

theorem Intact.admits (hm : m.Intact) {payload : Payload} (hp : m.Supplies payload) :
    m.Admits payload := by
  have hscope {scope : Option Handle} (hs : scope = none ∨ ∃ f ∈ m.frames, scope = f.scope) :
      m.Anchors scope := by
    rcases hs with rfl | ⟨f, hf, rfl⟩
    · exact fun _ _ h => by cases h
    · exact (hm.frames f hf).scope
  cases payload with
  | function data => exact ⟨hp.1, hscope hp.2⟩
  | activation record _ => exact hscope hp
  | _ => trivial

theorem Quiet.supplies (hr : m.Quiet m') {payload : Payload} (hp : m.Supplies payload) :
    m'.Supplies payload := by
  cases payload with
  | function data =>
    refine ⟨hr.calm.knows hp.1, ?_⟩
    rw [hr.frames]
    exact hp.2
  | activation record _ =>
    unfold Supplies
    rw [hr.frames]
    exact hp
  | _ => trivial

end Machine

namespace Goes

variable {α : Type} {env : Env}

/-- An operation on cells does not unwind. -/
theorem modifyHeap (hm : m.Intact) {c : Heap → Heap} (hc : m.heap.Retains (c m.heap))
    {E : Unwind → Machine → Prop} : Goes m (modifyHeap c env m) (fun _ m' => m.Quiet m') E :=
  change hm (arrives_heap hc).1 (arrives_heap hc).2

/-- **An allocation**, after a collection when one is due: the handle names the new cell. It fails only
when there is no room. -/
theorem allocate (hm : m.Intact) (shape : ShapeId) {payload : Payload} {hexact : payload.Exact}
    (hp : m.Supplies payload) : Goes m (allocate shape payload hexact env m)
      (fun id m' => m.Quiet m' ∧
        (m'.heap.Roomy → ∃ c, m'.heap.cell? id = some c ∧ c.payload = payload))
      fun u m' => m.Quiet m' ∧ ∃ limit, u = .fatal (.outOfMemory limit) := by
  have hplace {m₁ : Machine} (hm₁ : m₁.Intact) (hr₁ : m.Quiet m₁) : Goes m₁ (allocateCell shape payload env m₁)
      (fun id m' => m.Quiet m' ∧
        (m'.heap.Roomy → ∃ c, m'.heap.cell? id = some c ∧ c.payload = payload))
      fun u m' => m.Quiet m' ∧ ∃ limit, u = .fatal (.outOfMemory limit) := by
    let after : Machine := { m₁ with heap := (m₁.heap.allocate shape payload).2 }
    have hrests : m.Quiet after := hr₁.trans ⟨rfl, rfl, rfl, rfl⟩
    have hstep : m₁.Arrives after :=
      (Step.allocate shape (hm₁.admits (hr₁.supplies hp))).arrives
    refine pass hm₁ (bind (Q := fun r m' => r = (m₁.heap.allocate shape payload).1 ∧ m' = after)
      (step hm₁ hstep ⟨rfl, rfl⟩) ?_)
    rintro r _ hm₂ ⟨hresult, rfl⟩
    cases r with
    | error failure =>
      refine unwind hm₂ ⟨hrests, ?_⟩
      unfold Heap.allocate at hresult
      dsimp only at hresult
      split at hresult
      case isTrue => exact ⟨_, congrArg Unwind.fatal (Except.error.inj hresult)⟩
      case isFalse => cases hresult
    | ok id =>
      refine ret hm₂ ⟨hrests, fun hroom => ?_⟩
      have hsize : m₁.heap.slots.size ≤ after.heap.slots.size := by
        rcases Heap.allocate_cases m₁.heap shape payload with ⟨_, heq⟩ | ⟨bytes, -, heq⟩
        · simp only [after, heq, Nat.le_refl]
        · simp only [after, heq]
          exact Heap.size_place _ bytes
      obtain ⟨-, hcell⟩ := Heap.cell?_allocate (hm₁.listed (Nat.lt_of_le_of_lt hsize hroom))
        hresult.symm (Nat.le_of_lt hroom)
      refine ⟨_, (hcell id).trans (if_pos rfl), ?_⟩
      exact (Heap.payload_new shape _ payload).1
  refine pass hm (look (ite (fun _ => ?_) fun _ => hplace hm (.refl m)))
  obtain ⟨ha, hr⟩ := arrives_collect m
  have hcollect : Goes m ((collectGarbage >>= fun _ => pure () : MachineM Unit) env m)
      (fun _ m' => m.Quiet m') fun u m' => m.Quiet m' ∧ ∃ limit, u = .fatal (.outOfMemory limit) :=
    bind (Q := fun _ m' => m.Quiet m') (step hm ha hr) fun _ m' hm' h => ret hm' h
  exact bind hcollect fun _ m₁ hm₁ hr₁ => hplace hm₁ hr₁

/-- **Listeners leave the frames where they are**, and do not unwind. -/
theorem notifyAt (he : env.Faithful) (hm : m.Intact) (kind : EventKind) (exception : Option Value)
    (line : Option UInt32) : Goes m (notifyAt kind exception line env m) (fun _ m' => m.Calm m')
      fun _ _ => False := by
  refine look (ite (fun _ => ?_) fun _ => ret hm (.refl m))
  change Goes m ((reenter _ >>= fun _ => pure ()) env m) _ _
  exact bind (he.notify _ m hm) fun _ m' hm' h => ret hm' h

/-- **Raising** has no result, and throws the value. -/
theorem raise (he : env.Faithful) (hm : m.Intact) (value : Value) {Q : α → Machine → Prop} :
    Goes m (raise value env m) Q fun u m' => m.Calm m' ∧ u = .throw value := by
  obtain ⟨ha₁, hr₁⟩ := arrives_heap (Heap.retains_pushTemporary m.heap value)
  obtain ⟨ha₂, hr₂⟩ := arrives_beside (m := { m with heap := m.heap.pushTemporary value })
    (n := { m with heap := m.heap.pushTemporary value, lastRaised := some value
                   exceptionTrace := m.captureTrace }) rfl rfl rfl rfl rfl
  refine bind (Q := fun _ m' => m.Quiet m') (change hm (ha₁.trans ha₂) (hr₁.trans hr₂)) ?_
  intro _ m' hm' hr
  refine bind ((notifyAt he hm' _ _ _).mono (fun _ _ _ h => h) fun _ _ _ h => h.elim) ?_
  intro _ m'' hm'' hc
  exact unwind hm'' ⟨hr.calm.calm hc, rfl⟩

end Goes

namespace Calmly

variable {α : Type} {x : MachineM α}

/-! ### The heap -/

theorem modifyHeap {f : Heap → Heap} (hf : ∀ h : Heap, h.Retains (f h)) :
    Calmly Quiet (modifyHeap f) := change fun m _ => arrives_heap (hf m.heap)

theorem withHeap {f : Heap → α × Heap} (hf : ∀ h : Heap, h.Retains (f h).2) :
    Calmly Quiet (withHeap f) := step fun m _ => arrives_heap (hf m.heap)

theorem tryHeap {x : HeapM α} (hx : Heap.Retaining x) : Calmly Quiet (tryHeap x) := by
  refine withHeap fun h => ?_
  have hr := hx h
  cases hrun : x h <;> rw [hrun] at hr <;> exact hr

theorem intern (name : String) : Calmly Quiet (intern name) := withHeap fun _ => .of_slots rfl rfl

theorem collectGarbage : Calmly Quiet collectGarbage := step fun m _ => arrives_collect m

theorem allocate (shape : ShapeId) {payload : Payload} {hexact : payload.Exact}
    (hp : ∀ m : Machine, m.Supplies payload) : Calmly Quiet (allocate shape payload hexact) := fun _ m _ hm =>
  (Goes.allocate hm shape (hp m)).mono (fun _ _ _ h => h.1) fun u _ _ h => ⟨h.1, fun _ => by
    obtain ⟨limit, rfl⟩ := h.2
    exact fun _ h => by cases h⟩

theorem newObject : Calmly Quiet newObject :=
  bind look fun _ => bind (allocate _ fun _ => trivial) fun _ => ret _

theorem newArray (elements : Elements) : Calmly Quiet (newArray elements) :=
  bind look fun _ => bind (allocate _ fun _ => trivial) fun _ => ret _

theorem newString (text : String) : Calmly Quiet (newString text) :=
  bind look fun _ => bind (allocate _ fun _ => trivial) fun _ => ret _

theorem newError (kind : ErrorKind) (message : String) : Calmly Quiet (newError kind message) := by
  refine bind look fun _ => bind (withHeap fun _ => .of_slots rfl rfl) fun _ =>
    bind (allocate _ fun _ => trivial) fun _ => bind (newString message) fun _ =>
    bind (checkpoint _) fun _ => bind look fun _ => bind (tryHeap (.defineProperty _ _ _ _)) fun r => ?_
  cases r with
  | ok _ => exact ret _
  | error _ => exact fatal fun _ h => by cases h

/-! ### Listeners and errors -/

theorem notifyAt (kind : EventKind) (exception : Option Value) (line : Option UInt32) :
    Calmly Calm (notifyAt kind exception line) := fun _ _ he hm =>
  (Goes.notifyAt he hm kind exception line).mono (fun _ _ _ h => h) fun _ _ _ h => h.elim

theorem raise (value : Value) : Calmly Calm (raise value : MachineM α) := fun _ _ he hm =>
  (Goes.raise he hm value).mono (fun _ _ _ h => h) fun _ _ _ h =>
    ⟨h.1, fun _ => h.2 ▸ Unwind.innocent_throw value⟩

theorem raiseFromHost (value : Value) : Calmly Calm (raiseFromHost value : MachineM α) :=
  bind look fun _ => ite (fun _ => unwind (Unwind.innocent_throw value)) fun _ => raise value

end Calmly

/-- **Raising an error** has no result. -/
theorem Goes.raiseError {α : Type} {env : Env} (he : env.Faithful) (hm : m.Intact) (kind : ErrorKind)
    (message : String) {Q : α → Machine → Prop} :
    Goes m (raiseError kind message env m) Q fun u m' => m.Calm m' ∧ (m.Candid → u.Innocent) := by
  refine bind ((Calmly.newError kind message env m he hm).mono (fun _ _ _ h => h) fun _ _ _ h =>
    ⟨h.1.calm, h.2⟩) ?_
  intro v m' hm' hq
  refine (raise he hm' v).mono (fun _ _ _ h => h) fun u _ _ h => ⟨hq.calm.calm h.1, fun _ => ?_⟩
  rw [h.2]
  exact Unwind.innocent_throw v

namespace Calmly

variable {α : Type} {x : MachineM α}

theorem raiseError (kind : ErrorKind) (message : String) :
    Calmly Calm (raiseError kind message : MachineM α) := fun _ _ he hm =>
  Goes.raiseError he hm kind message

theorem propertyFault (fault : PropertyFault) : Calmly Calm (propertyFault fault : MachineM α) := by
  cases fault with
  | staleHandle => exact fatal fun _ h => by cases h
  | outOfMemory => exact bind look fun _ => fatal fun _ h => by cases h
  | invalidArrayLength => exact raiseError _ _
  | prototypeCycle | prototypeChainTooLong | invalidPrototype => exact raiseError _ _

theorem runHeap {x : HeapM α} (hx : Heap.Retaining x) : Calmly Calm (runHeap x) := by
  refine bind (quiet (tryHeap hx)) fun r => ?_
  cases r with
  | ok a => exact ret a
  | error fault => exact propertyFault fault

/-- **A write that is tried again after a collection.** -/
theorem heapWrite (held : List Value) {x : HeapM α} (hx : Heap.Retaining x) :
    Calmly Calm (heapWrite held x) := by
  refine bind (checkpoint held) fun _ => bind (quiet (tryHeap hx)) fun r => ?_
  cases r with
  | ok a => exact ret a
  | error fault =>
    cases fault with
    | outOfMemory =>
      exact bind (quiet (discarded collectGarbage)) fun _ => bind (checkpoint held) fun _ => runHeap hx
    | _ => exact propertyFault _

theorem checkInterrupt : Calmly Quiet checkInterrupt := by
  intro env m _ hm
  obtain ⟨ha, hr⟩ := arrives_beside (m := m) (n := { m with interruptRequested := false })
    rfl rfl rfl rfl rfl
  obtain ⟨ha', hr'⟩ := arrives_beside (m := m) (n := { m with watchdog := m.watchdog.tick.2 })
    rfl rfl rfl rfl rfl
  refine Goes.look (.ite (fun _ => ⟨ha, ha.intact hm, hr, fun _ _ h => by cases h⟩) fun _ => ?_)
  refine Goes.bind (Q := fun _ m' => m.Quiet m') (.step hm ha' hr') fun late m₁ hm₁ h₁ => ?_
  exact .ite (fun _ => .unwind hm₁ ⟨h₁, fun _ _ h => by cases h⟩) fun _ => .ret hm₁ h₁

/-! ### Properties -/

theorem cacheProperty (site : Site) (entry : PropertyEntry) :
    Calmly Quiet (modify (·.cacheProperty site entry) : MachineM Unit) := by
  refine change fun m hm => ?_
  unfold Machine.cacheProperty
  split
  · exact ⟨.refl m, .refl m⟩
  · cases site with
    | none => exact ⟨.refl m, .refl m⟩
    | some site => exact hm.arrives_recount _ (fun _ => rfl) (fun _ => rfl) fun _ => rfl

theorem readCell (id : Handle) (name : Atom) (site : Site) :
    Calmly Quiet (readCell id name site) := by
  refine bind look fun m => ?_
  dsimp only
  split
  · exact ret _
  · refine bind (settled _) fun lookup => ite (fun _ => ?_) fun _ => ret _
    split
    · exact bind (cacheProperty site _) fun _ => ret _
    · exact ret _

theorem getById (base : Value) (name : Atom) (site : Site) : Calmly Calm (getById base name site) := by
  refine bind look fun m => ?_
  split
  · exact bind (quiet (readCell _ name site)) fun _ => ret _
  · exact ite (fun _ => raiseError _ _) fun _ => ret _

theorem refuseWrite (name : Atom) : Calmly Calm (refuseWrite name) := by
  refine bind look fun m => ?_
  split
  · exact ret _
  · exact raiseError _ _

theorem putById (base : Value) (name : Atom) (value : Value) (site : Site) :
    Calmly Calm (putById base name value site) := by
  refine bind look fun m => ?_
  split
  · exact ite (fun _ => raiseError _ _) fun _ => ret _
  · dsimp only
    split
    · exact quiet (modifyHeap fun h => Heap.retains_writeSlot h _ _ _ _)
    · refine bind (heapWrite _ (.setProperty _ name value)) fun outcome =>
        ite (fun _ => refuseWrite name) fun _ => bind look fun m => ite (fun _ => ?_) fun _ => ret _
      split
      · exact quiet (cacheProperty site _)
      · exact ret _

theorem deleteById (base : Value) (name : Atom) : Calmly Calm (deleteById base name) := by
  refine bind look fun m => ?_
  split
  · exact ite (fun _ => raiseError _ _) fun _ => ret _
  · exact bind (runHeap (.deleteProperty _ name)) fun _ => bind look fun _ =>
      ite (fun _ => bind (raiseError _ _) fun _ => ret _) fun _ => ret _

theorem keyAtom (key : Value) : Calmly Quiet (keyAtom key) := bind look fun _ => intern _

theorem getByVal (base key : Value) : Calmly Calm (getByVal base key) := by
  have hname : Calmly Calm (do ScriptMachine.getById base (← ScriptMachine.keyAtom key) none) :=
    bind (quiet (keyAtom key)) fun name => getById base name none
  refine bind look fun m => ?_
  split
  · split
    · split
      · exact quiet (newString _)
      · exact ret _
    · exact ite (fun _ => bind (quiet (withHeap fun h => Heap.retains_getIndex? h _ _)) fun _ =>
        settled _) fun _ => hname
  · exact hname

theorem putByVal (base key value : Value) : Calmly Calm (putByVal base key value) := by
  refine bind look fun m => ?_
  split
  · exact bind (heapWrite _ (.setIndex _ _ value)) fun _ => ite (fun _ =>
      bind (quiet (withHeap fun _ => .of_slots rfl rfl)) fun name => refuseWrite name) fun _ => ret _
  · exact bind (quiet (keyAtom key)) fun name => putById base name value none

theorem hasKey (key base : Value) : Calmly Calm (hasKey key base) := by
  refine bind look fun m => ?_
  split
  · exact raiseError _ _
  · exact bind (quiet (keyAtom key)) fun _ => bind look fun _ => settled _

theorem instanceOf (value constructor : Value) : Calmly Calm (instanceOf value constructor) := by
  refine bind look fun m => ite (fun _ => raiseError _ _) fun _ => ?_
  split
  · exact ret _
  · refine bind (getById _ _ none) fun _ => bind look fun _ => ?_
    split
    · exact raiseError _ _
    · exact settled _

theorem getGlobalById (name : Atom) (site : Site) : Calmly Calm (getGlobalById name site) := by
  refine bind look fun m => bind (quiet (readCell _ name site)) fun lookup => ?_
  split
  · exact bind look fun _ => raiseError _ _
  · exact ret _

theorem putGlobalById (name : Atom) (value : Value) (site : Site) :
    Calmly Calm (putGlobalById name value site) := bind look fun _ => putById _ name value site

/-! ### Operators -/

theorem addValues (a b : Value) : Calmly Calm (addValues a b) :=
  bind look fun _ => ite (fun _ => quiet (newString _)) fun _ => ret _

theorem applyBinary (op : BinaryOp) (a b : Value) : Calmly Calm (applyBinary op a b) := by
  unfold ScriptMachine.applyBinary
  split
  · exact ret _
  · refine bind look fun m => ?_
    cases op with
    | add => exact addValues a b
    | _ => exact ret _

theorem applyUnary (op : UnaryOp) (a : Value) : Calmly Calm (applyUnary op a) := by
  refine bind look fun m => ?_
  cases op with
  | typeOf => exact quiet (newString _)
  | _ => exact ret _

end Calmly

end ScriptMachine
