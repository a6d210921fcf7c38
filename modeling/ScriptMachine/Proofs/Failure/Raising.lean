import ScriptMachine.Proofs.Failure.Following
import ScriptMachine.Proofs.Heap.Faults
import ScriptMachine.Proofs.Progress.Programs
import ScriptMachine.Proofs.Safety.Allocation

/-! # Errors are thrown

Whatever raises an error throws an object: a type, reference or range error of an instruction, a call for
which the stack has no room, and a call from the host that is nested too deeply (`Goes.raiseError_throws`).
The only failure on the way is that there is no memory for the object. This is because the object is a
temporary from the start, so that it is still there when its message has been allocated
(`Goes.newError_pins`). -/

namespace ScriptMachine

open Machine

variable {m m' : Machine} {id : Handle} {α : Type} {env : Env}

/-! ### Cells that stay -/

/-- **The cell stays**: it is a temporary, so no collection takes it. -/
structure Machine.Pins (m : Machine) (id : Handle) : Prop where
  temporary : .cell id ∈ m.heap.temporaries
  live : m.heap.Roomy → m.heap.isLive id = true

namespace Machine

theorem Pins.collect (hp : m.Pins id) (hm : m.Intact) : m.collect.2.Pins id := by
  refine ⟨?_, fun hroom => ?_⟩
  · rw [heap_collect, Heap.collect_frame hm.white]
    exact hp.temporary
  · have hroom : m.heap.Roomy := by
      unfold Heap.Roomy at hroom ⊢
      rwa [hm.size_collect] at hroom
    rw [heap_collect]
    exact Heap.live_cell.mp (Heap.live_collect hm.white
      (Heap.mem_allRoots.mpr (.inr (.inr (.inr hp.temporary)))) (Heap.live_cell.mpr (hp.live hroom)))

section Allocate
variable {shape : ShapeId} {payload : Payload}

theorem roomy_of_allocate (hroom : (m.heap.allocate shape payload).2.Roomy) : m.heap.Roomy :=
  Nat.lt_of_le_of_lt (size_le_allocate m.heap shape payload) hroom

theorem Pins.allocate (hp : m.Pins id) (hm : m.Intact) :
    Pins { m with heap := (m.heap.allocate shape payload).2 } id := by
  rcases Heap.allocate_cases m.heap shape payload with ⟨_, heq⟩ | ⟨bytes, hok, heq⟩
  · rw [heq]
    exact hp
  · refine ⟨?_, fun hroom => ?_⟩
    · rw [heq]
      exact Array.mem_push_of_mem _ hp.temporary
    · obtain ⟨-, hcell⟩ := Heap.cell?_allocate (hm.listed (roomy_of_allocate hroom)) hok (Nat.le_of_lt hroom)
      obtain ⟨c, hc⟩ := Heap.isLive_iff.mp (hp.live (roomy_of_allocate hroom))
      refine Heap.isLive_iff.mpr ?_
      rw [hcell id]
      split
      · exact ⟨_, rfl⟩
      · exact ⟨c, hc⟩

/-- A new cell stays. -/
theorem pins_new (hm : m.Intact) (hid : (m.heap.allocate shape payload).1 = .ok id) :
    Pins { m with heap := (m.heap.allocate shape payload).2 } id := by
  refine ⟨temporary_allocate hid, fun hroom => ?_⟩
  obtain ⟨-, hcell⟩ := Heap.cell?_allocate (hm.listed (roomy_of_allocate hroom)) hid (Nat.le_of_lt hroom)
  exact Heap.isLive_of_cell? ((hcell id).trans (if_pos rfl))

end Allocate

end Machine

/-- There is no memory. -/
def Unwind.LacksMemory (u : Unwind) : Prop := ∃ limit, u = .fatal (.outOfMemory limit)

/-- Operations on cells leave them live. -/
theorem Heap.Retains.isLive {h h' : Heap} (hr : h.Retains h') (hlive : h.isLive id = true) :
    h'.isLive id = true := by
  obtain ⟨c, hc⟩ := isLive_iff.mp hlive
  have hf := hr.fixtures id
  rw [hc] at hf
  obtain ⟨c', hc', -⟩ := Option.map_eq_some_iff.mp hf
  exact isLive_of_cell? hc'

namespace Goes

/-- What an allocation does about the cells that stay: the new one stays as well. -/
def Keeps (m : Machine) (id : Handle) (m' : Machine) : Prop :=
  m'.Pins id ∧ ∀ other, m.Pins other → m'.Pins other

/-- **An allocation** keeps what is to stay, and fails only for want of memory. -/
theorem allocate_pins (hm : m.Intact) (shape : ShapeId) {payload : Payload} {hexact : payload.Exact}
    (hp : ∀ m : Machine, m.Supplies payload) :
    Goes m (ScriptMachine.allocate shape payload hexact env m) (Keeps m) fun u _ => u.LacksMemory := by
  have hplace {m₁ : Machine} (hm₁ : m₁.Intact) (hkept : ∀ other, m.Pins other → m₁.Pins other) :
      Goes m₁ (allocateCell shape payload env m₁) (Keeps m) fun u _ => u.LacksMemory := by
    let after : Machine := { m₁ with heap := (m₁.heap.allocate shape payload).2 }
    have hstep : m₁.Arrives after := (Step.allocate shape (hm₁.admits (hp m₁))).arrives
    refine pass hm₁ (bind (Q := fun r m' => r = (m₁.heap.allocate shape payload).1 ∧ m' = after)
      (step hm₁ hstep ⟨rfl, rfl⟩) ?_)
    rintro r _ hm₂ ⟨hresult, rfl⟩
    cases r with
    | error failure =>
      refine unwind hm₂ ?_
      unfold Heap.allocate at hresult
      dsimp only at hresult
      split at hresult
      case isTrue => exact ⟨_, congrArg Unwind.fatal (Except.error.inj hresult)⟩
      case isFalse => cases hresult
    | ok id => exact ret hm₂ ⟨pins_new hm₁ hresult.symm, fun other h => (hkept other h).allocate hm₁⟩
  refine pass hm (look (ite (fun _ => ?_) fun _ => hplace hm fun _ h => h))
  have hcollect : Goes m ((collectGarbage >>= fun _ => pure () : MachineM Unit) env m)
      (fun _ m' => m' = m.collect.2) fun u _ => u.LacksMemory :=
    bind (Q := fun _ m' => m' = m.collect.2) (step hm (arrives_collect m).1 rfl)
      fun _ m' hm' h => ret hm' h
  refine bind hcollect ?_
  rintro _ _ hm₁ rfl
  exact hplace hm₁ fun other h => h.collect hm

/-- An operation on cells, and what it reports. -/
theorem tryHeap (hm : m.Intact) {x : HeapM α} (hx : Heap.Retaining x) {E : Unwind → Machine → Prop} :
    Goes m (tryHeap x env m) (fun r m' => m.heap.Retains m'.heap ∧ Ran x m.heap r m') E := by
  have hretains := hx m.heap
  have heq := tryHeap_eq x env m
  change m.heap.Retains (leaves (x m.heap)) at hretains
  cases hr : x m.heap with
  | ok a h =>
    rw [hr] at heq hretains
    have harrives := (arrives_heap hretains).1
    exact ⟨by rw [heq]; exact harrives, by rw [heq]; exact harrives.intact hm,
      by rw [heq]; exact ⟨hretains, hr⟩⟩
  | error fault h =>
    rw [hr] at heq hretains
    have harrives := (arrives_heap hretains).1
    exact ⟨by rw [heq]; exact harrives, by rw [heq]; exact harrives.intact hm,
      by rw [heq]; exact ⟨hretains, hr⟩⟩

/-- **A new error object**, unless there is no memory for it. -/
theorem newError_pins (hm : m.Intact) (kind : ErrorKind) (message : String) :
    Goes m (ScriptMachine.newError kind message env m)
      (fun v m' => ∃ id, v = .cell id ∧ (m'.heap.Roomy → m'.heap.isLive id = true))
      fun u m' => m'.heap.Roomy → u.LacksMemory := by
  have allocated {m : Machine} (hm : m.Intact) (shape : ShapeId) {payload : Payload} {hexact : payload.Exact}
      (hp : ∀ m : Machine, m.Supplies payload) :
      Goes m (ScriptMachine.allocate shape payload hexact env m) (Keeps m)
        fun u m' => m'.heap.Roomy → u.LacksMemory :=
    (allocate_pins hm shape hp).mono (fun _ _ _ h => h) fun _ _ _ h _ => h
  have hheap (m : Machine) (kind : CellKind) (v : Value) :
      m.Arrives { m with heap := (m.heap.rootShape kind v).2 } :=
    (arrives_heap (h := (m.heap.rootShape kind v).2) (.of_slots rfl rfl)).1
  refine look (bind (Q := fun _ _ => True) (step hm (hheap m _ _) trivial) fun shape m₁ hm₁ _ => ?_)
  refine bind (allocated hm₁ shape fun _ => trivial) fun object m₂ hm₂ hobject => ?_
  refine bind (Q := fun _ m' => m'.Pins object) ?_ fun text m₃ hm₃ hpins => pass hm₃ (look ?_)
  · exact look (bind (allocated hm₂ _ fun _ => trivial) fun _ m₃ hm₃ htext =>
      ret hm₃ (htext.2 _ hobject.1))
  refine bind (tryHeap hm₃ (.defineProperty object _ text _)) fun r m₄ hm₄ ⟨hretains, hran⟩ => ?_
  have hlive (hroom : m₄.heap.Roomy) : m₃.heap.isLive object = true := by
    refine hpins.live ?_
    unfold Heap.Roomy at hroom ⊢
    rwa [hretains.size] at hroom
  cases r with
  | ok _ =>
    refine ret hm₄ ⟨object, rfl, fun hroom => ?_⟩
    exact hretains.isLive (hlive hroom)
  | error fault =>
    refine unwind hm₄ fun hroom => ?_
    obtain ⟨c, hcell⟩ := Heap.isLive_iff.mp (hlive hroom)
    obtain ⟨h', hok⟩ := Heap.defineProperty_ok hcell
    cases hok.symm.trans hran

end Goes

/-! ### What throws -/

/-- An object was thrown, or there was no memory for it. -/
def Unwind.Erring (u : Unwind) : Prop := (∃ id, u = .throw (.cell id)) ∨ u.LacksMemory

/-- **Errors are thrown**, unless there is no memory for the object. -/
theorem Goes.raiseError_throws (he : env.Faithful) (hm : m.Intact) (kind : ErrorKind) (message : String)
    {Q : α → Machine → Prop} : Goes m (ScriptMachine.raiseError kind message env m) Q
      fun u m' => m'.heap.Roomy → u.Erring := by
  refine bind ((newError_pins hm kind message).mono (fun _ _ _ h => h)
    fun _ _ _ h hroom => .inr (h hroom)) ?_
  rintro _ m₁ hm₁ ⟨id, rfl, -⟩
  exact (Goes.raise he hm₁ (.cell id)).mono (fun _ _ _ h => h) fun _ _ _ h _ => .inl ⟨id, h.2⟩

/-- There is no room for a frame of the code. -/
def Machine.Full (m : Machine) (code : CodeId) : Prop :=
  m.config.maxCallDepth ≤ m.frames.size ∨
    m.registers.hasRoom ((m.code? code).elim 0 (·.block.registerCount.toNat)) = false

/-- **What throws** in a machine, and what unwinds then. -/
inductive Machine.Throws (m : Machine) : {α : Type} → MachineM α → (Unwind → Prop) → Prop
  /-- The instruction that throws a value. -/
  | instruction (code : CodeId) (src : Register) :
      Throws m (step code (.throw src)) (· = .throw (m.register src))
  /-- The routine of the stub table that throws a value. -/
  | routine (f : StubFrame) : Throws m (runRoutine f .throw) (· = .throw (f.arg 0).value)
  /-- A type, reference or range error. -/
  | error {α : Type} (kind : ErrorKind) (message : String) :
      Throws m (raiseError kind message : MachineM α) Unwind.Erring
  /-- A fault of an operation on cells that is an error. -/
  | fault {α : Type} {fault : PropertyFault} : fault ≠ .staleHandle → fault ≠ .outOfMemory →
      Throws m (propertyFault fault : MachineM α) Unwind.Erring
  /-- A call for which the stack has no room. -/
  | stack {function : Handle} {code : CodeId} {this : Value} {args : Array Value}
      {returnRegister : Option Register} {isConstruct entryBoundary : Bool} : m.Full code →
      Throws m (pushFrame function code this args returnRegister isConstruct entryBoundary) Unwind.Erring
  /-- A call from the host that is nested too deeply. -/
  | nesting {body : MachineM Value} : m.config.maxReentryDepth ≤ m.reentryDepth →
      Throws m (enter body) Unwind.Erring

/-- **What throws has no result**, and unwinds with an exception. -/
theorem Machine.Throws.goes {x : MachineM α} {E : Unwind → Prop} (ht : m.Throws x E) (he : env.Faithful)
    (hm : m.Intact) : Goes m (x env m) (fun _ _ => False) fun u m' => m'.heap.Roomy → E u := by
  cases ht with
  | instruction code src =>
    change Goes m (raise (m.register src) env m) _ _
    exact (Goes.raise he hm _).mono (fun _ _ _ h => h) fun _ _ _ h _ => h.2
  | routine f => exact (Goes.raise he hm _).mono (fun _ _ _ h => h) fun _ _ _ h _ => h.2
  | error kind message => exact Goes.raiseError_throws he hm kind message
  | @fault _ fault hstale hmemory =>
    cases fault with
    | staleHandle => exact absurd rfl hstale
    | outOfMemory => exact absurd rfl hmemory
    | invalidArrayLength => exact Goes.raiseError_throws he hm _ _
    | prototypeCycle | prototypeChainTooLong | invalidPrototype => exact Goes.raiseError_throws he hm _ _
  | @stack _ code _ _ _ _ _ hfull =>
    refine Goes.look (Goes.ite (fun _ => Goes.raiseError_throws he hm _ _) fun hroom => ?_)
    refine absurd ?_ hroom
    unfold Machine.Full at hfull
    simp only [Bool.or_eq_true, decide_eq_true_eq, Bool.not_eq_true']
    refine hfull.imp id fun h => ?_
    cases hcode : m.code? code <;> rw [hcode] at h <;> exact h
  | nesting hdeep =>
    refine Goes.look ?_
    rw [if_pos hdeep]
    exact Goes.raiseError_throws he hm _ _

/-- **A stub call raises what its routine raised**, and nothing stays parked. -/
theorem tierStub_raises {pc : UInt32} {routine : Routine} {words : List StubWord} {u : Unwind} :
    let called := (m.setPc (pc + 1)).countStubCall
    let frame := called.stubFrame words
    runRoutine frame routine env { called with stubFrames := called.stubFrames.push frame } =
      .error (.unwound u) m' →
    tierStub pc routine words env m =
      .error (.unwound u) { m' with stubFrames := m'.stubFrames.pop, stubUnwind := none } := by
  intro called frame hraised
  unfold tierStub
  simp only [callStub_bind]
  change ((attempt (runRoutine frame routine) >>= _) env
    { called with stubFrames := called.stubFrames.push frame }) = _
  rw [bind_eq_of_ok (attempt_eq_of_unwound hraised)]
  rfl

end ScriptMachine
