import ScriptMachine.Proofs.Failure.Probe

/-! # Counting frames

How many frames are pushed while something runs is counted by metered actions. A `Metered` action is an
action of the machine together with the number of frames it pushes, given how many its nested activities push
(`Meter`). Everything on the way from a host program to a push is put together anew from the same parts; the
actions are those of the machine (`Metered.runProgram_act`, `Metered.performIn_act`), and a frame is counted
where `pushFrame` pushes one, and nowhere else. What listeners push while they are told something is left
out; one that only records pushes nothing. -/

namespace ScriptMachine

/-- What nested activities do, and how many frames they push. -/
structure Meter where
  /-- What an action relies on. -/
  env : Env
  /-- The frames that a nested activity pushes. -/
  pushes : Activity → Machine → Nat

/-- **An action with the number of frames it pushes.** -/
structure Metered (α : Type) where
  /-- The action. -/
  act : MachineM α
  /-- The frames it pushes. -/
  pushes : Meter → Machine → Nat

namespace Metered

variable {α β : Type}

/-- The frames that are pushed after an action, if it has a result. -/
def next (pushes : α → Machine → Nat) : EStateM.Result Stop Machine α → Nat
  | .ok a m => pushes a m
  | .error _ _ => 0

/-- An action that pushes nothing. -/
def silent (x : MachineM α) : Metered α := ⟨x, fun _ _ => 0⟩

instance : MonadLift MachineM Metered := ⟨silent⟩

instance : Monad Metered where
  pure a := silent (pure a)
  bind x g :=
    { act := x.act >>= fun a => (g a).act
      pushes := fun μ m => x.pushes μ m + next (fun a => (g a).pushes μ) (x.act μ.env m) }

/-- A nested activity. -/
def reenter (activity : Activity) : Metered Value :=
  ⟨ScriptMachine.reenter activity, fun μ m => μ.pushes activity m⟩

/-- An action whose unwinding is caught. -/
def attempt (x : Metered α) : Metered (Except Unwind α) := ⟨ScriptMachine.attempt x.act, x.pushes⟩

/-- **A push**, which counts unless there is no room for the frame. -/
def pushFrame (function : Handle) (code : CodeId) (this : Value) (args : Array Value)
    (returnRegister : Option Register) (isConstruct entryBoundary : Bool) : Metered Unit where
  act := ScriptMachine.pushFrame function code this args returnRegister isConstruct entryBoundary
  pushes μ m := next (fun _ _ => 1)
    (ScriptMachine.pushFrame function code this args returnRegister isConstruct entryBoundary μ.env m)

/-! ### Calls and stubs -/

/-- A host function. -/
def invokeHost (function : HostId) (callee this : Value) (args : Array Value)
    (isConstruct : Bool) : Metered Value := do
  let value ← reenter (.host function { callee, this, args, isConstruct })
  return (← get).constructResult isConstruct value this

/-- A callee that was resolved, in a loop of its own. -/
def invoke (function : Handle) (callee this : Value) (args : Array Value) (isConstruct : Bool) :
    CallTarget → Metered Value
  | .host host => invokeHost host callee this args isConstruct
  | .script code => do
    pushFrame function code this args none isConstruct true
    reenter .frame

/-- A call from the host, a stub or tier code. -/
def callValue (callee this : Value) (args : Array Value) (isConstruct : Bool) (site : Site) :
    Metered Value := do
  let found ← resolveCallee callee site isConstruct
  let this ← receiver found.1 this isConstruct
  checkpoint (.cell found.1 :: callee :: this :: args.toList)
  invoke found.1 callee this args isConstruct found.2

/-- A routine of the stub table. -/
def runRoutine (f : StubFrame) : Routine → Metered StubReturn
  | .call => do
    return .ofValue (← callValue (f.arg 0).value (f.arg 1).value (f.valuesFrom 3).toArray false (f.site 2))
  | .construct => do
    return .ofValue (← callValue (f.arg 0).value .undefined (f.valuesFrom 2).toArray true (f.site 1))
  | routine => ScriptMachine.runRoutine f routine

/-- A stub. -/
def callStub (routine : Routine) (words : List StubWord) : Metered StubReturn := do
  let frame := (← get).stubFrame words
  modify fun m => { m with stubFrames := m.stubFrames.push frame }
  let result ← attempt (runRoutine frame routine)
  modify fun m => { m with stubFrames := m.stubFrames.pop }
  match result with
  | .ok answer => return answer
  | .error u =>
    modify fun m => { m with stubUnwind := some u }
    return .raised

/-! ### Tier code -/

/-- A stub call of tier code. -/
def tierStub (pc : UInt32) (routine : Routine) (words : List StubWord) : Metered Value := do
  modify fun m => (m.setPc (pc + 1)).countStubCall
  let answer ← callStub routine words
  if answer.isException then unwind (← takeStubUnwind) else return answer.value

/-- An operation of tier code. -/
def tierStep (pc : UInt32) : TierOp → Metered TierStep
  | .stub routine dst args => do
    let m ← get
    let value ← tierStub pc routine (args.map (TierOperand.word m))
    match dst with
    | some dst => ScriptMachine.tierStep.store dst value
    | none => return .next
  | .callMethod dst base name propertySite callSite args => do
    let receiver := (← get).register base
    let method ← ScriptMachine.tierStub pc .getById
      [.ofValue receiver, .ofAtom name, .ofIndex propertySite]
    let m ← get
    let value ← tierStub pc .call
      ([.ofValue method, .ofValue receiver, .ofIndex callSite]
        ++ args.map fun r => .ofValue (m.register r))
    ScriptMachine.tierStep.store dst value
  | op => ScriptMachine.tierStep pc op

/-- The operation at an index, and how it ends. -/
def operation (code : Lowered) (mark index : Nat) : Metered (Option (Except Unwind TierStep)) :=
  match code.ops[index]? with
  | none => return none
  | some op => do
    checkpoint []
    modifyHeap (·.truncateTemporaries mark)
    return some (← attempt (tierStep (code.opPcs.getD index 0) op))

/-- Tier code. -/
def runOps (code : Lowered) (mark : Nat) : Nat → Nat → Metered Value
  | 0, _ => (throw .exhausted : MachineM Value)
  | fuel + 1, index => do
    match ← operation code mark index with
    | none => return .undefined
    | some flow =>
      match ← settleOperation code index flow with
      | .inl next => runOps code mark fuel next
      | .inr value => return value

/-- The top frame, run by tier code. -/
def runCompiled (code : Lowered) : Metered Value := do
  let m ← get
  let depth := m.frames.size - 1
  let mark := m.heap.temporaries.size
  match ← attempt (runOps code mark (← read).fuel 0) with
  | .ok value =>
    popFramesTo (depth + 1)
    return (← finishReturn value).1
  | .error u =>
    popFramesTo depth
    unwind u

/-! ### The interpreter -/

/-- A callee that was resolved by an interpreted frame. -/
def invokeFromFrame (dst : Register) (function : Handle) (callee this : Value) (args : Array Value)
    (isConstruct : Bool) : CallTarget → Metered Unit
  | .host host => do
    let value ← invokeHost host callee this args isConstruct
    modify (·.setRegister dst value)
  | .script code => do
    pushFrame function code this args (some dst) isConstruct false
    match ← functionEntry with
    | some compiled =>
      let value ← runCompiled compiled
      modify (·.setRegister dst value)
    | none => return ()

/-- A call made by an interpreted frame. -/
def callFromFrame (dst : Register) (callee this : Value) (args : Array Value) (isConstruct : Bool)
    (site : Site) : Metered Unit := do
  let found ← resolveCallee callee site isConstruct
  let this ← receiver found.1 this isConstruct
  checkpoint (.cell found.1 :: callee :: this :: args.toList)
  invokeFromFrame dst found.1 callee this args isConstruct found.2

/-- An instruction. -/
def step (code : CodeId) : Opcode → Metered Flow
  | .call dst callee this firstArg argc cache => do
    let m ← get
    callFromFrame dst (m.register callee) (m.register this) (m.registerRange firstArg argc) false
      (some (code, cache))
    return .next
  | .callMethod dst base name firstArg argc propertyCache cache => do
    let base ← ScriptMachine.step.reg base
    let method ← getById base (← identifierAtom code name) (some (code, propertyCache))
    callFromFrame dst method base ((← get).registerRange firstArg argc) false (some (code, cache))
    return .next
  | .construct dst callee firstArg argc cache => do
    let m ← get
    callFromFrame dst (m.register callee) .undefined (m.registerRange firstArg argc) true
      (some (code, cache))
    return .next
  | opcode => ScriptMachine.step code opcode

/-- The instruction of the running frame, and how it ends. -/
def instruction : Metered (Option (Except Unwind Flow)) := do
  checkpoint []
  match ← fetch with
  | none => return none
  | some (code, some opcode) => return some (← attempt (step code opcode))
  | some (_, none) => return some (.ok (.ret .undefined))

/-- The loop of the interpreter. -/
def runLoop (entryDepth mark : Nat) : Nat → Metered Value
  | 0 => (throw .exhausted : MachineM Value)
  | fuel + 1 => do
    match ← instruction with
    | none => return .undefined
    | some flow =>
      match ← settle entryDepth mark flow with
      | none => runLoop entryDepth mark fuel
      | some value => return value

/-- The top frame, which has just been pushed. -/
def runFrame : Metered Value := do
  let depth := (← get).frames.size - 1
  match ← ScriptMachine.attempt functionEntry with
  | .ok (some compiled) => runCompiled compiled
  | .ok none => runLoop depth (← get).heap.temporaries.size (← read).fuel
  | .error u =>
    popFramesTo depth
    unwind u

/-! ### The host -/

/-- A call from the host. -/
def enter (body : Metered Value) : Metered Value := do
  let m ← get
  if m.reentryDepth ≥ m.config.maxReentryDepth then
    raiseError .rangeError "Maximum re-entry depth exceeded"
  else
    modify fun m =>
      { m with reentryDepth := m.reentryDepth + 1
               watchdog := if m.reentryDepth = 0 then m.watchdog.arm else m.watchdog }
    let result ← attempt body
    modify fun m =>
      { m with reentryDepth := m.reentryDepth - 1
               watchdog := if m.reentryDepth = 1 then m.watchdog.disarm else m.watchdog }
    match result with
    | .ok value => return value
    | .error u => unwind u

/-- A function value is called. -/
def call (function this : Value) (args : Array Value) : Metered Value :=
  enter (callValue function this args false none)

/-- A function value is called as a constructor. -/
def construct (function : Value) (args : Array Value) : Metered Value :=
  enter (callValue function .undefined args true none)

/-- An action whose failure the host gets. -/
def tryCall (x : Metered α) : Metered (Except Failure α) := do
  match ← attempt x with
  | .ok a => return .ok a
  | .error u => return .error u.failure

/-- The answer to a question. -/
def answer : (query : HostQuery) → Metered query.Reply
  | .call function this args => tryCall (call function this args)
  | .construct function args => tryCall (construct function args)
  | .stub routine words => do
    let result ← callStub routine words
    if result.isException then return .error (← takeStubUnwind).failure else return .ok result
  | query => ScriptMachine.answer query

/-- A host program. -/
def runHost : HostProgram → Metered (Except Failure Value)
  | .done result => return result
  | .ask query next => do runHost (next (← answer query))
  | .listen listener next => do
    addListener listener
    runHost next

/-- The listeners are told of an event. -/
def tellListeners (event : DebugEvent) : Metered Value := do
  let listeners := (← get).listeners
  modify fun m => { m with notifying := true, listeners := #[] }
  for listener in listeners do
    discard <| runHost (listener event)
  modify fun m => { m with notifying := false, listeners := listeners ++ m.listeners }
  return .undefined

/-- A host function runs. -/
def runHostFunction (function : HostId) (c : HostCall) : Metered Value := do
  let m ← get
  match m.hosts[function.index]? with
  | none => fatal (.invalidBytecode ("unknown host function " ++ toString function.index))
  | some entry =>
    let words := [c.callee, c.this] ++ c.args.toList
    let frame := m.stubFrame (words.map StubWord.ofValue)
    let depth := m.stubFrames.size
    modify fun m => { m with stubFrames := m.stubFrames.push frame }
    let result ← runHost (entry.run c)
    modify fun m => { m with stubFrames := m.stubFrames.shrink depth }
    match result with
    | .ok value =>
      modifyHeap (·.pushTemporary value)
      return value
    | .error (.exception value) => raiseFromHost value
    | .error failure => fatal failure

/-- An activity. -/
def performIn : Activity → Metered Value
  | .notify event => tellListeners event
  | .host function c => runHostFunction function c
  | .frame => runFrame

/-- A program runs. -/
def runProgram (block : Block) : Metered Value := do
  let program ← load block
  notify .willExecuteProgram
  let result ← attempt (call program (← get).globalObject #[])
  notify .didExecuteProgram
  match result with
  | .ok value => return value
  | .error u => unwind u

/-! ### The actions of the machine -/

theorem callValue_act (callee this : Value) (args : Array Value) (isConstruct : Bool) (site : Site) :
    (callValue callee this args isConstruct site).act =
      ScriptMachine.callValue callee this args isConstruct site := by
  refine bind_congr fun found => bind_congr fun this => bind_congr fun _ => ?_
  obtain ⟨function, target⟩ := found
  cases target <;> rfl

theorem runRoutine_act (f : StubFrame) (routine : Routine) :
    (runRoutine f routine).act = ScriptMachine.runRoutine f routine := by
  cases routine with
  | call | construct =>
    exact congrArg (fun x : MachineM Value => x >>= fun value => pure (StubReturn.ofValue value))
      (callValue_act _ _ _ _ _)
  | _ => rfl

theorem callStub_act (routine : Routine) (words : List StubWord) :
    (callStub routine words).act = ScriptMachine.callStub routine words := by
  rw [callStub_eq]
  refine bind_congr fun m => bind_congr fun _ => ?_
  change (ScriptMachine.attempt (runRoutine _ routine).act >>= _) = _
  rw [runRoutine_act]
  refine bind_congr fun result => bind_congr fun _ => ?_
  cases result <;> rfl

theorem tierStub_act (pc : UInt32) (routine : Routine) (words : List StubWord) :
    (tierStub pc routine words).act = ScriptMachine.tierStub pc routine words := by
  refine bind_congr fun _ => ?_
  change ((callStub routine words).act >>= _) = _
  rw [callStub_act]
  exact bind_congr fun answer => apply_ite Metered.act _ _ _

theorem tierStep_act (pc : UInt32) (op : TierOp) :
    (tierStep pc op).act = ScriptMachine.tierStep pc op := by
  cases op with
  | stub routine dst args =>
    refine bind_congr fun m => ?_
    change ((tierStub pc routine _).act >>= _) = _
    rw [tierStub_act]
    refine bind_congr fun value => ?_
    cases dst <;> rfl
  | callMethod dst base name propertySite callSite args =>
    refine bind_congr fun m => bind_congr fun method => bind_congr fun m' => ?_
    change ((tierStub pc .call _).act >>= _) = _
    rw [tierStub_act]
    rfl
  | _ => rfl

theorem operation_act (code : Lowered) (mark index : Nat) :
    (operation code mark index).act = ScriptMachine.operation code mark index := by
  unfold operation ScriptMachine.operation
  cases code.ops[index]? with
  | none => rfl
  | some op =>
    refine bind_congr fun _ => bind_congr fun _ => ?_
    exact congrArg (fun x => ScriptMachine.attempt x >>= fun r => pure (some r)) (tierStep_act _ op)

theorem runOps_act (code : Lowered) (mark fuel index : Nat) :
    (runOps code mark fuel index).act = ScriptMachine.runOps code mark fuel index := by
  induction fuel generalizing index with
  | zero => rfl
  | succ fuel ih =>
    rw [runOps_succ, tierTurn, bind_assoc, ← operation_act]
    refine bind_congr fun flow => ?_
    cases flow with
    | none => exact (pure_bind _ _).symm
    | some flow =>
      refine bind_congr fun next => ?_
      cases next with
      | inl next => exact ih next
      | inr value => rfl

theorem runCompiled_act (code : Lowered) : (runCompiled code).act = ScriptMachine.runCompiled code := by
  refine bind_congr fun m => bind_congr fun env => ?_
  change (ScriptMachine.attempt (runOps code _ _ 0).act >>= _) = _
  rw [runOps_act]
  refine bind_congr fun result => ?_
  cases result <;> rfl

theorem callFromFrame_act (dst : Register) (callee this : Value) (args : Array Value) (isConstruct : Bool)
    (site : Site) : (callFromFrame dst callee this args isConstruct site).act =
      ScriptMachine.callFromFrame dst callee this args isConstruct site := by
  refine bind_congr fun found => bind_congr fun this => bind_congr fun _ => ?_
  obtain ⟨function, target⟩ := found
  cases target with
  | host host => rfl
  | script code =>
    refine bind_congr fun _ => bind_congr fun compiled => ?_
    cases compiled with
    | none => rfl
    | some lowered => exact congrArg (· >>= fun v => modify (·.setRegister dst v)) (runCompiled_act lowered)

theorem step_act (code : CodeId) (opcode : Opcode) :
    (step code opcode).act = ScriptMachine.step code opcode := by
  cases opcode with
  | call | construct =>
    exact bind_congr fun m => congrArg (fun x : MachineM Unit => x >>= fun _ => pure Flow.next)
      (callFromFrame_act _ _ _ _ _ _)
  | callMethod =>
    exact bind_congr fun base => bind_congr fun atom => bind_congr fun method => bind_congr fun m =>
      congrArg (fun x : MachineM Unit => x >>= fun _ => pure Flow.next) (callFromFrame_act _ _ _ _ _ _)
  | _ => rfl

theorem instruction_act : instruction.act = ScriptMachine.instruction := by
  refine bind_congr fun _ => bind_congr fun fetched => ?_
  rcases fetched with _ | ⟨code, _ | opcode⟩
  · rfl
  · rfl
  · exact congrArg (fun x => ScriptMachine.attempt x >>= fun r => pure (some r)) (step_act code opcode)

theorem runLoop_act (entryDepth mark fuel : Nat) :
    (runLoop entryDepth mark fuel).act = ScriptMachine.runLoop entryDepth mark fuel := by
  induction fuel with
  | zero => rfl
  | succ fuel ih =>
    rw [runLoop_succ, turn, bind_assoc, ← instruction_act]
    refine bind_congr fun flow => ?_
    cases flow with
    | none => exact (pure_bind _ _).symm
    | some flow =>
      refine bind_congr fun next => ?_
      cases next with
      | none => exact ih
      | some value => rfl

theorem runFrame_act : runFrame.act = ScriptMachine.runFrame := by
  refine bind_congr fun m => bind_congr fun entered => ?_
  rcases entered with u | _ | compiled
  · rfl
  · exact bind_congr fun m' => bind_congr fun env => runLoop_act _ _ _
  · exact runCompiled_act compiled

theorem enter_act (body : Metered Value) : (enter body).act = ScriptMachine.enter body.act := by
  refine bind_congr fun m => ?_
  dsimp only
  split
  · rfl
  · refine bind_congr fun _ => bind_congr fun result => bind_congr fun _ => ?_
    cases result <;> rfl

theorem call_act (function this : Value) (args : Array Value) :
    (call function this args).act = ScriptMachine.call function this args := by
  rw [call, enter_act, callValue_act]
  rfl

theorem construct_act (function : Value) (args : Array Value) :
    (construct function args).act = ScriptMachine.construct function args := by
  rw [construct, enter_act, callValue_act]
  rfl

theorem tryCall_act (x : Metered α) : (tryCall x).act = ScriptMachine.tryCall x.act := by
  refine bind_congr fun result => ?_
  cases result <;> rfl

theorem answer_act (query : HostQuery) : (answer query).act = ScriptMachine.answer query := by
  cases query with
  | call function this args => exact (tryCall_act _).trans (congrArg _ (call_act _ _ _))
  | construct function args => exact (tryCall_act _).trans (congrArg _ (construct_act _ _))
  | stub routine words =>
    change ((callStub routine words).act >>= _) = _
    rw [callStub_act]
    exact bind_congr fun result => apply_ite Metered.act _ _ _
  | _ => rfl

theorem runHost_act (program : HostProgram) : (runHost program).act = ScriptMachine.runHost program := by
  induction program with
  | done result => rfl
  | ask query next ih =>
    change ((answer query).act >>= fun reply => (runHost (next reply)).act) = _
    rw [answer_act, funext ih]
    rfl
  | listen listener next _ ih => exact congrArg (addListener listener >>= fun _ => ·) ih

theorem tellListeners_act (event : DebugEvent) :
    (tellListeners event).act = ScriptMachine.tellListeners event := by
  have hloop (listeners : List Listener) :
      Metered.act (forIn listeners PUnit.unit fun listener _ => do
        discard <| runHost (listener event)
        pure (ForInStep.yield PUnit.unit)) =
      (forIn listeners PUnit.unit fun listener _ => do
        discard <| ScriptMachine.runHost (listener event)
        pure (ForInStep.yield PUnit.unit) : MachineM PUnit) := by
    induction listeners with
    | nil => rfl
    | cons listener rest ih =>
      rw [List.forIn_cons, List.forIn_cons, ← runHost_act]
      refine bind_congr fun r => ?_
      cases r with
      | done _ => rfl
      | yield _ => exact ih
  refine bind_congr fun m => bind_congr fun _ => ?_
  dsimp only
  rw [← Array.forIn_toList, ← Array.forIn_toList]
  exact congrArg (fun x : MachineM PUnit => x >>= _) (hloop m.listeners.toList)

theorem runHostFunction_act (function : HostId) (c : HostCall) :
    (runHostFunction function c).act = ScriptMachine.runHostFunction function c := by
  refine bind_congr fun m => ?_
  dsimp only
  cases m.hosts[function.index]? with
  | none => rfl
  | some entry =>
    refine bind_congr fun _ => ?_
    change ((runHost (entry.run c)).act >>= _) = _
    rw [runHost_act]
    refine bind_congr fun result => bind_congr fun _ => ?_
    rcases result with failure | value
    · cases failure <;> rfl
    · rfl

theorem performIn_act (activity : Activity) :
    (performIn activity).act = ScriptMachine.performIn activity := by
  cases activity with
  | notify event => exact tellListeners_act event
  | host function c => exact runHostFunction_act function c
  | frame => exact runFrame_act

theorem runProgram_act (block : Block) : (runProgram block).act = ScriptMachine.runProgram block := by
  refine bind_congr fun program => bind_congr fun _ => bind_congr fun m => ?_
  change (ScriptMachine.attempt (call _ _ _).act >>= _) = _
  rw [call_act]
  refine bind_congr fun result => bind_congr fun _ => ?_
  cases result <;> rfl

end Metered

/-- The frames that an activity pushes, with a bound on its nesting. -/
def framesPushed (pause : Machine → List Value → Bool) : Nat → Activity → Machine → Nat
  | 0, _, _ => 0
  | fuel + 1, activity, m =>
    (Metered.performIn activity).pushes
      { env := runningEnv pause fuel, pushes := framesPushed pause fuel } m

/-- **The meter of a running machine.** -/
def Meter.running (pause : Machine → List Value → Bool) (fuel : Nat) : Meter :=
  { env := runningEnv pause fuel, pushes := framesPushed pause fuel }

end ScriptMachine
