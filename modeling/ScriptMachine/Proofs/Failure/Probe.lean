import ScriptMachine.Proofs.Failure.Winding

/-! # Probed machines

What becomes of a failure, or of an exception, is said by comparison with probed machines. A probed machine
does what the machine does, except where a `Probe` is put in: at the end of an instruction, of an operation
of tier code or of the entry of a function, where a handler is about to be entered, and at the answers to
the questions of host functions. All the rest is the machine itself, with its parts put together anew; and
with the plain probe it is the machine (`Probe.env_plain`). -/

namespace ScriptMachine

/-- **What is changed in a machine.** -/
structure Probe where
  /-- What is done first at the end of an instruction, of an operation or of the entry of a function. -/
  ends : {α : Type} → Except Unwind α → MachineM (Except Unwind α)
  /-- Delivers an exception to the handler of the running instruction, if there is one. -/
  enter : Value → MachineM (Option UInt32)
  /-- Answers the questions of host functions, which go on with the reply. -/
  answer : (query : HostQuery) → (query.Reply → HostProgram) → MachineM query.Reply
  /-- The calls of host functions that are probed as well. -/
  minds : Machine → HostId → HostCall → Prop

/-! ### Parts of the machine -/

/-- Running the top frame by tier code, whose operations are run by `ops`. -/
def runCompiledBy (ops : Lowered → Nat → Nat → Nat → MachineM Value) (code : Lowered) :
    MachineM Value := do
  let m ← get
  let depth := m.frames.size - 1
  let mark := m.heap.temporaries.size
  match ← attempt (ops code mark (← read).fuel 0) with
  | .ok value =>
    popFramesTo (depth + 1)
    return (← finishReturn value).1
  | .error u =>
    popFramesTo depth
    unwind u

/-- A call made by an interpreted frame, where tier code is run by `compiled`. -/
def callFromFrameBy (compiled : Lowered → MachineM Value) (dst : Register) (callee this : Value)
    (args : Array Value) (isConstruct : Bool) (site : Site) : MachineM Unit := do
  let (function, target) ← resolveCallee callee site isConstruct
  let this ← receiver function this isConstruct
  checkpoint (.cell function :: callee :: this :: args.toList)
  match target with
  | .host host =>
    let value ← invokeHost host callee this args isConstruct
    modify (·.setRegister dst value)
  | .script code =>
    pushFrame function code this args (some dst) isConstruct false
    match ← functionEntry with
    | some lowered =>
      let value ← compiled lowered
      modify (·.setRegister dst value)
    | none => return ()

/-- One instruction, where calls are made by `call`. -/
def stepBy (call : Register → Value → Value → Array Value → Bool → Site → MachineM Unit)
    (code : CodeId) : Opcode → MachineM Flow
  | .call dst callee this firstArg argc cache => do
    let m ← get
    call dst (m.register callee) (m.register this) (m.registerRange firstArg argc) false
      (some (code, cache))
    return .next
  | .callMethod dst base name firstArg argc propertyCache cache => do
    let base ← step.reg base
    let method ← getById base (← identifierAtom code name) (some (code, propertyCache))
    call dst method base ((← get).registerRange firstArg argc) false (some (code, cache))
    return .next
  | .construct dst callee firstArg argc cache => do
    let m ← get
    call dst (m.register callee) .undefined (m.registerRange firstArg argc) true
      (some (code, cache))
    return .next
  | opcode => step code opcode

/-- A host function whose program is run by `run`. -/
def runHostFunctionBy (run : HostProgram → MachineM (Except Failure Value)) (function : HostId)
    (c : HostCall) : MachineM Value := do
  let m ← get
  match m.hosts[function.index]? with
  | none => fatal (.invalidBytecode ("unknown host function " ++ toString function.index))
  | some entry =>
    let words := [c.callee, c.this] ++ c.args.toList
    let frame := m.stubFrame (words.map StubWord.ofValue)
    let depth := m.stubFrames.size
    modify fun m => { m with stubFrames := m.stubFrames.push frame }
    let result ← run (entry.run c)
    modify fun m => { m with stubFrames := m.stubFrames.shrink depth }
    match result with
    | .ok value =>
      modifyHeap (·.pushTemporary value)
      return value
    | .error (.exception value) => raiseFromHost value
    | .error failure => fatal failure

/-- The loop goes on, unless there is a value to return. -/
def orReturn (next : MachineM Value) : Option Value → MachineM Value
  | none => next
  | some value => return value

theorem orReturn_none (next : MachineM Value) : orReturn next none = next := rfl

theorem orReturn_some (next : MachineM Value) (value : Value) :
    orReturn next (some value) = pure value := rfl

theorem runCompiledBy_runOps : runCompiledBy runOps = runCompiled := rfl

theorem callFromFrameBy_runCompiled : callFromFrameBy runCompiled = callFromFrame := rfl

theorem stepBy_callFromFrame (code : CodeId) (opcode : Opcode) :
    stepBy callFromFrame code opcode = step code opcode := by
  cases opcode <;> rfl

theorem stepBy_of_callResult?_eq_none
    {call : Register → Value → Value → Array Value → Bool → Site → MachineM Unit} {code : CodeId}
    {opcode : Opcode} (h : opcode.callResult? = none) : stepBy call code opcode = step code opcode := by
  cases opcode <;> first | rfl | cases h

/-! ### The probed machine -/

namespace Probe

section
variable (p : Probe)

/-- Looks for a handler of a thrown value. -/
def unwindFrames (entryDepth : Nat) (value : Value) : Nat → MachineM Unit
  | 0 => unwind (.throw value)
  | count + 1 => do
    match ← p.enter value with
    | some _ => return ()
    | none =>
      let depth := (← get).frames.size - 1
      discard popFrame
      if depth ≤ entryDepth then unwind (.throw value)
      else unwindFrames entryDepth value count

/-- Unwinds. -/
def handleUnwind (entryDepth : Nat) : Unwind → MachineM Unit
  | .fatal failure => do
    popFramesTo entryDepth
    fatal failure
  | .throw value => do p.unwindFrames entryDepth value ((← get).frames.size + 1)

/-- What the loop does about the end of an instruction. -/
def settle (entryDepth mark : Nat) : Except Unwind Flow → MachineM (Option Value)
  | .ok flow => ScriptMachine.settle entryDepth mark (.ok flow)
  | .error u => do
    match ← attempt (p.handleUnwind entryDepth u) with
    | .ok () =>
      modifyHeap (·.truncateTemporaries mark)
      return none
    | .error u =>
      modifyHeap fun h =>
        let h := h.truncateTemporaries mark
        match u with
        | .throw value => h.pushTemporary value
        | .fatal _ => h
      unwind u

/-- What tier code does about the end of an operation. -/
def settleOperation (code : Lowered) (index : Nat) : Except Unwind TierStep → MachineM (Nat ⊕ Value)
  | .error (.throw exception) => do
    match ← p.enter exception with
    | some pc => return .inl (code.entry pc)
    | none => unwind (.throw exception)
  | flow => ScriptMachine.settleOperation code index flow

/-- Tier code. -/
def runOps (code : Lowered) (mark : Nat) : Nat → Nat → MachineM Value
  | 0, _ => throw .exhausted
  | fuel + 1, index => do
    match ← operation code mark index with
    | none => return .undefined
    | some flow =>
      match ← p.settleOperation code index (← p.ends flow) with
      | .inl next => runOps code mark fuel next
      | .inr value => return value

/-- One instruction. -/
def step (code : CodeId) (opcode : Opcode) : MachineM Flow :=
  stepBy (callFromFrameBy (runCompiledBy p.runOps)) code opcode

/-- The instruction of the running frame. -/
def instruction : MachineM (Option (Except Unwind Flow)) := do
  checkpoint []
  match ← fetch with
  | none => return none
  | some (code, some opcode) => return some (← attempt (p.step code opcode))
  | some (_, none) => return some (.ok (.ret .undefined))

/-- The loop of the interpreter. -/
def runLoop (entryDepth mark : Nat) : Nat → MachineM Value
  | 0 => throw .exhausted
  | fuel + 1 => do
    match ← p.instruction with
    | none => return .undefined
    | some flow => orReturn (runLoop entryDepth mark fuel) (← p.settle entryDepth mark (← p.ends flow))

/-- Running the top frame. -/
def runFrame : MachineM Value := do
  let depth := (← get).frames.size - 1
  match ← p.ends (← attempt functionEntry) with
  | .ok (some compiled) => runCompiledBy p.runOps compiled
  | .ok none => do runLoop p depth (← get).heap.temporaries.size (← read).fuel
  | .error u =>
    popFramesTo depth
    unwind u

/-- A host program. -/
def runHost : HostProgram → MachineM (Except Failure Value)
  | .done result => return result
  | .ask query next => do runHost (next (← p.answer query next))
  | .listen listener next => do
    addListener listener
    runHost next

open Classical in
/-- **Nested activities of the probed machine.** The listeners are told as before. -/
noncomputable def perform (pause : Machine → List Value → Bool) : Nat → Activity → BaseM Value
  | 0, _ => throw .exhausted
  | fuel + 1, .notify event => ScriptMachine.perform pause (fuel + 1) (.notify event)
  | fuel + 1, .host function call => fun m =>
    if p.minds m function call then
      runHostFunctionBy p.runHost function call ((runningEnv pause fuel).nesting (perform pause fuel)) m
    else ScriptMachine.perform pause (fuel + 1) (.host function call) m
  | fuel + 1, .frame => p.runFrame ((runningEnv pause fuel).nesting (perform pause fuel))

/-- **The environment of the probed machine.** -/
noncomputable def env (pause : Machine → List Value → Bool) (fuel : Nat) : Env :=
  (runningEnv pause fuel).nesting (p.perform pause fuel)

end

/-! ### The plain probe -/

section
variable {p q : Probe} (h : p.enter = q.enter)
include h

theorem settle_congr : p.settle = q.settle := by
  have hunwind : p.unwindFrames = q.unwindFrames := by
    funext entryDepth value count
    induction count with
    | zero => rfl
    | succ count ih => rw [unwindFrames, unwindFrames, h, ih]
  have hhandle : p.handleUnwind = q.handleUnwind := by
    funext entryDepth u
    cases u with
    | fatal failure => rfl
    | throw value => rw [handleUnwind, handleUnwind, hunwind]
  funext entryDepth mark flow
  cases flow with
  | ok flow => rfl
  | error u => rw [settle, settle, hhandle]

theorem settleOperation_congr : p.settleOperation = q.settleOperation := by
  funext code index flow
  rcases flow with ⟨_ | _⟩ | _
  · rw [settleOperation, settleOperation, h]
  all_goals rfl

end

/-- **The plain probe** changes nothing. -/
def plain : Probe where
  ends r := pure r
  enter := enterHandler
  answer query _ := ScriptMachine.answer query
  minds _ _ _ := True

theorem unwindFrames_plain (entryDepth : Nat) (value : Value) (count : Nat) :
    plain.unwindFrames entryDepth value count = ScriptMachine.unwindFrames entryDepth value count := by
  induction count with
  | zero => rfl
  | succ count ih =>
    unfold unwindFrames ScriptMachine.unwindFrames
    rw [ih]
    rfl

theorem settle_plain (entryDepth mark : Nat) :
    plain.settle entryDepth mark = ScriptMachine.settle entryDepth mark := by
  funext flow
  cases flow with
  | ok flow => rfl
  | error u =>
    unfold settle ScriptMachine.settle
    cases u with
    | fatal failure => rfl
    | throw value =>
      simp only [handleUnwind, unwindFrames_plain]
      rfl

theorem settleOperation_plain (code : Lowered) (index : Nat) :
    plain.settleOperation code index = ScriptMachine.settleOperation code index := by
  funext flow
  rcases flow with ⟨_ | _⟩ | _ <;> rfl

theorem runOps_plain : plain.runOps = ScriptMachine.runOps := by
  funext code mark fuel index
  induction fuel generalizing index with
  | zero => rfl
  | succ fuel ih =>
    rw [runOps, runOps_succ, tierTurn, bind_assoc]
    refine bind_congr fun flow => ?_
    cases flow with
    | none => exact (pure_bind _ _).symm
    | some flow =>
      change (plain.settleOperation code index flow >>= _) = _
      rw [settleOperation_plain]
      refine bind_congr fun next => ?_
      cases next with
      | inl next => exact ih next
      | inr value => rfl

theorem step_plain (code : CodeId) (opcode : Opcode) :
    plain.step code opcode = ScriptMachine.step code opcode := by
  rw [step, runOps_plain, runCompiledBy_runOps, callFromFrameBy_runCompiled, stepBy_callFromFrame]

theorem runLoop_plain : plain.runLoop = ScriptMachine.runLoop := by
  funext entryDepth mark fuel
  induction fuel with
  | zero => rfl
  | succ fuel ih =>
    have hinstruction : plain.instruction = ScriptMachine.instruction := by
      unfold instruction ScriptMachine.instruction
      refine bind_congr fun _ => bind_congr fun fetched => ?_
      rcases fetched with _ | ⟨code, _ | opcode⟩
      · rfl
      · rfl
      · exact congrArg (fun x => attempt x >>= fun r => pure (some r)) (step_plain code opcode)
    rw [runLoop, runLoop_succ, turn, bind_assoc, hinstruction]
    refine bind_congr fun flow => ?_
    cases flow with
    | none => exact (pure_bind _ _).symm
    | some flow =>
      change (plain.settle entryDepth mark flow >>= _) = _
      rw [settle_plain]
      refine bind_congr fun next => ?_
      cases next with
      | none => exact ih
      | some value => rfl

theorem runFrame_plain : plain.runFrame = ScriptMachine.runFrame := by
  refine bind_congr fun m => bind_congr fun entered => ?_
  rcases entered with u | _ | compiled
  · rfl
  · exact congrArg (fun loop => get >>= fun m₁ => read >>= fun env =>
      loop (m.frames.size - 1) m₁.heap.temporaries.size env.fuel) runLoop_plain
  · exact congrArg (fun ops => runCompiledBy ops compiled) runOps_plain

theorem runHost_plain : plain.runHost = ScriptMachine.runHost := by
  funext program
  induction program with
  | done result => rfl
  | ask query next ih =>
    change (ScriptMachine.answer query >>= fun reply => plain.runHost (next reply)) = _
    rw [funext ih]
    rfl
  | listen listener next _ ih =>
    change (addListener listener >>= fun _ => plain.runHost next) = _
    rw [ih]
    rfl

/-- A machine whose nested activities are the machine's own is the machine. -/
theorem nesting_perform (pause : Machine → List Value → Bool) (fuel : Nat) :
    (runningEnv pause fuel).nesting (ScriptMachine.perform pause fuel) = runningEnv pause fuel := by
  unfold Env.nesting
  congr 1
  funext activity
  cases activity <;> rfl

theorem perform_plain (pause : Machine → List Value → Bool) (fuel : Nat) :
    plain.perform pause fuel = ScriptMachine.perform pause fuel := by
  induction fuel with
  | zero => rfl
  | succ fuel ih =>
    have henv : (runningEnv pause fuel).nesting (plain.perform pause fuel) = runningEnv pause fuel := by
      rw [ih, nesting_perform]
    funext activity
    cases activity with
    | notify event => rfl
    | frame =>
      change plain.runFrame ((runningEnv pause fuel).nesting (plain.perform pause fuel)) = _
      rw [henv, runFrame_plain]
      rfl
    | host function call =>
      funext m
      refine (if_pos trivial).trans ?_
      rw [henv, runHost_plain]
      rfl

/-- **With the plain probe it is the machine.** -/
theorem env_plain (pause : Machine → List Value → Bool) (fuel : Nat) :
    plain.env pause fuel = runningEnv pause fuel := by
  rw [env, perform_plain, nesting_perform]

end Probe

end ScriptMachine
