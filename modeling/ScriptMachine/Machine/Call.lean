import ScriptMachine.Machine.Function
import ScriptMachine.Machine.Property

/-! # Calls and frames

A call finds out what its callee runs, through the cache of its site if it has one, makes the
receiver of a construction, and then runs a host function or pushes a frame. The listeners are told
when a frame has been pushed and before one is popped. -/

namespace ScriptMachine

/-! ### Compilation -/

/-- What lowering needs of registered code. -/
def CodeEntry.tables (entry : CodeEntry) : CodeTables where
  identifier index := entry.atoms[index.toNat]?
  constant index := entry.constants.getD index.toNat .undefined

/-- Lowers registered code. -/
def CodeEntry.lower (entry : CodeEntry) : Except LoweringFault Lowered :=
  entry.block.lower entry.tables

/-- The number of comparisons that were fused with a branch. -/
def Lowered.fusedCount (l : Lowered) : Nat :=
  (l.ops.filter fun
    | .compareAndBranch .. => true
    | _ => false).size

/-- Counts the outcome of a compilation. -/
def TierStats.count (s : TierStats) : Except LoweringFault Lowered → TierStats
  | .ok lowered =>
    { s with functionsCompiled := s.functionsCompiled + 1
             opsEmitted := s.opsEmitted + lowered.ops.size
             fusedBranches := s.fusedBranches + lowered.fusedCount }
  | .error _ => { s with functionsDeclined := s.functionsDeclined + 1 }

/-- One more call, up to the greatest number. -/
def countCall (n : UInt32) : UInt32 := if n = 0xFFFFFFFF then n else n + 1

/-- Counts a call of the code of the running frame and compiles the code when it has become hot: the
tier code to run, and the machine. -/
def Machine.tierUp (m : Machine) : Option Lowered × Machine :=
  match m.frame? with
  | none => (none, m)
  | some f =>
    match m.code? f.code with
    | none => (none, m)
    | some entry =>
      match entry.compiled with
      | some lowered => (some lowered, m)
      | none =>
        let callCount := countCall entry.callCount
        match m.tier with
        | none => (none, m.modifyCode f.code fun e => { e with callCount })
        | some stats =>
          if entry.tierAttempted || callCount < m.config.tierUpThreshold then
            (none, m.modifyCode f.code fun e => { e with callCount })
          else
            let result := entry.lower
            let compiled := match result with
              | .ok lowered => some lowered
              | .error _ => none
            (compiled,
             { m with tier := some (stats.count result) }.modifyCode f.code fun e =>
               { e with callCount, compiled, tierAttempted := true })

/-! ### Frames -/

/-- The arguments beyond the declared parameters. -/
def extraArguments (args : Array Value) (paramCount : Nat) : Array Value :=
  args.extract paramCount args.size

/-- Writes values to consecutive registers. -/
def RegisterFile.fill (file : RegisterFile) (base : Nat) (values : Array Value) : RegisterFile :=
  (values.foldl (fun (file, index) value => (file.set index value, index + 1)) (file, base)).1

/-- **Pushes a frame** for a script function, or raises an error when there is no room for it. -/
def pushFrame (function : Handle) (code : CodeId) (this : Value) (args : Array Value)
    (returnRegister : Option Register) (isConstruct entryBoundary : Bool) : MachineM Unit := do
  let m ← get
  let block := match m.code? code with
    | some entry => entry.block
    | none => {}
  if m.frames.size ≥ m.config.maxCallDepth || !m.registers.hasRoom block.registerCount.toNat then
    raiseError .rangeError "Maximum call stack size exceeded"
  else
    let scope := match m.functionData? (.cell function) with
      | some data => data.scope
      | none => none
    modify fun m =>
      let base := m.registers.size
      let paramCount := block.paramCount.toNat
      let registers := (m.registers.grow block.registerCount.toNat).fill base
        (args.extract 0 paramCount)
      { m with
        registers
        frames := m.frames.push
          { code, pc := 0, base, registerCount := block.registerCount, varCount := block.varCount
            returnRegister, argc := args.size, extraArgs := extraArguments args paramCount
            callee := .cell function, this, scope, activation := none, scopeDepth := 0
            isConstruct, entryBoundary } }

/-- What happens when a frame has been pushed: the listeners are told, interruption is looked for,
and tier code is chosen if there is some. -/
def functionEntry : MachineM (Option Lowered) := do
  notify .call
  checkInterrupt
  modifyGet Machine.tierUp

/-- **Pops the running frame**, after telling the listeners. -/
def popFrame : MachineM (Option Frame) := do
  if (← get).frames.isEmpty then return none
  else
    notify .ret
    modifyGet fun m =>
      match m.frames.back? with
      | none => (none, m)
      | some f =>
        (some f, { m with frames := m.frames.pop, registers := m.registers.truncate f.base })

/-- Pops a number of frames. -/
def popFrames : Nat → MachineM Unit
  | 0 => return ()
  | count + 1 => do
    discard popFrame
    popFrames count

/-- Pops the frames above the first `depth` ones. -/
def popFramesTo (depth : Nat) : MachineM Unit := do
  popFrames ((← get).frames.size - depth)

/-- The result of a call: a construction whose result is no object gives the new object. -/
def Machine.constructResult (m : Machine) (isConstruct : Bool) (value this : Value) : Value :=
  if isConstruct && !m.isObject value then this else value

/-- Pops the frame that returns a value: the result of the call and where it goes. -/
def finishReturn (value : Value) : MachineM (Value × Option Register) := do
  modifyHeap (·.pushTemporary value)
  match ← popFrame with
  | some f => return ((← get).constructResult f.isConstruct value f.this, f.returnRegister)
  | none => return (value, none)

/-! ### Handlers -/

/-- Continues the running frame at the handler of its instruction, with the block scopes the handler
expects; where the handler is. -/
def Machine.findHandler (m : Machine) : Option UInt32 × Machine :=
  match m.frame? with
  | none => (none, m)
  | some f =>
    match m.code? f.code with
    | none => (none, m)
    | some entry =>
      match entry.block.handlerFor? (f.pc - min f.pc 1) with
      | none => (none, m)
      | some handler =>
        let open_ := (f.scopeDepth - min f.scopeDepth handler.scopeDepth).toNat
        let m := (List.range open_).foldl (fun m _ => m.popScope) m
        (some handler.target, m.setPc handler.target)

/-- **Delivers an exception** to the handler of the running instruction, if there is one. -/
def enterHandler (exception : Value) : MachineM (Option UInt32) := modifyGet fun m =>
  match m.findHandler with
  | (some target, m) => (some target, { m with pendingException := some exception })
  | (none, m) => (none, m)

/-- Takes the exception that was delivered to a handler. -/
def takeException : MachineM Value := modifyGet fun m =>
  (m.pendingException.getD .undefined, { m with pendingException := none })

/-! ### Calls -/

/-- What a call site remembers about a callee. -/
def Machine.cachedTarget? (m : Machine) (site : Site) (callee : Handle) : Option CallTarget :=
  if !m.config.inlineCaching then none
  else
    match site with
    | none => none
    | some (code, index) =>
      match m.code? code with
      | none => none
      | some entry =>
        match entry.caches.calls[index.toNat]? with
        | some cache => cache.lookup? callee
        | none => none

/-- Lets a call site remember a callee. -/
def Machine.cacheTarget (m : Machine) (site : Site) (callee : Handle) (target : CallTarget) :
    Machine :=
  if !m.config.inlineCaching then m
  else
    match site with
    | none => m
    | some (code, index) =>
      m.modifyCode code fun c =>
        { c with caches := { c.caches with
            calls := c.caches.calls.modify index.toNat fun cache => cache.update callee target } }

/-- **What a callee runs**, or an error if it is no function. -/
def resolveCallee (callee : Value) (site : Site) (isConstruct : Bool) :
    MachineM (Handle × CallTarget) := do
  let m ← get
  let cached := match callee.cell? with
    | some id => (m.cachedTarget? site id).map fun target => (id, target)
    | none => none
  match cached with
  | some found => return found
  | none =>
    match callee.cell?, m.functionData? callee with
    | some id, some data =>
      modify (·.cacheTarget site id data.target)
      return (id, data.target)
    | _, _ =>
      raiseError .typeError (m.display callee ++ " is not "
        ++ if isConstruct then "a constructor" else "a function")

/-- The new object of a construction. -/
def constructReceiver (function : Handle) : MachineM Value := do
  let m ← get
  let prototype ← settled (m.heap.getProperty? function m.names.prototype)
  let shape ←
    match m.objectCell? prototype with
    | some _ => withHeap (·.rootShape .object prototype)
    | none => pure m.intrinsics.objectShape
  return .cell (← allocate shape .plain)

/-- The receiver of a call. -/
def receiver (function : Handle) (this : Value) (isConstruct : Bool) : MachineM Value :=
  if isConstruct then constructReceiver function else return this

/-- Runs a host function. -/
def invokeHost (function : HostId) (callee this : Value) (args : Array Value)
    (isConstruct : Bool) : MachineM Value := do
  let value ← reenter (.host function { callee, this, args, isConstruct })
  return (← get).constructResult isConstruct value this

/-- **Calls a value** from the host, a stub or tier code. -/
def callValue (callee this : Value) (args : Array Value) (isConstruct : Bool) (site : Site) :
    MachineM Value := do
  let (function, target) ← resolveCallee callee site isConstruct
  let this ← receiver function this isConstruct
  checkpoint (.cell function :: callee :: this :: args.toList)
  match target with
  | .host host => invokeHost host callee this args isConstruct
  | .script code =>
    pushFrame function code this args none isConstruct true
    reenter .frame

end ScriptMachine
