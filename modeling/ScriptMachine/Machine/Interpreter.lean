import ScriptMachine.Machine.Compiled

/-! # The interpreter

The interpreter runs the top frame and the frames it pushes in one loop. Before an instruction runs,
its frame is set to the next one, so that one less than the frame's position is always the
instruction that handlers and traces should see. A thrown value goes to the nearest handler among
the frames of the loop; a failure leaves all of them. -/

namespace ScriptMachine

/-- What an instruction does to the loop. -/
inductive Flow where
  /-- The loop goes on. -/
  | next
  /-- The frame returns a value. -/
  | ret (value : Value)
deriving Inhabited, Repr

/-- The values of consecutive registers. -/
def Machine.registerRange (m : Machine) (first : Register) (count : UInt32) : Array Value :=
  ((registerList first count).map m.register).toArray

/-- The atom of an identifier. -/
def identifierAtom (code : CodeId) (index : UInt32) : MachineM Atom := do
  let atom := match (← get).code? code with
    | some entry => entry.atoms[index.toNat]?
    | none => none
  match atom with
  | some atom => return atom
  | none =>
    fatal (.invalidBytecode ("identifier " ++ toString index.toNat ++ " out of range"))

/-- A call made by an interpreted frame: a script function is left to the loop unless it has tier
code. -/
def callFromFrame (dst : Register) (callee this : Value) (args : Array Value)
    (isConstruct : Bool) (site : Site) : MachineM Unit := do
  let (function, target) ← resolveCallee callee site isConstruct
  let this ← receiver function this isConstruct
  checkpoint (.cell function :: callee :: this :: args.toList)
  match target with
  | .host host =>
    let value ← invokeHost host callee this args isConstruct
    modify (·.setRegister dst value)
  | .script code =>
    pushFrame function code this args (some dst) isConstruct false
    match ← functionEntry with
    | some compiled =>
      let value ← runCompiled compiled
      modify (·.setRegister dst value)
    | none => return ()

/-- **One instruction.** -/
def step (code : CodeId) : Opcode → MachineM Flow
  | .loadConst dst index => do
    let value := match (← get).code? code with
      | some entry => entry.constants.getD index.toNat .undefined
      | none => .undefined
    store dst value
  | .loadUndefined dst => store dst .undefined
  | .loadNull dst => store dst .null
  | .loadBool dst value => store dst (.boolean value)
  | .loadThis dst => do store dst (← currentFrame).this
  | .move dst src => do store dst (← reg src)
  | .binary op dst lhs rhs => do store dst (← applyBinary op (← reg lhs) (← reg rhs))
  | .unary op dst src => do store dst (← applyUnary op (← reg src))
  | .jump target => goto target
  | .jumpIf sense cond target => do
    let m ← get
    if m.toBoolean (m.register cond) == sense then goto target else return .next
  | .loop target => do
    checkInterrupt
    goto target
  | .newObject dst => do store dst (← newObject)
  | .newArray dst first count => do
    store dst (← newArray (.ofArray ((← get).registerRange first count)))
  | .getById dst base name cache => do
    let base ← reg base
    store dst (← getById base (← identifierAtom code name) (some (code, cache)))
  | .putById base name value cache => do
    let base ← reg base
    let value ← reg value
    putById base (← identifierAtom code name) value (some (code, cache))
    return .next
  | .getByVal dst base key => do store dst (← getByVal (← reg base) (← reg key))
  | .putByVal base key value => do
    putByVal (← reg base) (← reg key) (← reg value)
    return .next
  | .deleteById dst base name => do
    let base ← reg base
    store dst (.boolean (← deleteById base (← identifierAtom code name)))
  | .hasProperty dst key base => do store dst (.boolean (← hasKey (← reg key) (← reg base)))
  | .instanceOf dst value constructor => do
    store dst (.boolean (← instanceOf (← reg value) (← reg constructor)))
  | .getGlobal dst name cache => do
    store dst (← getGlobalById (← identifierAtom code name) (some (code, cache)))
  | .putGlobal name value cache => do
    putGlobalById (← identifierAtom code name) (← reg value) (some (code, cache))
    return .next
  | .pushScope layout => do
    pushScope layout
    return .next
  | .popScope => do
    modify (·.popScope)
    return .next
  | .getScopedVar dst depth index => do store dst ((← get).scopedVar depth index)
  | .putScopedVar depth index value => do
    let value ← reg value
    modify (·.setScopedVar depth index value)
    return .next
  | .resolveName dst name => do store dst (← resolveName (← identifierAtom code name))
  | .argumentsObject dst => do store dst (← argumentsObject)
  | .newFunction dst function => do store dst (← newClosure function)
  | .call dst callee this firstArg argc cache => do
    let m ← get
    callFromFrame dst (m.register callee) (m.register this) (m.registerRange firstArg argc) false
      (some (code, cache))
    return .next
  | .callMethod dst base name firstArg argc propertyCache cache => do
    let base ← reg base
    let method ← getById base (← identifierAtom code name) (some (code, propertyCache))
    callFromFrame dst method base ((← get).registerRange firstArg argc) false (some (code, cache))
    return .next
  | .construct dst callee firstArg argc cache => do
    let m ← get
    callFromFrame dst (m.register callee) .undefined (m.registerRange firstArg argc) true
      (some (code, cache))
    return .next
  | .ret src => do return .ret (← reg src)
  | .throw src => do raise (← reg src)
  | .catchInto dst => do store dst (← takeException)
  | .debug line => do
    notifyStatement line
    return .next
where
  /-- Reads a register. -/
  reg (r : Register) : MachineM Value := return (← get).register r
  /-- Writes a register and goes on. -/
  store (dst : Register) (value : Value) : MachineM Flow := do
    modify (·.setRegister dst value)
    return .next
  /-- Goes on at another instruction. -/
  goto (target : UInt32) : MachineM Flow := do
    modify (·.setPc target)
    return .next

/-- Looks for a handler of a thrown value in the frames above `entryDepth`, popping those without
one; `count` bounds the number of frames. -/
def unwindFrames (entryDepth : Nat) (value : Value) : Nat → MachineM Unit
  | 0 => unwind (.throw value)
  | count + 1 => do
    match ← enterHandler value with
    | some _ => return ()
    | none =>
      let depth := (← get).frames.size - 1
      discard popFrame
      if depth ≤ entryDepth then unwind (.throw value)
      else unwindFrames entryDepth value count

/-- **Unwinds**: a thrown value goes to the nearest handler, a failure leaves all frames of the
loop. -/
def handleUnwind (entryDepth : Nat) : Unwind → MachineM Unit
  | .fatal failure => do
    popFramesTo entryDepth
    fatal failure
  | .throw value => do unwindFrames entryDepth value ((← get).frames.size + 1)

/-- The code and the instruction of the running frame, which is set to the next one. -/
def fetch : MachineM (Option (CodeId × Option Opcode)) := modifyGet fun m =>
  match m.frame? with
  | none => (none, m)
  | some ⟨code, pc, _, _, _, _, _, _, _, _, _, _, _, _, _⟩ =>
    match m.code? code with
    | none => (some (code, none), m)
    | some entry =>
      match entry.block.instructions[pc.toNat]? with
      | some instruction => (some (code, some instruction.opcode), m.setPc (pc + 1))
      | none => (some (code, none), m)

/-- The loop of the interpreter. Temporaries are released after every instruction; the result, or
the thrown value, is protected for the caller. -/
def runLoop (entryDepth mark : Nat) : Nat → MachineM Value
  | 0 => throw .exhausted
  | fuel + 1 => do
    checkpoint []
    match ← fetch with
    | none => return .undefined
    | some (code, opcode) =>
      let flow ← match opcode with
        | some opcode => attempt (step code opcode)
        | none => pure (.ok (.ret .undefined))
      match flow with
      | .ok .next =>
        modifyHeap (·.truncateTemporaries mark)
        runLoop entryDepth mark fuel
      | .ok (.ret value) =>
        let returning := (← get).frames.size - 1
        let (value, register) ← finishReturn value
        if returning ≤ entryDepth then
          modifyHeap fun h => (h.truncateTemporaries mark).pushTemporary value
          return value
        else
          modify fun m =>
            let m := match register with
              | some r => m.setRegister r value
              | none => m
            { m with heap := m.heap.truncateTemporaries mark }
          runLoop entryDepth mark fuel
      | .error u =>
        match ← attempt (handleUnwind entryDepth u) with
        | .ok () =>
          modifyHeap (·.truncateTemporaries mark)
          runLoop entryDepth mark fuel
        | .error u =>
          modifyHeap fun h =>
            let h := h.truncateTemporaries mark
            match u with
            | .throw value => h.pushTemporary value
            | .fatal _ => h
          unwind u

/-- **Interprets the top frame**, which is at `entryDepth`, until it returns or unwinds. -/
def execute (entryDepth : Nat) : MachineM Value := do
  runLoop entryDepth (← get).heap.temporaries.size (← read).fuel

/-- **Runs the top frame**, which has just been pushed, by tier code or by the interpreter. -/
def runFrame : MachineM Value := do
  let depth := (← get).frames.size - 1
  match ← attempt functionEntry with
  | .ok (some compiled) => runCompiled compiled
  | .ok none => execute depth
  | .error u =>
    popFramesTo depth
    unwind u

end ScriptMachine
