import ScriptMachine.Machine.Stubs

/-! # Running tier code

Tier code runs on the frame that was pushed for it. Numbers are handled on the spot; everything else
goes through the stub table, with the frame set to one past the instruction first, so that handlers
and traces see the same place as in the interpreter. -/

namespace ScriptMachine

/-- The operators that tier code applies to two numbers itself. -/
def BinaryOp.isInline : BinaryOp → Bool
  | .add | .sub | .mul => true
  | op => op.isComparison

/-- What tier code computes itself of a unary operator; a number is its own number. -/
def UnaryOp.inlineResult? (op : UnaryOp) (operand : Value) : Option Value :=
  match op, operand.number? with
  | .negate, some n => some (.number n.neg)
  | .increment, some n => some (.number (n.add .one))
  | .decrement, some n => some (.number (n.sub .one))
  | .toNumber, some _ => some operand
  | _, _ => none

/-- The word of an operand. -/
def TierOperand.word (m : Machine) : TierOperand → StubWord
  | .register r => .ofValue (m.register r)
  | .atom a => .ofAtom a
  | .index i => .ofIndex i

/-- Where tier code goes after an operation. -/
inductive TierStep where
  /-- To the next operation. -/
  | next
  /-- To another operation. -/
  | jump (target : Nat)
  /-- Back to the caller. -/
  | ret (value : Value)
deriving Inhabited, Repr

/-- Counts a stub call of tier code. -/
def Machine.countStubCall (m : Machine) : Machine :=
  { m with tier := m.tier.map fun stats => { stats with stubCalls := stats.stubCalls + 1 } }

/-- A stub call of tier code at an instruction. -/
def tierStub (pc : UInt32) (routine : Routine) (words : List StubWord) : MachineM Value := do
  modify fun m => (m.setPc (pc + 1)).countStubCall
  let answer ← callStub routine words
  if answer.isException then unwind (← takeStubUnwind) else return answer.value

/-- A binary operator in tier code. -/
def tierBinary (pc : UInt32) (op : BinaryOp) (lhs rhs : Register) : MachineM Value := do
  let m ← get
  let a := m.register lhs
  let b := m.register rhs
  match a.number?, b.number? with
  | some x, some y =>
    if op.isInline then return op.onNumbers x y
    else tierStub pc (.binary op) [.ofValue a, .ofValue b]
  | _, _ => tierStub pc (.binary op) [.ofValue a, .ofValue b]

/-- **One operation of tier code.** -/
def tierStep (pc : UInt32) : TierOp → MachineM TierStep
  | .loadValue dst value => store dst value
  | .loadConstant dst index => do
    let m ← get
    let value := match m.frame? with
      | some f =>
        match m.code? f.code with
        | some entry => entry.constants.getD index.toNat .undefined
        | none => .undefined
      | none => .undefined
    store dst value
  | .loadThis dst => do
    let this := match (← get).frame? with
      | some f => f.this
      | none => .undefined
    store dst this
  | .move dst src => do store dst ((← get).register src)
  | .binary op dst lhs rhs => do store dst (← tierBinary pc op lhs rhs)
  | .unary op dst src => do
    let operand := (← get).register src
    match op.inlineResult? operand with
    | some value => store dst value
    | none => store dst (← tierStub pc (.unary op) [.ofValue operand])
  | .compareAndBranch op dst lhs rhs sense target _ => do
    let value ← tierBinary pc op lhs rhs
    discard <| store dst value
    return if value.isTruthy == sense then .jump target else .next
  | .jump target => return .jump target
  | .branch cond sense target => do
    let m ← get
    return if m.toBoolean (m.register cond) == sense then .jump target else .next
  | .loop target => do
    discard <| tierStub pc .timeoutCheck []
    return .jump target
  | .stub routine dst args => do
    let m ← get
    let value ← tierStub pc routine (args.map (TierOperand.word m))
    match dst with
    | some dst => store dst value
    | none => return .next
  | .callMethod dst base name propertySite callSite args => do
    let receiver := (← get).register base
    let method ← tierStub pc .getById
      [.ofValue receiver, .ofAtom name, .ofIndex propertySite]
    let m ← get
    let value ← tierStub pc .call
      ([.ofValue method, .ofValue receiver, .ofIndex callSite]
        ++ args.map fun r => .ofValue (m.register r))
    store dst value
  | .catchInto dst => do store dst (← takeException)
  | .ret src => return .ret ((← get).register src)
where
  /-- Writes a register and goes on. -/
  store (dst : Register) (value : Value) : MachineM TierStep := do
    modify (·.setRegister dst value)
    return .next

/-- Runs tier code from an operation on; a thrown value goes to a handler of the frame if there is
one. Temporaries are released before every operation. -/
def runOps (code : Lowered) (mark : Nat) : Nat → Nat → MachineM Value
  | 0, _ => throw .exhausted
  | fuel + 1, index =>
    match code.ops[index]? with
    | none => return .undefined
    | some op => do
      checkpoint []
      modifyHeap (·.truncateTemporaries mark)
      match ← attempt (tierStep (code.opPcs.getD index 0) op) with
      | .ok .next => runOps code mark fuel (index + 1)
      | .ok (.jump target) => runOps code mark fuel target
      | .ok (.ret value) => return value
      | .error (.throw exception) =>
        match ← enterHandler exception with
        | some pc =>
          runOps code mark fuel ((code.pcToOp.getD pc.toNat none).getD code.ops.size)
        | none => unwind (.throw exception)
      | .error u => unwind u

/-- **Runs the top frame by tier code** and pops it. -/
def runCompiled (code : Lowered) : MachineM Value := do
  let m ← get
  let depth := m.frames.size - 1
  let mark := m.heap.temporaries.size
  match ← attempt (runOps code mark (← read).fuel 0) with
  | .ok value =>
    popFramesTo (depth + 1)
    return (← finishReturn value).1
  | .error u =>
    popFramesTo depth
    unwind u

end ScriptMachine
