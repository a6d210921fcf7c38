import ScriptMachine.Machine.Call
import ScriptMachine.Machine.Operators

/-! # Stub calls

Tier code does everything that may allocate, call or raise through the stub table. A call lays its
words out in a stub frame, runs the routine, and answers on two channels. What a routine raised is
parked in the frame, and taken out of it when the frame is popped: the machine keeps it until the
caller takes it. -/

namespace ScriptMachine

/-- The frame of a stub call made now. -/
def Machine.stubFrame (m : Machine) (words : List StubWord) : StubFrame :=
  .ofWords m.globalObject (m.frame?.map (·.code)) words

/-- The number of arguments a callee misses, or an error if it is no function. -/
def arityCheck (callee : Value) (argc : UInt32) : MachineM StubReturn := do
  let m ← get
  match m.functionData? callee with
  | some data => return ⟨callee, (data.arity - min data.arity argc).toUInt64⟩
  | none => raiseError .typeError (m.display callee ++ " is not a function")

/-- Raises an error if the running frame cannot have so many registers. -/
def registerFileCheck (count : UInt32) : MachineM Unit := do
  let m ← get
  let base := match m.frame? with
    | some f => f.base
    | none => 0
  if base + count.toNat > m.registers.capacity then
    raiseError .rangeError "Maximum call stack size exceeded"

/-- **The routines of the stub table**, on the words of a frame. -/
def runRoutine (f : StubFrame) : Routine → MachineM StubReturn
  | .binary op => do answer (← applyBinary op (value 0) (value 1))
  | .unary op => do answer (← applyUnary op (value 0))
  | .getById => do answer (← getById (value 0) (f.arg 1).atom (f.site 2))
  | .putById => do
    putById (value 0) (f.arg 1).atom (value 2) (f.site 3)
    answer (value 2)
  | .getByVal => do answer (← getByVal (value 0) (value 1))
  | .putByVal => do
    putByVal (value 0) (value 1) (value 2)
    answer (value 2)
  | .deleteById => do answer (.boolean (← deleteById (value 0) (f.arg 1).atom))
  | .hasProperty => do answer (.boolean (← hasKey (value 0) (value 1)))
  | .instanceOf => do answer (.boolean (← instanceOf (value 0) (value 1)))
  | .getGlobal => do answer (← getGlobalById (f.arg 0).atom (f.site 1))
  | .putGlobal => do
    putGlobalById (f.arg 0).atom (value 1) (f.site 2)
    answer (value 1)
  | .newObject => do answer (← newObject)
  | .newArray => do answer (← newArray (.ofArray (f.valuesFrom 0).toArray))
  | .newFunction => do answer (← newClosure (f.arg 0).index)
  | .call => do
    answer (← callValue (value 0) (value 1) (f.valuesFrom 3).toArray false (f.site 2))
  | .construct => do
    answer (← callValue (value 0) .undefined (f.valuesFrom 2).toArray true (f.site 1))
  | .callArityCheck => arityCheck (value 0) (f.arg 1).index
  | .tearOffActivation => do answer (.cell (← tearOffActivation))
  | .pushScope => do
    pushScope (f.arg 0).index
    answer .undefined
  | .popScope => do
    modify (·.popScope)
    answer .undefined
  | .getScopedVar => do answer ((← get).scopedVar (f.arg 0).index (f.arg 1).index)
  | .putScopedVar => do
    modify (·.setScopedVar (f.arg 0).index (f.arg 1).index (value 2))
    answer (value 2)
  | .resolve => do answer (← resolveName (f.arg 0).atom)
  | .argumentsObject => do answer (← argumentsObject)
  | .throw => raise (value 0)
  | .timeoutCheck => do
    checkInterrupt
    answer .undefined
  | .registerFileCheck => do
    registerFileCheck (f.arg 0).index
    answer .undefined
  | .debugStatement => do
    notifyStatement (f.arg 0).index
    answer .undefined
where
  /-- An argument as a value. -/
  value (index : Nat) : Value := (f.arg index).value
  /-- An answer without an auxiliary result. -/
  answer (v : Value) : MachineM StubReturn := return .ofValue v

/-- Parks what a routine raised in its frame. -/
def StubFrame.fail (f : StubFrame) : Unwind → StubFrame
  | .throw value => { f with exception := value }
  | .fatal failure => { f with fatal := some failure }

/-- What is parked in a frame. -/
def StubFrame.parked (f : StubFrame) : Unwind :=
  match f.fatal with
  | some failure => .fatal failure
  | none => .throw f.exception

/-- **Calls a stub.** What it raises is parked in the frame, which is popped with it, and the answer
says so. Routines leave the stub frames as they find them, so that the frame that is popped is the one
that was pushed. -/
def callStub (routine : Routine) (words : List StubWord) : MachineM StubReturn := do
  let frame := (← get).stubFrame words
  modify fun m => { m with stubFrames := m.stubFrames.push frame }
  let result ← attempt (runRoutine frame routine)
  modify fun m => { m with stubFrames := m.stubFrames.pop }
  match result with
  | .ok answer => return answer
  | .error u =>
    modify fun m => { m with stubUnwind := some (frame.fail u).parked }
    return .raised

/-- Takes what the last raising stub raised. -/
def takeStubUnwind : MachineM Unwind := modifyGet fun m =>
  (m.stubUnwind.getD
    (.fatal (.invalidBytecode "exception sentinel without a pending exception")),
   { m with stubUnwind := none })

end ScriptMachine
