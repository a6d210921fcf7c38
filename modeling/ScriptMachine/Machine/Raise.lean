import ScriptMachine.Machine.Allocation
import ScriptMachine.Machine.Conversion

/-! # Raising exceptions

Raising a value records the call stack, tells the listeners and unwinds. Errors of the machine
itself are raised as error objects. While listeners are being told of something, nothing else is
told to them. -/

namespace ScriptMachine

/-! ### Listeners -/

/-- The event of a kind at this moment. -/
def Machine.event (m : Machine) (kind : EventKind) (exception : Option Value)
    (line : Option UInt32) : DebugEvent :=
  { kind
    function := match m.frame? with
      | some f => m.functionName? f.callee
      | none => none
    line := match line with
      | some line => line
      | none =>
        match m.frame? with
        | some f => m.frameLine f
        | none => 0
    depth := m.frames.size
    exception }

/-- Tells the listeners of an event, if there are any and they are not busy. -/
def notifyAt (kind : EventKind) (exception : Option Value) (line : Option UInt32) :
    MachineM Unit := do
  let m ← get
  if !(m.listeners.isEmpty || m.notifying) then
    discard <| reenter (.notify (m.event kind exception line))

/-- Tells the listeners of an event at the running instruction. -/
def notify (kind : EventKind) : MachineM Unit := notifyAt kind none none

/-- Tells the listeners of a statement marker. -/
def notifyStatement (line : UInt32) : MachineM Unit := notifyAt .statement none (some line)

/-! ### Raising -/

/-- **Raises a value**: records the call stack, tells the listeners and unwinds. -/
def raise (value : Value) : MachineM α := do
  modify fun m =>
    { m with heap := m.heap.pushTemporary value, lastRaised := some value
             exceptionTrace := m.captureTrace }
  notifyAt .exception (some value) none
  unwind (.throw value)

/-- Raises a value that a host function failed with, unless it is already on its way. -/
def raiseFromHost (value : Value) : MachineM α := do
  if (← get).lastRaised = some value then unwind (.throw value) else raise value

/-- A new error object. -/
def newError (kind : ErrorKind) (message : String) : MachineM Value := do
  let prototype := (← get).intrinsics.errorPrototype kind
  let shape ← withHeap (·.rootShape .object (.cell prototype))
  let object ← allocate shape .plain
  let text ← newString message
  checkpoint [.cell object, text]
  let name := (← get).names.message
  match ← tryHeap (Heap.defineProperty object name text { dontEnum := true }) with
  | .ok () => return .cell object
  | .error _ => fatal .staleHandle

/-- Raises a new error. -/
def raiseError (kind : ErrorKind) (message : String) : MachineM α := do
  raise (← newError kind message)

/-- Raises the error of a fault; a stale handle and the end of memory are failures. -/
def propertyFault (fault : PropertyFault) : MachineM α := do
  match fault with
  | .staleHandle => fatal .staleHandle
  | .outOfMemory => fatal (.outOfMemory (← get).heap.limits.maxBytes)
  | .invalidArrayLength => raiseError .rangeError "Invalid array length"
  | fault => raiseError .typeError fault.message

/-- Runs an operation of the heap and raises its fault. -/
def runHeap (x : HeapM α) : MachineM α := do
  match ← tryHeap x with
  | .ok a => return a
  | .error fault => propertyFault fault

/-- Runs a write that may need memory; when there is none, collects and tries once more. `held` has
the values the write is about. -/
def heapWrite (held : List Value) (x : HeapM α) : MachineM α := do
  checkpoint held
  match ← tryHeap x with
  | .ok a => return a
  | .error .outOfMemory =>
    discard collectGarbage
    checkpoint held
    runHeap x
  | .error fault => propertyFault fault

/-! ### Interruption -/

/-- Looks for a request for interruption, or a time limit that has passed. -/
def checkInterrupt : MachineM Unit := do
  let m ← get
  if m.interruptRequested then
    set { m with interruptRequested := false }
    fatal .interrupted
  else if ← modifyGet fun m =>
      let (late, watchdog) := m.watchdog.tick
      (late, { m with watchdog }) then
    fatal .interrupted

end ScriptMachine
