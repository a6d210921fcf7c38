import ScriptMachine.Config
import ScriptMachine.Heap.Property
import ScriptMachine.Host.Program
import ScriptMachine.InlineCache
import ScriptMachine.Machine.Frame

/-! # The machine

A `Machine` owns everything that exists while scripts run: the heap, the registered code with its
caches, the frames and registers, the stub frames, and what the host has registered.

Operations are `MachineM` actions. They stop early in two ways: by an `Unwind`, which is an
exception on its way to a handler or a failure on its way to the caller, and by running out of fuel
or being stopped from outside, which are kept apart so that no handler can see them. What never ends
runs out of any fuel. State is never rolled back.

Running code may run other code: listeners, host functions and frames of their own. All such nesting
goes through `Env.reenter`, so that every other operation is plain, and the nesting is bounded by
the fuel. -/

namespace ScriptMachine

/-! ### Stopping -/

/-- Why execution leaves its normal course. -/
inductive Unwind where
  /-- A thrown value, on its way to a handler. -/
  | throw (value : Value)
  /-- A failure that no handler sees. -/
  | fatal (failure : Failure)
deriving DecidableEq, Repr, Inhabited

/-- The failure a caller of the machine gets. -/
def Unwind.failure : Unwind → Failure
  | .throw value => .exception value
  | .fatal failure => failure

/-- The unwinding a failure stands for. -/
def Unwind.ofFailure : Failure → Unwind
  | .exception value => .throw value
  | failure => .fatal failure

/-- Why an action has no result. -/
inductive Stop where
  /-- Execution is unwinding. -/
  | unwound (unwind : Unwind)
  /-- The fuel is used up, or no fuel would be enough. -/
  | exhausted
  /-- The machine was stopped at a checkpoint. -/
  | paused (held : List Value)
deriving DecidableEq, Repr, Inhabited

/-! ### Parts of the machine -/

/-- A registered code block and its tables. -/
structure CodeEntry where
  /-- The block, without its nested functions. -/
  block : Block
  /-- The atoms of its identifiers. -/
  atoms : Array Atom
  /-- The values of its constants. -/
  constants : Array Value
  /-- Its nested functions. -/
  functions : Array CodeId
  /-- The names of its variables. -/
  variableNames : Array Atom
  /-- The names in its scope layouts. -/
  scopeLayouts : Array (Array Atom)
  /-- Its caches. -/
  caches : CodeCaches
  /-- The calls counted while it was not compiled. -/
  callCount : UInt32 := 0
  /-- Its tier code. -/
  compiled : Option Lowered := none
  /-- Compilation has been tried. -/
  tierAttempted : Bool := false
deriving Inhabited

/-- A registered host function. -/
structure HostEntry where
  /-- Its name. -/
  name : Atom
  /-- The number of its parameters. -/
  arity : UInt32
  /-- What it does. -/
  run : HostFunction
deriving Inhabited

/-- The objects and shapes the machine itself relies on. -/
structure Intrinsics where
  /-- The global object. -/
  global : Handle
  /-- The end of every ordinary prototype chain. -/
  objectPrototype : Handle
  /-- The prototype of functions. -/
  functionPrototype : Handle
  /-- The prototype of arrays. -/
  arrayPrototype : Handle
  /-- The prototypes of errors, in the order of `ErrorKind.all`. -/
  errorPrototypes : Array Handle
  /-- The shape of new objects. -/
  objectShape : ShapeId
  /-- The shape of new arrays. -/
  arrayShape : ShapeId
  /-- The shape of new functions. -/
  functionShape : ShapeId
  /-- The shape of strings. -/
  stringShape : ShapeId
  /-- The shape of scope records. -/
  activationShape : ShapeId
deriving Inhabited, Repr

/-- The prototype of errors of a kind. -/
def Intrinsics.errorPrototype (i : Intrinsics) (kind : ErrorKind) : Handle :=
  i.errorPrototypes.getD kind.position default

/-- The names the machine itself uses. -/
structure Names where
  /-- The atom of `length`. -/
  length : Atom
  /-- The atom of `prototype`. -/
  prototype : Atom
  /-- The atom of `constructor`. -/
  constructor : Atom
  /-- The atom of `name`. -/
  name : Atom
  /-- The atom of `message`. -/
  message : Atom
deriving Inhabited, Repr

/-- The time limit of an invocation. Time is measured in interruption checks, each of which stands
for twenty nanoseconds. -/
structure Watchdog where
  /-- The limit in milliseconds. -/
  limit : Option Nat
  /-- The checks between two looks at the clock. -/
  ticksPerCheck : UInt32
  /-- An invocation is being timed. -/
  armed : Bool := false
  /-- The checks since the last look. -/
  ticks : UInt32 := 0
  /-- The checks since the invocation began. -/
  elapsed : Nat := 0
deriving Inhabited, Repr

namespace Watchdog

/-- The checks that stand for a millisecond. -/
def checksPerMillisecond : Nat := 50000

/-- A watchdog; it looks at the clock at least once per check. -/
def new (limit : Option Nat) (ticksPerCheck : UInt32) : Watchdog :=
  { limit, ticksPerCheck := max ticksPerCheck 1 }

/-- Begins to time an invocation. -/
def arm (w : Watchdog) : Watchdog := { w with armed := true, ticks := 0, elapsed := 0 }

/-- Ends the timing. -/
def disarm (w : Watchdog) : Watchdog := { w with armed := false }

/-- Counts a check; true when the clock was looked at and the limit has passed. -/
def tick (w : Watchdog) : Bool × Watchdog :=
  match w.limit with
  | none => (false, w)
  | some limit =>
    if !w.armed then (false, w)
    else
      let w := { w with ticks := w.ticks + 1, elapsed := w.elapsed + 1 }
      if w.ticks < w.ticksPerCheck then (false, w)
      else (limit * checksPerMillisecond ≤ w.elapsed, { w with ticks := 0 })

end Watchdog

/-- Totals over all compilations. -/
structure TierStats where
  /-- Functions compiled. -/
  functionsCompiled : Nat := 0
  /-- Functions that could not be compiled. -/
  functionsDeclined : Nat := 0
  /-- Operations emitted. -/
  opsEmitted : Nat := 0
  /-- Comparisons fused with a branch. -/
  fusedBranches : Nat := 0
  /-- Stub calls made by tier code. -/
  stubCalls : Nat := 0
deriving DecidableEq, Inhabited, Repr

/-- The state of everything. -/
structure Machine where
  /-- The tunables. -/
  config : Config
  /-- The heap. -/
  heap : Heap
  /-- The registered code. -/
  codes : Array CodeEntry := #[]
  /-- The registers. -/
  registers : RegisterFile
  /-- The frames, the running one last. -/
  frames : Array Frame := #[]
  /-- The stub frames, the innermost one last. -/
  stubFrames : Array StubFrame := #[]
  /-- What the last raising stub raised, until it is taken. -/
  stubUnwind : Option Unwind := none
  /-- The registered host functions. -/
  hosts : Array HostEntry := #[]
  /-- The intrinsic objects. -/
  intrinsics : Intrinsics
  /-- The names in use. -/
  names : Names
  /-- The exception delivered to a handler, until it is taken. -/
  pendingException : Option Value := none
  /-- The last value that was raised. -/
  lastRaised : Option Value := none
  /-- The call stack when it was raised. -/
  exceptionTrace : List TraceEntry := []
  /-- The listeners. -/
  listeners : Array Listener := #[]
  /-- Listeners are being told of an event. -/
  notifying : Bool := false
  /-- Interruption has been requested. -/
  interruptRequested : Bool := false
  /-- The time limit. -/
  watchdog : Watchdog
  /-- The totals of the compiler, if there is one. -/
  tier : Option TierStats := none
  /-- The nesting of calls from the host. -/
  reentryDepth : Nat := 0
  /-- What the host has written down. -/
  journal : Array JournalEntry := #[]
deriving Inhabited

/-! ### Actions -/

/-- What running code can start in the middle of an action. -/
inductive Activity where
  /-- Telling all listeners of an event. -/
  | notify (event : DebugEvent)
  /-- Running a host function. -/
  | host (function : HostId) (call : HostCall)
  /-- Running the top frame, which has just been pushed. -/
  | frame

/-- An action on the machine without an environment. -/
abbrev BaseM := EStateM Stop Machine

/-- What an action may rely on. -/
structure Env where
  /-- Runs a nested activity. -/
  reenter : Activity → BaseM Value
  /-- The number of steps a loop may take. -/
  fuel : Nat
  /-- Stops the machine at a checkpoint. -/
  pause : Machine → List Value → Bool := fun _ _ => false

/-- An action on the machine. -/
abbrev MachineM := ReaderT Env BaseM

/-- Runs a nested activity. -/
def reenter (activity : Activity) : MachineM Value := fun env m => env.reenter activity m

/-- **A checkpoint**, where the machine can be stopped and looked at: before every instruction, and
wherever an operation may collect. `held` has the values that the operation goes on to use. -/
def checkpoint (held : List Value) : MachineM Unit := fun env m =>
  if env.pause m held then .error (.paused held) m else .ok () m

/-- Starts to unwind. -/
def unwind (u : Unwind) : MachineM α := throw (.unwound u)

/-- Fails in a way that no handler sees. -/
def fatal (failure : Failure) : MachineM α := unwind (.fatal failure)

/-- Goes on with what was found. What is searched for without end is never found. -/
def settled (found : Option α) : MachineM α :=
  match found with
  | some a => return a
  | none => throw .exhausted

@[simp] theorem settled_some (a : α) : settled (some a) = pure a := rfl

@[simp] theorem settled_none : settled (none : Option α) = throw .exhausted := rfl

/-- Runs an action and catches its unwinding, but neither the end of the fuel nor a pause. -/
def attempt (x : MachineM α) : MachineM (Except Unwind α) := fun env m =>
  match x env m with
  | .ok a m => .ok (.ok a) m
  | .error (.unwound u) m => .ok (.error u) m
  | .error .exhausted m => .error .exhausted m
  | .error (.paused held) m => .error (.paused held) m

/-- Changes the heap. -/
@[inline]
def modifyHeap (f : Heap → Heap) : MachineM Unit := modify fun m => { m with heap := f m.heap }

/-- Runs a step of the heap that yields something. -/
@[inline]
def withHeap (f : Heap → α × Heap) : MachineM α := modifyGet fun m =>
  let (a, heap) := f m.heap
  (a, { m with heap })

/-- Runs an operation of the heap that may fail. -/
def tryHeap (x : HeapM α) : MachineM (Except PropertyFault α) :=
  withHeap fun heap =>
    match x heap with
    | .ok a heap => (.ok a, heap)
    | .error fault heap => (.error fault, heap)

/-- Interns a name. -/
def intern (name : String) : MachineM Atom := withHeap (·.intern name)

namespace Machine

/-- The running frame. -/
def frame? (m : Machine) : Option Frame := m.frames.back?

/-- A registered code block. -/
def code? (m : Machine) (code : CodeId) : Option CodeEntry := m.codes[code.index]?

/-- The global object. -/
def globalObject (m : Machine) : Value := .cell m.intrinsics.global

/-- The text of a string value. -/
def stringValue? (m : Machine) (v : Value) : Option String :=
  match m.heap.cellOf? v with
  | some cell => cell.text?
  | none => none

/-- The handle of a value that refers to a live object. -/
def objectCell? (m : Machine) (v : Value) : Option Handle :=
  match v.cell? with
  | some id =>
    match m.heap.cell? id with
    | some cell => if cell.kind.isObject then some id else none
    | none => none
  | none => none

/-- The value refers to a live object. -/
def isObject (m : Machine) (v : Value) : Bool := (m.objectCell? v).isSome

/-- The handle of a value that refers to a live cell. -/
def liveCell? (m : Machine) (v : Value) : Option Handle :=
  match v.cell? with
  | some id => if m.heap.isLive id then some id else none
  | none => none

/-- The name of an atom. -/
def atomName (m : Machine) (atom : Atom) : String := m.heap.atoms.name atom

/-- The payload of a function value. -/
def functionData? (m : Machine) (v : Value) : Option FunctionData :=
  match m.heap.cellOf? v with
  | some cell => cell.function?
  | none => none

/-- The name of a function value. -/
def functionName? (m : Machine) (v : Value) : Option String :=
  match m.functionData? v with
  | some data => data.name.map m.atomName
  | none => none

/-- Changes the running frame. -/
def modifyFrame (m : Machine) (f : Frame → Frame) : Machine :=
  { m with frames := m.frames.modify (m.frames.size - 1) f }

/-- Changes a registered code block. -/
def modifyCode (m : Machine) (code : CodeId) (f : CodeEntry → CodeEntry) : Machine :=
  { m with codes := m.codes.modify code.index f }

/-- The line a frame is executing. -/
def frameLine (m : Machine) (f : Frame) : UInt32 :=
  match m.code? f.code with
  | some entry => entry.block.lineAt (f.pc - min f.pc 1)
  | none => 0

/-- The call stack, innermost frame first. -/
def captureTrace (m : Machine) : List TraceEntry :=
  m.frames.toList.reverse.map fun f => ⟨m.functionName? f.callee, m.frameLine f⟩

end Machine

/-- The running frame, or a failure. -/
def currentFrame : MachineM Frame := do
  match (← get).frame? with
  | some frame => return frame
  | none => fatal (.invalidBytecode "no active frame")

end ScriptMachine
