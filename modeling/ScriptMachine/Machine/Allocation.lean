import ScriptMachine.Machine.State

/-! # Allocation and collection

A collection starts from everything the machine can still use: registers, frames, exceptions on
their way, the constants of all code and the words of the stub frames. Allocation collects first
when the budget says so, and fails only when a collection did not help. -/

namespace ScriptMachine

namespace Machine

/-! ### Collection -/

/-- The values a frame uses. -/
def frameRoots (f : Frame) : List Value :=
  f.callee :: f.this :: (f.scope.map Value.cell).toList ++ (f.activation.map Value.cell).toList
    ++ f.extraArgs.toList

/-- The value of a parked exception. -/
def stubRoots : Option Unwind → List Value
  | some (.throw value) => [value]
  | _ => []

/-- The values that scripts can still reach. -/
def roots (m : Machine) : List Value :=
  m.registers.registers.toList ++ m.frames.toList.flatMap frameRoots
    ++ m.pendingException.toList ++ m.lastRaised.toList ++ stubRoots m.stubUnwind
    ++ m.codes.toList.flatMap fun entry => entry.constants.toList

/-- The words that may be references. -/
def rootWords (m : Machine) : List UInt64 := m.stubFrames.toList.flatMap StubFrame.words

/-- Drops the cache entries that rely on a shape that was given back. -/
def forgetReclaimedShapes (m : Machine) : Machine :=
  let shapes := m.heap.shapes
  { m with codes := m.codes.map fun entry =>
      { entry with caches := { entry.caches with
          properties := entry.caches.properties.map
            (InlineCache.retain fun _ e => e.shapes.all shapes.isLive) } } }

/-- **A full collection.** -/
def collect (m : Machine) : CollectionSummary × Machine :=
  let roots := m.roots
  let words := m.rootWords
  let (summary, heap) := m.heap.collect roots words
  let m := { m with heap }
  (summary, if summary.freedShapes > 0 then m.forgetReclaimedShapes else m)

end Machine

/-- A full collection. -/
def collectGarbage : MachineM CollectionSummary := modifyGet Machine.collect

/-! ### Allocation -/

/-- The bytes that a payload is expected to be charged. The room of an array is known; a text and a
scope record are expected to have no more than they need. -/
def Payload.estimate : Payload → Nat
  | .plain | .function _ => 0
  | .array elements => elements.capacity * valueBytes
  | .string data => data.text.utf8ByteSize
  | .activation scope _ => scope.slots.size * valueBytes

/-- A text or a scope record without spare room, or any other payload. -/
def Payload.Exact : Payload → Prop
  | .string data => data.capacity = data.text.utf8ByteSize
  | .activation scope capacity => capacity = scope.slots.size
  | _ => True

/-- **Allocates a cell**, after a collection when the budget says so. Before the collection the bytes
are estimated; the heap counts them. What the machine allocates is made without spare room, but for
arrays. -/
def allocate (shape : ShapeId) (payload : Payload) (_exact : payload.Exact := by trivial) :
    MachineM Handle := do
  checkpoint payload.references
  let heap := (← get).heap
  if heap.shouldCollect
      || heap.liveBytes + (cellBytes + payload.estimate) > heap.limits.maxBytes then
    discard collectGarbage
  checkpoint payload.references
  match ← withHeap (·.allocate shape payload) with
  | .ok id => return id
  | .error failure => fatal failure

/-- A new object. -/
def newObject : MachineM Value := do
  return .cell (← allocate (← get).intrinsics.objectShape .plain)

/-- A new array. -/
def newArray (elements : Elements) : MachineM Value := do
  return .cell (← allocate (← get).intrinsics.arrayShape (.array elements))

/-- A new string. -/
def newString (text : String) : MachineM Value := do
  return .cell (← allocate (← get).intrinsics.stringShape (.string text))

end ScriptMachine
