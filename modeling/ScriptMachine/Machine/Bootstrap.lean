import ScriptMachine.Machine.State

/-! # A fresh machine

A machine starts with its intrinsic objects: the prototypes of objects, functions, arrays and of
every kind of error, and the global object with the constants `undefined`, `NaN` and `Infinity`. All
of them are persistent roots. -/

namespace ScriptMachine

namespace Bootstrap

/-- A step of setting up a heap. -/
abbrev SetupM := EStateM Failure Heap

/-- Interns a name. -/
def intern (name : String) : SetupM Atom := modifyGet (·.intern name)

/-- The empty shape of a kind and prototype. -/
def root (kind : CellKind) (prototype : Value) : SetupM ShapeId :=
  modifyGet (·.rootShape kind prototype)

/-- Allocates a cell. -/
def allocate (shape : ShapeId) (payload : Payload) : SetupM Handle := do
  match ← modifyGet (·.allocate shape payload) with
  | .ok id => return id
  | .error failure => throw failure

/-- Defines a property. -/
def define (id : Handle) (name : Atom) (value : Value) (attributes : Attributes) :
    SetupM Unit := fun heap =>
  match Heap.defineProperty id name value attributes heap with
  | .ok () heap => .ok () heap
  | .error _ heap => .error .staleHandle heap

/-- The prototype of one kind of error, with its name and an empty message. -/
def errorPrototype (names : Names) (base : Handle) (derived stringShape : ShapeId)
    (kind : ErrorKind) : SetupM Handle := do
  let prototype ← if kind = .error then pure base else allocate derived .plain
  let name ← allocate stringShape (.string kind.name)
  let empty ← allocate stringShape (.string "")
  define prototype names.name (.cell name) { dontEnum := true }
  define prototype names.message (.cell empty) { dontEnum := true }
  return prototype

/-- The global constants. -/
def globalConstants : List (String × Value) :=
  [("undefined", .undefined), ("NaN", .number .nan), ("Infinity", .number (.infinity false))]

/-- The names the machine uses. -/
def names : SetupM Names := do
  return {
    length := ← intern "length"
    prototype := ← intern "prototype"
    constructor := ← intern "constructor"
    name := ← intern "name"
    message := ← intern "message" }

/-- The intrinsic objects. -/
def intrinsics (names : Names) : SetupM Intrinsics := do
  let bare ← root .object .null
  let objectPrototype ← allocate bare .plain
  let objectShape ← root .object (.cell objectPrototype)
  let functionPrototype ← allocate objectShape .plain
  let arrayPrototype ← allocate objectShape .plain
  let global ← allocate objectShape .plain
  let stringShape ← root .string .null
  let activationShape ← root .activation .null
  let functionShape ← root .function (.cell functionPrototype)
  let arrayShape ← root .array (.cell arrayPrototype)
  let baseError ← allocate objectShape .plain
  let derived ← root .object (.cell baseError)
  let errorPrototypes ← ErrorKind.all.mapM (errorPrototype names baseError derived stringShape)
  for (name, value) in globalConstants do
    define global (← intern name) value { readOnly := true, dontEnum := true, dontDelete := true }
  for id in [objectPrototype, functionPrototype, arrayPrototype, global] ++ errorPrototypes do
    modify fun heap => (heap.addRoot (.cell id)).2
  return { global, objectPrototype, functionPrototype, arrayPrototype
           errorPrototypes := errorPrototypes.toArray
           objectShape, arrayShape, functionShape, stringShape, activationShape }

end Bootstrap

/-- **A fresh machine**, or a failure if the heap cannot even hold the intrinsic objects. -/
def Machine.new (config : Config) : Except Failure Machine :=
  let setup : Bootstrap.SetupM (Names × Intrinsics) := do
    let names ← Bootstrap.names
    return (names, ← Bootstrap.intrinsics names)
  let limits := { threshold := config.gcThresholdBytes, maxBytes := config.maxHeapBytes }
  match setup (Heap.new limits) with
  | .ok (names, intrinsics) heap =>
    .ok { config, heap := heap.clearTemporaries, names, intrinsics
          registers := { capacity := config.registerFileCapacity }
          watchdog := .new config.timeLimitMs config.ticksPerCheck }
  | .error failure _ => .error failure

end ScriptMachine
