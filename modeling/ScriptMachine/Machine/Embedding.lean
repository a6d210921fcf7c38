import ScriptMachine.Machine.Interpreter
import ScriptMachine.Program.Validation

/-! # Embedding

What a host does with a machine: properties and globals by name, new values, programs and calls.
Names are interned before anything else happens. A call from the host counts as one more level of
nesting, and the outermost one is timed. -/

namespace ScriptMachine

/-! ### Properties -/

/-- Reads a property. -/
def getProperty (object : Value) (name : String) : MachineM Value := do
  getById object (← intern name) none

/-- Writes a property. -/
def setProperty (object : Value) (name : String) (value : Value) : MachineM Unit := do
  putById object (← intern name) value none

/-- Defines a property with attributes. -/
def defineProperty (object : Value) (name : String) (value : Value) (attributes : Attributes) :
    MachineM Unit := do
  let atom ← intern name
  match (← get).objectCell? object with
  | some id => runHeap (Heap.defineProperty id atom value attributes)
  | none => raiseError .typeError "cannot define a property on a primitive"

/-- Deletes a property; false when it must stay. -/
def deleteProperty (object : Value) (name : String) : MachineM Bool := do
  deleteById object (← intern name)

/-- The object or one of its prototypes has a property. -/
def hasProperty (object : Value) (name : String) : MachineM Bool := do
  let atom ← intern name
  let m ← get
  match m.objectCell? object with
  | some id => settled (m.heap.hasProperty? id atom)
  | none => return false

/-- Replaces the prototype of an object. -/
def setPrototype (object prototype : Value) : MachineM Unit := do
  match (← get).objectCell? object with
  | some id => runHeap (Heap.setPrototype id prototype)
  | none => raiseError .typeError "cannot set the prototype of a primitive"

/-- Writes a global variable. -/
def setGlobal (name : String) (value : Value) : MachineM Unit := do
  setProperty (← get).globalObject name value

/-- A global variable, if it exists. -/
def getGlobal? (name : String) : MachineM (Option Value) := do
  let atom ← intern name
  let m ← get
  let global := m.intrinsics.global
  if ← settled (m.heap.hasProperty? global atom) then
    return some (← settled (m.heap.getProperty? global atom))
  else return none

/-- A value as a string value. -/
def toStringValue (v : Value) : MachineM Value := do
  let m ← get
  match m.stringValue? v with
  | some _ => return v
  | none => newString (m.display v)

/-! ### Host functions -/

/-- A new host function. -/
def newHostFunction (name : String) (arity : UInt32) (run : HostFunction) : MachineM Value := do
  let atom ← intern name
  let id : HostId := ⟨(← get).hosts.size⟩
  modify fun m => { m with hosts := m.hosts.push { name := atom, arity, run } }
  return .cell (← newFunctionCell (.host id) none (some atom) arity)

/-- A new host function that is also a global. -/
def registerHostFunction (name : String) (arity : UInt32) (run : HostFunction) :
    MachineM Value := do
  let value ← newHostFunction name arity run
  setGlobal name value
  return value

/-- Registers a listener. -/
def addListener (listener : Listener) : MachineM Unit :=
  modify fun m => { m with listeners := m.listeners.push listener }

/-! ### Programs -/

/-- The value of a constant. -/
def constantValue : Constant → MachineM Value
  | .number n => return .number n
  | .boolean b => return .boolean b
  | .null => return .null
  | .undefined => return .undefined
  | .string text => newString text

mutual

/-- **Registers a code block**, its nested functions first. -/
def registerCode : Block → MachineM CodeId
  | ⟨name, instructions, constants, identifiers, functions, scopeLayouts, handlers, variableIds,
      paramCount, varCount, registerCount, needsActivation, propertyCacheCount,
      callCacheCount⟩ => do
    let nested ← registerAll functions
    let atoms ← identifiers.mapM intern
    let values ← constants.mapM constantValue
    checkpoint values.toList
    let atomAt (index : UInt32) : Atom := atoms.getD index.toNat default
    let code : CodeId := ⟨(← get).codes.size⟩
    let entry : CodeEntry :=
      { block := ⟨name, instructions, constants, identifiers, [], scopeLayouts, handlers,
          variableIds, paramCount, varCount, registerCount, needsActivation, propertyCacheCount,
          callCacheCount⟩
        atoms
        constants := values
        functions := nested.toArray
        variableNames := variableIds.map atomAt
        scopeLayouts := scopeLayouts.map fun layout => (layout.map atomAt).toArray
        caches := .new propertyCacheCount.toNat callCacheCount.toNat }
    modify fun m => { m with codes := m.codes.push entry }
    return code

/-- Registers code blocks one after the other. -/
def registerAll : List Block → MachineM (List CodeId)
  | [] => return []
  | block :: blocks => do
    let code ← registerCode block
    return code :: (← registerAll blocks)

end

/-- **Loads a program**: a function for a valid code block. -/
def load (block : Block) : MachineM Value := do
  match block.validate with
  | .error defect => fatal (.invalidBytecode defect.message)
  | .ok () =>
    let code ← registerCode block
    let name ← internOption block.name
    return .cell (← newFunctionCell (.script code) none name block.paramCount)

/-! ### Calls -/

/-- A call from the host: one more level of nesting, the outermost one timed. -/
def enter (body : MachineM Value) : MachineM Value := do
  let m ← get
  if m.reentryDepth ≥ m.config.maxReentryDepth then
    raiseError .rangeError "Maximum re-entry depth exceeded"
  else
    modify fun m =>
      { m with reentryDepth := m.reentryDepth + 1
               watchdog := if m.reentryDepth = 0 then m.watchdog.arm else m.watchdog }
    let result ← attempt body
    modify fun m =>
      { m with reentryDepth := m.reentryDepth - 1
               watchdog := if m.reentryDepth = 1 then m.watchdog.disarm else m.watchdog }
    match result with
    | .ok value => return value
    | .error u => unwind u

/-- **Calls a function value.** -/
def call (function this : Value) (args : Array Value) : MachineM Value :=
  enter (callValue function this args false none)

/-- **Calls a function value as a constructor.** -/
def construct (function : Value) (args : Array Value) : MachineM Value :=
  enter (callValue function .undefined args true none)

/-- **Runs a program**, with the global object as its receiver. -/
def runProgram (block : Block) : MachineM Value := do
  let program ← load block
  notify .willExecuteProgram
  let result ← attempt (call program (← get).globalObject #[])
  notify .didExecuteProgram
  match result with
  | .ok value => return value
  | .error u => unwind u

/-! ### Control -/

/-- Runs an action; its failure is what a caller of the machine gets. -/
def tryCall (x : MachineM α) : MachineM (Except Failure α) := do
  match ← attempt x with
  | .ok a => return .ok a
  | .error u => return .error u.failure

namespace Machine

/-- Releases all temporaries, unless something is running. -/
def releaseTemporaries (m : Machine) : Machine :=
  if m.frames.isEmpty && m.stubFrames.isEmpty then { m with heap := m.heap.clearTemporaries }
  else m

/-- Requests interruption. -/
def requestInterrupt (m : Machine) : Machine := { m with interruptRequested := true }

/-- Changes the time limit, in milliseconds. -/
def setTimeLimit (m : Machine) (limit : Option Nat) : Machine :=
  { m with config := { m.config with timeLimitMs := limit }
           watchdog := { m.watchdog with limit } }

/-- Installs the compiler. -/
def installTier (m : Machine) : Machine := { m with tier := some {} }

/-- The state of a property cache. -/
def propertyCacheState? (m : Machine) (code : CodeId) (site : UInt32) : Option CacheState :=
  match m.code? code with
  | some entry => entry.caches.properties[site.toNat]?.map (·.state)
  | none => none

/-- The state of a call cache. -/
def callCacheState? (m : Machine) (code : CodeId) (site : UInt32) : Option CacheState :=
  match m.code? code with
  | some entry => entry.caches.calls[site.toNat]?.map (·.state)
  | none => none

/-- The code of a script function. -/
def functionCode? (m : Machine) (v : Value) : Option CodeId :=
  match m.functionData? v with
  | some { target := .script code, .. } => some code
  | _ => none

/-- The nested functions of registered code. -/
def nestedCodes (m : Machine) (code : CodeId) : Array CodeId :=
  match m.code? code with
  | some entry => entry.functions
  | none => #[]

/-- The code of a script function, or of the function nested in it along a path. -/
def nestedCode? (m : Machine) (function : Value) (path : List Nat) : Option CodeId :=
  path.foldl (fun code index => code.bind fun code => (m.nestedCodes code)[index]?)
    (m.functionCode? function)

/-- The code has been compiled. -/
def isCompiled (m : Machine) (code : CodeId) : Bool :=
  match m.code? code with
  | some entry => entry.compiled.isSome
  | none => false

end Machine

end ScriptMachine
