import ScriptMachine.Machine.Embedding

/-! # Running everything

Host programs are run by answering their questions. `perform` ties the knot: an activity runs with
an environment in which nested activities have one unit of fuel less, so that the whole machine is a
total function of its fuel. -/

namespace ScriptMachine

/-! ### Host programs -/

/-- **Answers a question** of a host program. -/
def answer : (query : HostQuery) → MachineM query.Reply
  | .display value => return (← get).display value
  | .number value => return (← get).toNumber value
  | .call function this args => tryCall (call function this args)
  | .construct function args => tryCall (construct function args)
  | .newString text => tryCall (newString text)
  | .newArray items => tryCall (newArray (.ofArray items))
  | .newObject => tryCall newObject
  | .newError kind message => tryCall (newError kind message)
  | .setProperty object name value => tryCall (setProperty object name value)
  | .defineProperty object name value attributes =>
    tryCall (defineProperty object name value attributes)
  | .setPrototype object prototype => tryCall (setPrototype object prototype)
  | .getGlobal name => getGlobal? name
  | .setGlobal name value => tryCall (setGlobal name value)
  | .collect => collectGarbage
  | .release => modify (·.releaseTemporaries)
  | .interrupt => modify (·.requestInterrupt)
  | .depth => return (← get).frames.size
  | .intern name => intern name
  | .locate name => do
    let atom ← intern name
    settled ((← get).search? atom)
  | .register r => return (← get).register r
  | .scopedVar depth index => return (← get).scopedVar depth index
  | .stub routine words => do
    let result ← callStub routine words
    if result.isException then return .error (← takeStubUnwind).failure else return .ok result
  | .describe failure => return (← get).describe failure
  | .record entry => modify fun m => { m with journal := m.journal.push entry }

/-- **Runs a host program.** -/
def runHost : HostProgram → MachineM (Except Failure Value)
  | .done result => return result
  | .ask query next => do runHost (next (← answer query))
  | .listen listener next => do
    addListener listener
    runHost next

/-! ### Activities -/

/-- Tells all listeners of an event. Listeners they add come after them and hear of later events. -/
def tellListeners (event : DebugEvent) : MachineM Value := do
  let listeners := (← get).listeners
  modify fun m => { m with notifying := true, listeners := #[] }
  for listener in listeners do
    discard <| runHost (listener event)
  modify fun m => { m with notifying := false, listeners := listeners ++ m.listeners }
  return .undefined

/-- Runs a host function on a stub frame of its own; its result is protected for the caller. -/
def runHostFunction (function : HostId) (c : HostCall) : MachineM Value := do
  let m ← get
  match m.hosts[function.index]? with
  | none => fatal (.invalidBytecode ("unknown host function " ++ toString function.index))
  | some entry =>
    let words := [c.callee, c.this] ++ c.args.toList
    let frame := m.stubFrame (words.map StubWord.ofValue)
    let depth := m.stubFrames.size
    modify fun m => { m with stubFrames := m.stubFrames.push frame }
    let result ← runHost (entry.run c)
    modify fun m => { m with stubFrames := m.stubFrames.shrink depth }
    match result with
    | .ok value =>
      modifyHeap (·.pushTemporary value)
      return value
    | .error (.exception value) => raiseFromHost value
    | .error failure => fatal failure

/-- An activity, in an environment for those it starts. -/
def performIn : Activity → MachineM Value
  | .notify event => tellListeners event
  | .host function c => runHostFunction function c
  | .frame => runFrame

/-- **Performs an activity** with a bound on its nesting and on the steps of its loops. -/
def perform (pause : Machine → List Value → Bool) : Nat → Activity → BaseM Value
  | 0, _ => throw .exhausted
  | fuel + 1, activity => performIn activity { reenter := perform pause fuel, fuel, pause }

/-- Runs an action on a machine, which can be stopped at its checkpoints. -/
def Machine.evalPausing (m : Machine) (pause : Machine → List Value → Bool) (fuel : Nat)
    (x : MachineM α) : EStateM.Result Stop Machine α :=
  x { reenter := perform pause fuel, fuel, pause } m

/-- **Runs an action on a machine.** -/
def Machine.eval (m : Machine) (fuel : Nat) (x : MachineM α) : EStateM.Result Stop Machine α :=
  m.evalPausing (fun _ _ => false) fuel x

end ScriptMachine
