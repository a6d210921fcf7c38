import ScriptMachine.Host.Program

/-! # A library of host functions and listeners

Small host functions that cover everything a host program can ask: arguments, calls and
constructions, exceptions and failures, collections, properties, scopes and stubs.
`HostFunction.named?` finds one by its name, `Listener.named?` a listener. -/

namespace ScriptMachine

/-! ### Common steps -/

namespace HostCall

/-- The text of an argument. -/
def text (c : HostCall) (index : Nat) : Host String := Host.ask (.display (c.arg index))

/-- An argument as an index, zero when it is none. -/
def index (c : HostCall) (i : Nat) : UInt32 := (c.arg i).arrayIndex?.getD 0

/-- The arguments from a position on. -/
def rest (c : HostCall) (start : Nat) : Array Value := c.args.extract start c.args.size

end HostCall

namespace Host

/-- A new string. -/
def newString (text : String) : Host Value := do ofExcept (← ask (.newString text))

/-- The texts of values. -/
def displayAll : List Value → Host (List String)
  | [] => return []
  | v :: vs => do
    let text ← ask (.display v)
    return text :: (← displayAll vs)

/-- The sum of values, from negative zero on. -/
def sumFrom (total : Binary64) : List Value → Host Binary64
  | [] => return total
  | v :: vs => do sumFrom (total.add (← ask (.number v))) vs

end Host

/-! ### Functions -/

namespace HostFunction

open Host

/-- Calls the first argument with the others. -/
def invoke (c : HostCall) : Host (Except Failure Value) :=
  ask (.call (c.arg 0) .undefined (c.rest 1))

/-- Calls the first argument with the others; a failure becomes its report as a string. -/
def guarded (c : HostCall) : Host Value := do
  match ← invoke c with
  | .ok value => return value
  | .error failure => newString (← ask (.describe failure)).text

/-- Throws a new error whose kind and message are the texts of the arguments. -/
def raiseError (c : HostCall) : Host Value := do
  let kind := (ErrorKind.ofName? (← c.text 0)).getD .error
  fail (.exception (← ofExcept (← ask (.newError kind (← c.text 1)))))

/-- Fails in a way that scripts do not see. -/
def failFatally (c : HostCall) : Host Value := do
  let reason ← c.text 0
  fail (if reason == "interrupted" then .interrupted
    else if reason == "stale" then .staleHandle
    else .invalidBytecode reason)

/-- Defines a property: object, name, value, letters of attributes. -/
def define (c : HostCall) : Host Value := do
  let name ← c.text 1
  let attributes := Attributes.ofText (← c.text 3)
  ofExcept (← ask (.defineProperty (c.arg 0) name (c.arg 2) attributes))
  return c.arg 0

/-- Calls the stub named by the first argument with the others: what it raises is the failure, an
auxiliary result comes before the result. -/
def stub (c : HostCall) : Host Value := do
  match Routine.ofName? (← c.text 0) with
  | none => return .undefined
  | some routine =>
    let result ← ofExcept
      (← ask (.stub routine ((c.rest 1).toList.map StubWord.ofValue)))
    return if result.secondary = 0 then result.value else .ofNat result.secondary.toNat

/-- The functions of the library. -/
def steps? : String → Option (HostCall → Host Value)
  | "identity" => some fun c => return c.arg 0
  | "sum" => some fun c => return .number (← sumFrom .negZero c.args.toList)
  | "argc" => some fun c => return .ofNat c.args.size
  | "args" => some fun c => do ofExcept (← ask (.newArray c.args))
  | "this" => some fun c => return c.this
  | "callee" => some fun c => return c.callee
  | "is_construct" => some fun c => return .boolean c.isConstruct
  | "init" => some fun c => do
    ofExcept (← ask (.setProperty c.this "value" (c.arg 0)))
    return .undefined
  | "invoke" => some fun c => do ofExcept (← invoke c)
  | "construct" => some fun c => do ofExcept (← ask (.construct (c.arg 0) (c.rest 1)))
  | "attempt" => some guarded
  | "throw" => some fun c => fail (.exception (c.arg 0))
  | "throw_error" => some raiseError
  | "fatal" => some failFatally
  | "gc" => some fun _ => return .ofNat (← ask .collect).freedCells
  | "release" => some fun _ => do
    ask .release
    return .undefined
  | "interrupt" => some fun _ => do
    ask .interrupt
    return .undefined
  | "depth" => some fun _ => return .ofNat (← ask .depth)
  | "new_object" => some fun _ => do ofExcept (← ask .newObject)
  | "set_proto" => some fun c => do
    ofExcept (← ask (.setPrototype (c.arg 0) (c.arg 1)))
    return c.arg 0
  | "define" => some define
  | "display" => some fun c => do newString (← c.text 0)
  | "where" => some fun c => do
    newString (optionText Location.listingText (← ask (.locate (← c.text 0))))
  | "register" => some fun c => ask (.register (c.index 0))
  | "scoped" => some fun c => ask (.scopedVar (c.index 0) (c.index 1))
  | "atom" => some fun c => return .ofNat (← ask (.intern (← c.text 0))).index.toNat
  | "stub" => some stub
  | "log" => some fun c => do
    ask (.record (.texts (← displayAll c.args.toList)))
    return .undefined
  | _ => none

/-- **The host function of a name.** -/
def named? (name : String) : Option HostFunction :=
  (steps? name).map fun run c => (run c).toProgram

end HostFunction

/-! ### Listeners -/

namespace Listener

open Host

/-- Writes an event down under the name of the listener. -/
def writeEvent (tag : String) (event : DebugEvent) : Host Unit := do
  let exception ← match event.exception with
    | some value => do pure (some (← ask (.display value)))
    | none => pure none
  ask (.record (.event tag event exception))

/-- A listener that does nothing. -/
def silent : Listener := fun _ => .done (.ok .undefined)

/-- A listener that writes every event down. -/
def recording (tag : String) : Listener := fun event =>
  Host.toProgram do
    writeEvent tag event
    return .undefined

/-- A listener that writes every event down, sets the global `lastLine`, calls the global `hook` if
there is one and writes its outcome down, and registers another listener when something is
thrown. -/
def meddling (tag late : String) : Listener := fun event =>
  Host.toProgram do
    writeEvent tag event
    let line := Value.ofNat event.line.toNat
    discard <| ask (.setGlobal "lastLine" line)
    match ← ask (.getGlobal "hook") with
    | none => pure ()
    | some hook =>
      match ← ask (.call hook .undefined #[line]) with
      | .ok value => ask (.record (.hook tag (← ask (.display value))))
      | .error failure => ask (.record (.hook tag (← ask (.describe failure)).message))
    if event.kind = .exception then listen (recording late)
    return .undefined

/-- **The listener of a name.** -/
def named? : String → Option Listener
  | "silent" => some silent
  | "record" => some (recording "record")
  | "meddle" => some (meddling "meddle" "late")
  | _ => none

end Listener

end ScriptMachine
