import ScriptMachine.Heap.Collection
import ScriptMachine.Program.Opcode
import ScriptMachine.Stub.Routine
import ScriptMachine.Tier.Lowering

/-! # Host programs

Host functions and listeners are given to the machine as data. A `HostProgram` is a tree: it is done
with a result, or it asks the machine something and goes on with the reply, or it registers a
listener. The machine runs such a tree by answering its questions one after the other, so whatever
the host does to the machine goes through a `HostQuery`.

What is proved of every host program is proved of every such tree. A tree has no state of its own: what it
does depends on the call, or the event, and on the replies it has got, and what it is to remember it leaves
in the machine, in properties, globals or the journal. It reads a property by a stub routine (`stub`), not
by a question for it; a global is asked for by its name (`getGlobal`).

`Host α` is the same thing in continuation form, which makes programs readable in `do` notation;
`Host.toProgram` closes it. -/

namespace ScriptMachine

/-! ### Events and the journal -/

/-- What a listener is told of. -/
inductive EventKind where
  /-- A frame was entered. -/
  | call
  /-- A frame is about to be left. -/
  | ret
  /-- A statement marker was reached. -/
  | statement
  /-- A value was thrown. -/
  | exception
  /-- A program is about to run. -/
  | willExecuteProgram
  /-- A program has finished. -/
  | didExecuteProgram
deriving DecidableEq, Repr, Inhabited

/-- The name of a kind of event. -/
def EventKind.name : EventKind → String
  | .call => "Call"
  | .ret => "Return"
  | .statement => "Statement"
  | .exception => "Exception"
  | .willExecuteProgram => "WillExecuteProgram"
  | .didExecuteProgram => "DidExecuteProgram"

/-- An event as listeners see it. -/
structure DebugEvent where
  /-- What happened. -/
  kind : EventKind
  /-- The name of the running function. -/
  function : Option String
  /-- The line of the running instruction, zero when unknown. -/
  line : UInt32
  /-- The number of frames. -/
  depth : Nat
  /-- The thrown value. -/
  exception : Option Value
deriving DecidableEq, Repr, Inhabited

/-- What host functions and listeners write down. -/
inductive JournalEntry where
  /-- An event, under the name of the listener; a thrown value is written as its text. -/
  | event (listener : String) (event : DebugEvent) (exception : Option String)
  /-- The outcome of a call a listener made. -/
  | hook (listener : String) (outcome : String)
  /-- Texts. -/
  | texts (items : List String)
deriving DecidableEq, Repr, Inhabited

/-! ### Locations -/

/-- Where a name is bound, seen from the running frame. -/
inductive Location where
  /-- A parameter or variable of the frame. -/
  | register (r : Register)
  /-- A slot of the scope record `depth` links up the chain. -/
  | scope (depth index : Nat)
  /-- A property of the global object. -/
  | global
deriving DecidableEq, Repr, Inhabited

/-- A location in a listing. -/
def Location.listingText : Location → String
  | .register r => "Register(" ++ toString r.toNat ++ ")"
  | .scope depth index =>
    Opcode.recordText "Scope" [("depth", toString depth), ("index", toString index)]
  | .global => "Global"

/-! ### Questions -/

/-- What a host program may ask of the machine. A property is read, looked for or deleted through the
routine of a stub, and everything else has a question of its own. -/
inductive HostQuery where
  /-- The text of a value. -/
  | display (value : Value)
  /-- A value as a number. -/
  | number (value : Value)
  /-- The outcome of a call. -/
  | call (function this : Value) (args : Array Value)
  /-- The outcome of a construction. -/
  | construct (function : Value) (args : Array Value)
  /-- A new string. -/
  | newString (text : String)
  /-- A new array. -/
  | newArray (items : Array Value)
  /-- A new object. -/
  | newObject
  /-- A new error. -/
  | newError (kind : ErrorKind) (message : String)
  /-- A write of a property. -/
  | setProperty (object : Value) (name : String) (value : Value)
  /-- A definition of a property. -/
  | defineProperty (object : Value) (name : String) (value : Value) (attributes : Attributes)
  /-- A change of prototype. -/
  | setPrototype (object prototype : Value)
  /-- A global variable. -/
  | getGlobal (name : String)
  /-- A write of a global variable. -/
  | setGlobal (name : String) (value : Value)
  /-- A collection. -/
  | collect
  /-- The release of all temporaries. -/
  | release
  /-- A request for interruption. -/
  | interrupt
  /-- The number of frames. -/
  | depth
  /-- The atom of a name. -/
  | intern (name : String)
  /-- Where a name is bound. -/
  | locate (name : String)
  /-- A register of the running frame. -/
  | register (r : Register)
  /-- A slot of the scope record `depth` links up the chain. -/
  | scopedVar (depth index : UInt32)
  /-- The answer of a stub routine; what it raised, if it did. -/
  | stub (routine : Routine) (words : List StubWord)
  /-- An account of a failure. -/
  | describe (failure : Failure)
  /-- An entry of the journal. -/
  | record (entry : JournalEntry)

/-- The type of the reply to a question. -/
def HostQuery.Reply : HostQuery → Type
  | .display _ => String
  | .number _ => Binary64
  | .call .. | .construct .. | .newString _ | .newArray _ | .newObject | .newError .. =>
    Except Failure Value
  | .setProperty .. | .defineProperty .. | .setPrototype .. | .setGlobal .. =>
    Except Failure Unit
  | .getGlobal _ => Option Value
  | .collect => CollectionSummary
  | .release | .interrupt | .record _ => Unit
  | .depth => Nat
  | .intern _ => Atom
  | .locate _ => Option Location
  | .register _ | .scopedVar .. => Value
  | .stub .. => Except Failure StubReturn
  | .describe _ => ErrorReport

/-! ### Programs -/

/-- A program of the host. -/
inductive HostProgram where
  /-- The end, with the result. -/
  | done (result : Except Failure Value)
  /-- A question, and what to do with the reply. -/
  | ask (query : HostQuery) (next : query.Reply → HostProgram)
  /-- The registration of a listener, and what to do next. -/
  | listen (listener : DebugEvent → HostProgram) (next : HostProgram)

instance : Inhabited HostProgram := ⟨.done (.ok .undefined)⟩

/-- A listener: what to do when an event happens. The result of its program is not used. -/
abbrev Listener := DebugEvent → HostProgram

/-- The arguments of a host function. -/
structure HostCall where
  /-- The function itself. -/
  callee : Value
  /-- The receiver; the new object when the call constructs. -/
  this : Value
  /-- The arguments. -/
  args : Array Value
  /-- The call constructs an object. -/
  isConstruct : Bool
deriving Repr, Inhabited

/-- An argument, undefined when it was not passed. -/
def HostCall.arg (c : HostCall) (index : Nat) : Value := c.args.getD index .undefined

/-- A host function: what each call of it asks and does. It remembers nothing from one call to the next. -/
abbrev HostFunction := HostCall → HostProgram

/-! ### Writing programs -/

/-- A host program that yields a value to what comes after it. -/
def Host (α : Type) : Type := (α → HostProgram) → HostProgram

namespace Host

instance : Monad Host where
  pure a := fun next => next a
  bind x f := fun next => x fun a => f a next

/-- Asks a question. -/
def ask (query : HostQuery) : Host query.Reply := fun next => .ask query next

/-- Ends with a failure. -/
def fail (failure : Failure) : Host α := fun _ => .done (.error failure)

/-- Goes on with a result, or ends with its failure. -/
def ofExcept : Except Failure α → Host α
  | .ok a => pure a
  | .error failure => fail failure

/-- Registers a listener. -/
def listen (listener : Listener) : Host Unit := fun next => .listen listener (next ())

/-- The program that ends with what is yielded. -/
def toProgram (x : Host Value) : HostProgram := x fun value => .done (.ok value)

end Host

end ScriptMachine
