import ScriptMachine.Value

/-! # Errors

Two layers. An `ErrorKind` classifies the errors scripts themselves throw and catch. A `Failure` is
what a caller of the machine gets when an invocation does not complete: an exception that nobody
caught, or one of the conditions that scripts never see. -/

namespace ScriptMachine

/-- The kind of a language-level error object. -/
inductive ErrorKind where
  /-- The general kind. -/
  | error
  /-- Malformed source text. -/
  | syntaxError
  /-- A value of the wrong type. -/
  | typeError
  /-- A name without a binding. -/
  | referenceError
  /-- A value outside its range, exhaustion of the call stack included. -/
  | rangeError
  /-- Misuse of evaluation. -/
  | evalError
  /-- Misuse of locators. -/
  | uriError
  /-- A fault of the machine that is shown to scripts. -/
  | internalError
deriving DecidableEq, Repr, Inhabited

namespace ErrorKind

/-- Every kind, in the order in which their prototypes are installed. -/
def all : List ErrorKind :=
  [.error, .syntaxError, .typeError, .referenceError, .rangeError, .evalError, .uriError,
   .internalError]

/-- The name scripts see as an error's `name`. -/
def name : ErrorKind → String
  | .error => "Error"
  | .syntaxError => "SyntaxError"
  | .typeError => "TypeError"
  | .referenceError => "ReferenceError"
  | .rangeError => "RangeError"
  | .evalError => "EvalError"
  | .uriError => "URIError"
  | .internalError => "InternalError"

/-- The kind of a name. -/
def ofName? (name : String) : Option ErrorKind := all.find? fun kind => kind.name == name

/-- The position of a kind in `all`. -/
def position : ErrorKind → Nat
  | .error => 0
  | .syntaxError => 1
  | .typeError => 2
  | .referenceError => 3
  | .rangeError => 4
  | .evalError => 5
  | .uriError => 6
  | .internalError => 7

end ErrorKind

/-- One frame of a captured call stack. -/
structure TraceEntry where
  /-- The function's name, if it has one. -/
  function : Option String
  /-- The line the frame was executing; zero when unknown. -/
  line : UInt32
deriving DecidableEq, Repr, Inhabited

/-- A frame in a report: its name and, when known, its line. -/
def TraceEntry.text (e : TraceEntry) : String :=
  let name := e.function.getD "<anonymous>"
  if e.line > 0 then name ++ " (line " ++ toString e.line.toNat ++ ")" else name

/-- A readable account of a failure. -/
structure ErrorReport where
  /-- The kind of error. -/
  kind : ErrorKind
  /-- What went wrong. -/
  message : String
  /-- The call stack when it was thrown, innermost frame first. -/
  trace : List TraceEntry
deriving DecidableEq, Repr, Inhabited

/-- The report as text, one line for the error and one per frame. -/
def ErrorReport.text (r : ErrorReport) : String :=
  r.trace.foldl (fun out entry => out ++ "\n    at " ++ entry.text)
    (r.kind.name ++ ": " ++ r.message)

/-- Abnormal completion of an invocation. -/
inductive Failure where
  /-- An exception that no handler caught. -/
  | exception (value : Value)
  /-- The heap limit would be passed even after a collection. -/
  | outOfMemory (limit : Nat)
  /-- Execution was cancelled. -/
  | interrupted
  /-- A program was refused or found inconsistent. -/
  | invalidBytecode (message : String)
  /-- A handle that outlived its cell was used. -/
  | staleHandle
deriving DecidableEq, Repr, Inhabited

namespace Failure

/-- The name of the kind of failure. -/
def name : Failure → String
  | .exception _ => "Exception"
  | .outOfMemory _ => "OutOfMemory"
  | .interrupted => "Interrupted"
  | .invalidBytecode _ => "InvalidBytecode"
  | .staleHandle => "StaleHandle"

/-- What a failure says. -/
def message : Failure → String
  | .exception value => "uncaught exception: " ++ value.text
  | .outOfMemory limit => "out of memory: heap limit of " ++ toString limit ++ " bytes exceeded"
  | .interrupted => "execution interrupted"
  | .invalidBytecode message => "invalid bytecode: " ++ message
  | .staleHandle => "stale cell handle"

/-- The thrown value of an exception. -/
def exception? : Failure → Option Value
  | .exception value => some value
  | _ => none

/-- Handlers of scripts may see the failure. -/
def isCatchable : Failure → Bool
  | .exception _ => true
  | _ => false

end Failure

end ScriptMachine
