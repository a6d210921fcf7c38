import ScriptMachine.Program.Operator
import ScriptMachine.Stub.Word

/-! # Stub routines

The routines that compiled code calls, by name, and the two channels they answer on. The second
channel carries an auxiliary result, or the sentinel of a routine that raised. -/

namespace ScriptMachine

/-- A routine of the stub table. Argument words are listed in order; a site is the index of a cache
of the calling code, or `noSite`. -/
inductive Routine where
  /-- Left operand, right operand. -/
  | binary (op : BinaryOp)
  /-- Operand. -/
  | unary (op : UnaryOp)
  /-- Base, name, site. -/
  | getById
  /-- Base, name, value, site. -/
  | putById
  /-- Base, key. -/
  | getByVal
  /-- Base, key, value. -/
  | putByVal
  /-- Base, name. -/
  | deleteById
  /-- Key, base. -/
  | hasProperty
  /-- Value, constructor. -/
  | instanceOf
  /-- Name, site. -/
  | getGlobal
  /-- Name, value, site. -/
  | putGlobal
  /-- Nothing. -/
  | newObject
  /-- The elements. -/
  | newArray
  /-- The nested function. -/
  | newFunction
  /-- Callee, receiver, site, arguments. -/
  | call
  /-- Callee, site, arguments. -/
  | construct
  /-- Callee, argument count; the second channel has the number of missing arguments. -/
  | callArityCheck
  /-- Nothing. -/
  | tearOffActivation
  /-- The layout. -/
  | pushScope
  /-- Nothing. -/
  | popScope
  /-- Depth, index. -/
  | getScopedVar
  /-- Depth, index, value. -/
  | putScopedVar
  /-- Name. -/
  | resolve
  /-- Nothing. -/
  | argumentsObject
  /-- Value; always raises. -/
  | throw
  /-- Nothing. -/
  | timeoutCheck
  /-- The number of registers. -/
  | registerFileCheck
  /-- The line. -/
  | debugStatement
deriving DecidableEq, Repr, Inhabited

namespace Routine

/-- The name of a routine. -/
def name : Routine → String
  | .binary op => op.name
  | .unary op => op.name
  | .getById => "GetById"
  | .putById => "PutById"
  | .getByVal => "GetByVal"
  | .putByVal => "PutByVal"
  | .deleteById => "DeleteById"
  | .hasProperty => "In"
  | .instanceOf => "InstanceOf"
  | .getGlobal => "GetGlobal"
  | .putGlobal => "PutGlobal"
  | .newObject => "NewObject"
  | .newArray => "NewArray"
  | .newFunction => "NewFunc"
  | .call => "Call"
  | .construct => "Construct"
  | .callArityCheck => "CallArityCheck"
  | .tearOffActivation => "TearOffActivation"
  | .pushScope => "PushScope"
  | .popScope => "PopScope"
  | .getScopedVar => "GetScopedVar"
  | .putScopedVar => "PutScopedVar"
  | .resolve => "Resolve"
  | .argumentsObject => "ArgumentsObject"
  | .throw => "Throw"
  | .timeoutCheck => "TimeoutCheck"
  | .registerFileCheck => "RegisterFileCheck"
  | .debugStatement => "DebugStatement"

/-- All routines. -/
def all : List Routine :=
  BinaryOp.all.map binary ++ UnaryOp.all.map unary ++
  [.getById, .putById, .getByVal, .putByVal, .deleteById, .hasProperty, .instanceOf, .getGlobal,
   .putGlobal, .newObject, .newArray, .newFunction, .call, .construct, .callArityCheck,
   .tearOffActivation, .pushScope, .popScope, .getScopedVar, .putScopedVar, .resolve,
   .argumentsObject, .throw, .timeoutCheck, .registerFileCheck, .debugStatement]

/-- The routine of a name. -/
def ofName? (name : String) : Option Routine := all.find? fun routine => routine.name == name

end Routine

/-- The answer of a routine. -/
structure StubReturn where
  /-- The result. -/
  value : Value
  /-- The auxiliary result, or the sentinel. -/
  secondary : UInt64
deriving DecidableEq, Repr, Inhabited

/-- The second channel of a routine that raised. -/
def exceptionSentinel : UInt64 := 0xFFFFFFFFFFFFFFFF

namespace StubReturn

/-- A result without an auxiliary one. -/
def ofValue (value : Value) : StubReturn := ⟨value, 0⟩

/-- The answer of a routine that raised. -/
def raised : StubReturn := ⟨.hole, exceptionSentinel⟩

/-- The routine raised. -/
def isException (r : StubReturn) : Bool := r.secondary == exceptionSentinel

end StubReturn

end ScriptMachine
