import ScriptMachine.Machine.State
import ScriptMachine.Number.Literal

/-! # Conversions and comparisons

How values become texts, numbers and booleans, and how they compare. None of this changes the
machine.

The text of a value is given by `Machine.displayWithin?`, which has no answer when its fuel ends. An
array stops at a fixed depth of nesting, so only an error whose messages lead back to itself, or whose
prototypes do, uses up any fuel; `Machine.display` takes fuel for every cell of the heap, and the text
of such an error, which is never finished, is empty. -/

namespace ScriptMachine

/-- The nesting of arrays that is written out. -/
def maxDisplayDepth : Nat := 8

/-- A prototype chain meets a cell; none when the fuel is used up first. -/
def Heap.chainMeets? (h : Heap) (target : Handle) : Nat → Value → Option Bool
  | fuel, current =>
    match current.cell? with
    | none => some false
    | some link =>
      if link == target then some true
      else
        match fuel with
        | 0 => none
        | fuel + 1 => h.chainMeets? target fuel (h.prototypeOf link)

/-- The number of links to follow on a prototype chain: every cell once, and a stale one. A chain that
goes on after that never ends. -/
def Heap.chainFuel (h : Heap) : Nat := h.slots.size + 1

/-- The kind of a value as far as equality is concerned. -/
inductive Category where
  | number | boolean | null | undefined | string | object
deriving DecidableEq, Repr

namespace Machine

/-! ### Text -/

/-- The cell inherits from the prototype of all errors; none when its prototypes have no end. -/
def isErrorObject? (m : Machine) (id : Handle) : Option Bool :=
  m.heap.chainMeets? (m.intrinsics.errorPrototype .error) m.heap.chainFuel (m.heap.prototypeOf id)

/-- The text of a value, if it can be found with the given fuel. -/
def displayWithin? (m : Machine) : Nat → Nat → Value → Option String
  | 0, _, _ => none
  | fuel + 1, depth, v =>
    match v.decode with
    | .number n => some n.text
    | .boolean b => some (if b then "true" else "false")
    | .null => some "null"
    | .undefined | .hole => some "undefined"
    | .cell id =>
      match m.heap.cell? id with
      | none => some "undefined"
      | some cell =>
        match cell.payload with
        | .string data => some data.text
        | .array elements =>
          if depth ≥ maxDisplayDepth then some ""
          else
            (elements.items.toList.mapM fun item =>
              if item.isNullish || item.isHole then some ""
              else m.displayWithin? fuel (depth + 1) item).map ",".intercalate
        | .function data =>
          some ("function " ++ (data.name.map m.atomName).getD "" ++ "() \x7b [code] \x7d")
        | .activation .. => some "[scope]"
        | .plain =>
          match m.isErrorObject? id with
          | none => none
          | some false => some "[object Object]"
          | some true =>
            match m.heap.getProperty? id m.names.name, m.heap.getProperty? id m.names.message with
            | some name, some message =>
              let name := (m.stringValue? name).getD "Error"
              (if message.isUndefined then some ""
               else m.displayWithin? fuel maxDisplayDepth message).map fun message =>
                if message.isEmpty then name else name ++ ": " ++ message
            | _, _ => none

/-- The fuel for the text of any value. -/
def displayFuel (m : Machine) : Nat := m.heap.slots.size + maxDisplayDepth + 4

/-- **The text of a value**, as concatenation, keys and printing use it. -/
def display (m : Machine) (v : Value) : String := (m.displayWithin? m.displayFuel 0 v).getD ""

/-! ### Numbers, booleans and types -/

/-- The truth of a value; the empty string is false. -/
def toBoolean (m : Machine) (v : Value) : Bool :=
  if v.isCell then
    match m.stringValue? v with
    | some text => !text.isEmpty
    | none => true
  else v.isTruthy

/-- The number a value stands for; cells go through their text. -/
def toNumber (m : Machine) (v : Value) : Binary64 :=
  match v.decode with
  | .number n => n
  | .boolean b => if b then .one else .zero
  | .null => .zero
  | .undefined | .hole => .nan
  | .cell _ => Binary64.ofText (m.display v)

/-- The name of the type of a value. -/
def typeName (m : Machine) (v : Value) : String :=
  match v.decode with
  | .number _ => "number"
  | .boolean _ => "boolean"
  | .null => "object"
  | .undefined | .hole => "undefined"
  | .cell id =>
    match m.heap.cell? id with
    | some cell =>
      match cell.kind with
      | .string => "string"
      | .function => "function"
      | _ => "object"
    | none => "undefined"

/-- The category of a value. -/
def category (m : Machine) (v : Value) : Category :=
  match v.decode with
  | .number _ => .number
  | .boolean _ => .boolean
  | .null => .null
  | .undefined | .hole => .undefined
  | .cell _ => if (m.stringValue? v).isSome then .string else .object

/-! ### Equality and order -/

/-- The word of a value, the hole read as undefined. -/
def comparedWord (v : Value) : UInt64 := if v.isHole then Value.undefined.word else v.word

/-- Equality without conversions: numbers by value, strings by text, all else by word. -/
def strictEquals (m : Machine) (a b : Value) : Bool :=
  match a.number?, b.number? with
  | some x, some y => x.eq y
  | _, _ =>
    match m.stringValue? a, m.stringValue? b with
    | some s, some t => s == t
    | none, none => comparedWord a == comparedWord b
    | _, _ => false

/-- Equality with conversions of values that are neither booleans nor null nor undefined: two of one
category compare strictly, an object and a string by text, all else by number. -/
def convertedEquals (m : Machine) (a b : Value) : Bool :=
  match m.category a, m.category b with
  | .object, .string | .string, .object => m.display a == m.display b
  | .number, .string | .string, .number | .object, .number | .number, .object =>
    (m.toNumber a).eq (m.toNumber b)
  | _, _ => m.strictEquals a b

/-- Equality with conversions: null and undefined equal each other only, and a boolean counts as a
number. -/
def looseEquals (m : Machine) (a b : Value) : Bool :=
  let ca := m.category a
  let cb := m.category b
  if ca = cb then m.strictEquals a b
  else
    match ca, cb with
    | .null, .undefined | .undefined, .null => true
    | .null, _ | .undefined, _ | _, .null | _, .undefined => false
    | .boolean, _ => m.convertedEquals (.number (m.toNumber a)) b
    | _, .boolean => m.convertedEquals a (.number (m.toNumber b))
    | _, _ => m.convertedEquals a b

/-- The order of two numbers, none when one of them is a NaN. -/
def compareNumbers (x y : Binary64) : Option Ordering :=
  if x.lt y then some .lt else if y.lt x then some .gt else if x.eq y then some .eq else none

/-- The value takes part in comparisons and sums with its text. -/
def isTextual (m : Machine) (v : Value) : Bool := m.category v = .string || m.isObject v

/-- The order of two values: two textual ones by text, others by number. -/
def compare? (m : Machine) (a b : Value) : Option Ordering :=
  match a.number?, b.number? with
  | some x, some y => compareNumbers x y
  | _, _ =>
    if m.isTextual a && m.isTextual b then some (compareTexts (m.display a) (m.display b))
    else compareNumbers (m.toNumber a) (m.toNumber b)

/-! ### Failures -/

/-- The kind and message of a thrown value. -/
def errorParts (m : Machine) (v : Value) : ErrorKind × String :=
  match m.objectCell? v with
  | some id =>
    if m.isErrorObject? id = some true then
      let name := m.stringValue? (m.heap.getProperty id m.names.name)
      ((name.bind ErrorKind.ofName?).getD .error,
       m.display (m.heap.getProperty id m.names.message))
    else (.error, m.display v)
  | none => (.error, m.display v)

/-- An account of a failure. -/
def describe (m : Machine) : Failure → ErrorReport
  | .exception value =>
    let (kind, message) := m.errorParts value
    ⟨kind, message, m.exceptionTrace⟩
  | failure => ⟨.internalError, failure.message, []⟩

end Machine

end ScriptMachine
