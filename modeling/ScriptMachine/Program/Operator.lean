/-! # Operators

The operators of the language, as they appear in instructions, in tier code and in the operator
routines of the machine. -/

namespace ScriptMachine

/-- Operators on two values. -/
inductive BinaryOp where
  | add | sub | mul | div | mod
  | bitAnd | bitOr | bitXor | shiftLeft | shiftRight | unsignedShiftRight
  | less | lessEq | greater | greaterEq | equal | notEqual | strictEqual | strictNotEqual
deriving DecidableEq, Repr, Inhabited, Hashable

/-- Operators on one value. -/
inductive UnaryOp where
  | negate | increment | decrement | not | typeOf | toNumber
deriving DecidableEq, Repr, Inhabited, Hashable

namespace BinaryOp

/-- The operators, in the order of their declaration. -/
def all : List BinaryOp :=
  [.add, .sub, .mul, .div, .mod, .bitAnd, .bitOr, .bitXor, .shiftLeft, .shiftRight,
   .unsignedShiftRight, .less, .lessEq, .greater, .greaterEq, .equal, .notEqual, .strictEqual,
   .strictNotEqual]

/-- The name of an operator in programs and listings. -/
def name : BinaryOp → String
  | .add => "Add"
  | .sub => "Sub"
  | .mul => "Mul"
  | .div => "Div"
  | .mod => "Mod"
  | .bitAnd => "BitAnd"
  | .bitOr => "BitOr"
  | .bitXor => "BitXor"
  | .shiftLeft => "ShiftLeft"
  | .shiftRight => "ShiftRight"
  | .unsignedShiftRight => "UnsignedShiftRight"
  | .less => "Less"
  | .lessEq => "LessEq"
  | .greater => "Greater"
  | .greaterEq => "GreaterEq"
  | .equal => "Equal"
  | .notEqual => "NotEqual"
  | .strictEqual => "StrictEqual"
  | .strictNotEqual => "StrictNotEqual"

/-- The operator of a name. -/
def ofName? (name : String) : Option BinaryOp := all.find? fun op => op.name == name

/-- The operator answers a boolean, so that a branch can follow it directly. -/
def isComparison : BinaryOp → Bool
  | .less | .lessEq | .greater | .greaterEq => true
  | .equal | .notEqual | .strictEqual | .strictNotEqual => true
  | _ => false

end BinaryOp

namespace UnaryOp

/-- The operators, in the order of their declaration. -/
def all : List UnaryOp := [.negate, .increment, .decrement, .not, .typeOf, .toNumber]

/-- The name of an operator in programs and listings. -/
def name : UnaryOp → String
  | .negate => "Negate"
  | .increment => "Increment"
  | .decrement => "Decrement"
  | .not => "Not"
  | .typeOf => "TypeOf"
  | .toNumber => "ToNumber"

/-- The operator of a name. -/
def ofName? (name : String) : Option UnaryOp := all.find? fun op => op.name == name

end UnaryOp

end ScriptMachine
