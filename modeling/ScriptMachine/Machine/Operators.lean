import ScriptMachine.Machine.Raise

/-! # Operators

The operators on values. Two numbers go straight to `BinaryOp.onNumbers`; otherwise sums may join
texts, comparisons have rules of their own, and all else converts to numbers first. -/

namespace ScriptMachine

/-- An operator on two numbers. -/
def BinaryOp.onNumbers (op : BinaryOp) (x y : Binary64) : Value :=
  match op with
  | .add => .number (x.add y)
  | .sub => .number (x.sub y)
  | .mul => .number (x.mul y)
  | .div => .number (x.div y)
  | .mod => .number (x.rem y)
  | .bitAnd => .number (.ofInt32 (x.toInt32 &&& y.toInt32))
  | .bitOr => .number (.ofInt32 (x.toInt32 ||| y.toInt32))
  | .bitXor => .number (.ofInt32 (x.toInt32 ^^^ y.toInt32))
  | .shiftLeft => .number (.ofInt32 (x.toUInt32 <<< (y.toUInt32 &&& 31)).toInt32)
  | .shiftRight => .number (.ofInt32 (x.toInt32 >>> (y.toUInt32 &&& 31).toInt32))
  | .unsignedShiftRight => .number (.ofUInt32 (x.toUInt32 >>> (y.toUInt32 &&& 31)))
  | .less => .boolean (x.lt y)
  | .lessEq => .boolean (x.le y)
  | .greater => .boolean (y.lt x)
  | .greaterEq => .boolean (y.le x)
  | .equal | .strictEqual => .boolean (x.eq y)
  | .notEqual | .strictNotEqual => .boolean (!x.eq y)

/-- The sum of two values: the joined texts if one of them is textual. -/
def addValues (a b : Value) : MachineM Value := do
  let m ← get
  if m.isTextual a || m.isTextual b then newString (m.display a ++ m.display b)
  else return .number ((m.toNumber a).add (m.toNumber b))

/-- **Applies a binary operator.** -/
def applyBinary (op : BinaryOp) (a b : Value) : MachineM Value := do
  match a.number?, b.number? with
  | some x, some y => return op.onNumbers x y
  | _, _ =>
    let m ← get
    match op with
    | .add => addValues a b
    | .equal => return .boolean (m.looseEquals a b)
    | .notEqual => return .boolean (!m.looseEquals a b)
    | .strictEqual => return .boolean (m.strictEquals a b)
    | .strictNotEqual => return .boolean (!m.strictEquals a b)
    | .less => return .boolean (m.compare? a b == some .lt)
    | .lessEq => return .boolean (m.compare? a b == some .lt || m.compare? a b == some .eq)
    | .greater => return .boolean (m.compare? a b == some .gt)
    | .greaterEq => return .boolean (m.compare? a b == some .gt || m.compare? a b == some .eq)
    | op => return op.onNumbers (m.toNumber a) (m.toNumber b)

/-- **Applies a unary operator.** -/
def applyUnary (op : UnaryOp) (a : Value) : MachineM Value := do
  let m ← get
  match op with
  | .negate => return .number (m.toNumber a).neg
  | .increment => return .number ((m.toNumber a).add .one)
  | .decrement => return .number ((m.toNumber a).sub .one)
  | .not => return .boolean (!m.toBoolean a)
  | .toNumber => return .number (m.toNumber a)
  | .typeOf => newString (m.typeName a)

end ScriptMachine
