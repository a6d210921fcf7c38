import ScriptMachine.Json.Printer
import ScriptMachine.Program.Block

/-! # The stored form of programs

A code block is stored as a JSON record. `Block.toText` writes every member in a fixed order;
`Block.ofText?` reads a record in any order, ignores unknown members, and lets all members but the
instructions and the register count default. Containers nest at most 127 deep in what is read. -/

namespace ScriptMachine

/-! ### Writing -/

/-- A written operand. -/
def Field.toJson : Field → Json
  | .word w => .ofWord w
  | .flag b => .boolean b

/-- An instruction: its name alone, or its name over the record of its operands. -/
def Opcode.toJson (op : Opcode) : Json :=
  if op.fields.isEmpty then .ofString op.name
  else .record [(op.name, .record (op.fields.map fun (key, field) => (key, field.toJson)))]

/-- A constant. -/
def Constant.toJson : Constant → Json
  | .number n => .record [("Number", .ofBinary64 n)]
  | .string s => .record [("String", .ofString s)]
  | .boolean b => .record [("Boolean", .boolean b)]
  | .null => .ofString "Null"
  | .undefined => .ofString "Undefined"

/-- A source position. -/
def SourcePosition.toJson (p : SourcePosition) : Json :=
  .record [("line", .ofWord p.line), ("column", .ofWord p.column)]

/-- An instruction with its position, which is left out when unknown. -/
def Instruction.toJson (i : Instruction) : Json :=
  .record (("opcode", i.opcode.toJson) :: match i.position with
    | some position => [("source_position", position.toJson)]
    | none => [])

/-- An exception handler. -/
def Handler.toJson (h : Handler) : Json :=
  .record [("start", .ofWord h.start), ("end", .ofWord h.stop), ("target", .ofWord h.target),
    ("scope_depth", .ofWord h.scopeDepth)]

mutual

/-- The record of a block. -/
def Block.toJson : Block → Json
  | ⟨name, instructions, constants, identifiers, functions, scopeLayouts, handlers, variableIds,
      paramCount, varCount, registerCount, needsActivation, propertyCacheCount,
      callCacheCount⟩ =>
    .record
      [("name", .ofOption .ofString name),
       ("instructions", .array (instructions.toList.map Instruction.toJson)),
       ("constants", .array (constants.toList.map Constant.toJson)),
       ("identifiers", .array (identifiers.toList.map .ofString)),
       ("functions", .array (Block.allToJson functions)),
       ("scope_layouts", .array (scopeLayouts.toList.map fun l => .array (l.map .ofWord))),
       ("handlers", .array (handlers.map Handler.toJson)),
       ("variables", .array (variableIds.toList.map .ofWord)),
       ("num_params", .ofWord paramCount),
       ("num_vars", .ofWord varCount),
       ("num_registers", .ofWord registerCount),
       ("needs_activation", .boolean needsActivation),
       ("property_cache_count", .ofWord propertyCacheCount),
       ("call_cache_count", .ofWord callCacheCount)]

/-- The records of a list of blocks. -/
def Block.allToJson : List Block → List Json
  | [] => []
  | b :: bs => b.toJson :: Block.allToJson bs

end

/-- The stored text of a block. -/
def Block.toText (b : Block) : String := b.toJson.pretty

/-! ### Reading

Readers of containers take the number of levels that may still be entered. -/

/-- Enters a container, if a level is left. -/
def enter? (levels : Nat) (read : Nat → Option α) : Option α :=
  match levels with
  | 0 => none
  | levels + 1 => read levels

/-- The items of an array, each read one level further in. -/
def Json.list? (levels : Nat) (read : Nat → Json → Option α) (j : Json) : Option (List α) :=
  enter? levels fun levels => do
    let items ← j.items?
    items.mapM (read levels)

/-- The members of a record and the levels left inside it. -/
def Json.record? (levels : Nat) (names : List String) (j : Json) :
    Option (List (Option Json) × Nat) :=
  enter? levels fun levels => (j.members? names).map fun members => (members, levels)

/-- The operator instructions by name. -/
def Opcode.ofOperator? (name : String) (content : List String → Option (List Json)) :
    Option Opcode :=
  match BinaryOp.ofName? name, UnaryOp.ofName? name with
  | some op, _ => do
    let [dst, lhs, rhs] ← content ["dst", "lhs", "rhs"] | none
    return .binary op (← dst.word?) (← lhs.word?) (← rhs.word?)
  | none, some op => do
    let [dst, src] ← content ["dst", "src"] | none
    return .unary op (← dst.word?) (← src.word?)
  | none, none => none

/-- An instruction by name; `content` reads the record of its operands, all of which are
required. -/
def Opcode.ofName? (name : String) (content : List String → Option (List Json)) :
    Option Opcode :=
  let words (names : List String) : Option (List UInt32) := do
    (← content names).mapM Json.word?
  match name with
  | "LoadConst" => do
    let [dst, index] ← words ["dst", "index"] | none
    return .loadConst dst index
  | "LoadUndefined" => do
    let [dst] ← words ["dst"] | none
    return .loadUndefined dst
  | "LoadNull" => do
    let [dst] ← words ["dst"] | none
    return .loadNull dst
  | "LoadBool" => do
    let [dst, value] ← content ["dst", "value"] | none
    return .loadBool (← dst.word?) (← value.boolean?)
  | "LoadThis" => do
    let [dst] ← words ["dst"] | none
    return .loadThis dst
  | "Move" => do
    let [dst, src] ← words ["dst", "src"] | none
    return .move dst src
  | "Jump" => do
    let [target] ← words ["target"] | none
    return .jump target
  | "JumpIfTrue" => do
    let [cond, target] ← words ["cond", "target"] | none
    return .jumpIf true cond target
  | "JumpIfFalse" => do
    let [cond, target] ← words ["cond", "target"] | none
    return .jumpIf false cond target
  | "Loop" => do
    let [target] ← words ["target"] | none
    return .loop target
  | "NewObject" => do
    let [dst] ← words ["dst"] | none
    return .newObject dst
  | "NewArray" => do
    let [dst, first, count] ← words ["dst", "first", "count"] | none
    return .newArray dst first count
  | "GetById" => do
    let [dst, base, name, cache] ← words ["dst", "base", "name", "cache"] | none
    return .getById dst base name cache
  | "PutById" => do
    let [base, name, value, cache] ← words ["base", "name", "value", "cache"] | none
    return .putById base name value cache
  | "GetByVal" => do
    let [dst, base, key] ← words ["dst", "base", "key"] | none
    return .getByVal dst base key
  | "PutByVal" => do
    let [base, key, value] ← words ["base", "key", "value"] | none
    return .putByVal base key value
  | "DeleteById" => do
    let [dst, base, name] ← words ["dst", "base", "name"] | none
    return .deleteById dst base name
  | "In" => do
    let [dst, key, base] ← words ["dst", "key", "base"] | none
    return .hasProperty dst key base
  | "InstanceOf" => do
    let [dst, value, constructor] ← words ["dst", "value", "constructor"] | none
    return .instanceOf dst value constructor
  | "GetGlobal" => do
    let [dst, name, cache] ← words ["dst", "name", "cache"] | none
    return .getGlobal dst name cache
  | "PutGlobal" => do
    let [name, value, cache] ← words ["name", "value", "cache"] | none
    return .putGlobal name value cache
  | "PushScope" => do
    let [layout] ← words ["layout"] | none
    return .pushScope layout
  | "GetScopedVar" => do
    let [dst, depth, index] ← words ["dst", "depth", "index"] | none
    return .getScopedVar dst depth index
  | "PutScopedVar" => do
    let [depth, index, value] ← words ["depth", "index", "value"] | none
    return .putScopedVar depth index value
  | "ResolveName" => do
    let [dst, name] ← words ["dst", "name"] | none
    return .resolveName dst name
  | "ArgumentsObject" => do
    let [dst] ← words ["dst"] | none
    return .argumentsObject dst
  | "NewFunction" => do
    let [dst, function] ← words ["dst", "function"] | none
    return .newFunction dst function
  | "Call" => do
    let [dst, callee, this, firstArg, argc, cache] ←
      words ["dst", "callee", "this", "first_arg", "argc", "cache"] | none
    return .call dst callee this firstArg argc cache
  | "CallMethod" => do
    let [dst, base, name, firstArg, argc, propertyCache, cache] ←
      words ["dst", "base", "name", "first_arg", "argc", "property_cache", "cache"] | none
    return .callMethod dst base name firstArg argc propertyCache cache
  | "Construct" => do
    let [dst, callee, firstArg, argc, cache] ←
      words ["dst", "callee", "first_arg", "argc", "cache"] | none
    return .construct dst callee firstArg argc cache
  | "Return" => do
    let [src] ← words ["src"] | none
    return .ret src
  | "Throw" => do
    let [src] ← words ["src"] | none
    return .throw src
  | "Catch" => do
    let [dst] ← words ["dst"] | none
    return .catchInto dst
  | "Debug" => do
    let [line] ← words ["line"] | none
    return .debug line
  | name => Opcode.ofOperator? name content

/-- The content of an alternative that carries nothing: absent or null. -/
def isBare : Option Json → Bool
  | none | some .null => true
  | _ => false

/-- The levels left inside an alternative, which takes one when it is an object. -/
def insideAlternative? (levels : Nat) : Option Json → Option Nat
  | none => some levels
  | some _ => enter? levels some

/-- An instruction from its stored form. -/
def Opcode.ofJson? (levels : Nat) (j : Json) : Option Opcode := do
  let (name, content) ← j.alternative?
  let levels ← insideAlternative? levels content
  if name == "PopScope" then if isBare content then some .popScope else none
  else Opcode.ofName? name fun names => do
    let (members, _) ← (← content).record? levels names
    members.mapM id

/-- A constant from its stored form. -/
def Constant.ofJson? (levels : Nat) (j : Json) : Option Constant := do
  let (name, content) ← j.alternative?
  let _ ← insideAlternative? levels content
  match name with
  | "Number" => .number <$> (← content).binary64?
  | "String" => .string <$> (← content).string?
  | "Boolean" => .boolean <$> (← content).boolean?
  | "Null" => if isBare content then some .null else none
  | "Undefined" => if isBare content then some .undefined else none
  | _ => none

/-- A source position from its stored form. -/
def SourcePosition.ofJson? (levels : Nat) (j : Json) : Option SourcePosition := do
  let ([line, column], _) ← j.record? levels ["line", "column"] | none
  return ⟨← (← line).word?, ← (← column).word?⟩

/-- An instruction with its position from its stored form. -/
def Instruction.ofJson? (levels : Nat) (j : Json) : Option Instruction := do
  let ([opcode, position], levels) ← j.record? levels ["opcode", "source_position"] | none
  return ⟨← Opcode.ofJson? levels (← opcode),
    ← (position.getD .null).optional? (SourcePosition.ofJson? levels)⟩

/-- An exception handler from its stored form. -/
def Handler.ofJson? (levels : Nat) (j : Json) : Option Handler := do
  let ([start, stop, target, depth], _) ←
    j.record? levels ["start", "end", "target", "scope_depth"] | none
  return ⟨← (← start).word?, ← (← stop).word?, ← (← target).word?, ← (← depth).word?⟩

/-- The names of a block's members. -/
def Block.memberNames : List String :=
  ["name", "instructions", "constants", "identifiers", "functions", "scope_layouts", "handlers",
   "variables", "num_params", "num_vars", "num_registers", "needs_activation",
   "property_cache_count", "call_cache_count"]

/-- A member that may be absent. -/
def memberOr (default : α) (read : Json → Option α) : Option Json → Option α
  | none => some default
  | some j => read j

/-- A block from its stored form. A block and the list of its nested functions take a level each. -/
def Block.ofJson? : (levels : Nat) → Json → Option Block
  | levels + 2, j => do
    let [name, instructions, constants, identifiers, functions, scopeLayouts, handlers, variableIds,
        paramCount, varCount, registerCount, needsActivation, propertyCacheCount,
        callCacheCount] ← j.members? Block.memberNames | none
    return {
      name := ← memberOr none (Json.optional? Json.string?) name
      instructions :=
        (← (← (← instructions).items?).mapM (Instruction.ofJson? levels)).toArray
      constants :=
        (← memberOr [] (Json.list? (levels + 1) Constant.ofJson?) constants).toArray
      identifiers :=
        (← memberOr [] (Json.list? (levels + 1) fun _ => Json.string?) identifiers).toArray
      functions :=
        ← memberOr [] (fun j => do (← j.items?).mapM (Block.ofJson? levels)) functions
      scopeLayouts :=
        (← memberOr [] (Json.list? (levels + 1) fun levels =>
          Json.list? levels fun _ => Json.word?) scopeLayouts).toArray
      handlers := ← memberOr [] (Json.list? (levels + 1) Handler.ofJson?) handlers
      variableIds :=
        (← memberOr [] (Json.list? (levels + 1) fun _ => Json.word?) variableIds).toArray
      paramCount := ← memberOr 0 Json.word? paramCount
      varCount := ← memberOr 0 Json.word? varCount
      registerCount := ← (← registerCount).word?
      needsActivation := ← memberOr false Json.boolean? needsActivation
      propertyCacheCount := ← memberOr 0 Json.word? propertyCacheCount
      callCacheCount := ← memberOr 0 Json.word? callCacheCount }
  | _, _ => none

/-- The deepest nesting of containers that is read. -/
def nestingLimit : Nat := 127

/-- **The block a text holds**, if it holds one. -/
def Block.ofText? (text : String) : Option Block := do
  Block.ofJson? nestingLimit (← Json.read? text)

end ScriptMachine
