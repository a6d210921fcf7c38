import ScriptMachine.Shape.Basic

/-! # Cells

A cell has a shape, storage for its properties and a payload that depends on its kind. The first six
property slots lie in the cell itself; further ones lie in overflow storage, whose capacity starts
at sixteen and doubles. What a cell is charged for is the room it has, not what it holds: overflow
storage, elements, texts and scope records each have a capacity of their own. -/

namespace ScriptMachine

/-- The number of property slots inside a cell. -/
def inlineSlots : Nat := 6

/-- The capacity of overflow storage when it is first needed. -/
def overflowBase : Nat := 16

/-- The bytes charged for a cell without its variable parts. -/
def cellBytes : Nat := 136

/-- The bytes charged for a value. -/
def valueBytes : Nat := 8

/-- A registered code block. -/
structure CodeId where
  /-- The position in the registry, which has fewer than `2 ^ 32` blocks. -/
  index : Nat
deriving DecidableEq, Hashable, Repr, Inhabited

/-- A registered host function. -/
structure HostId where
  /-- The position in the registry, which has fewer than `2 ^ 32` functions. -/
  index : Nat
deriving DecidableEq, Hashable, Repr, Inhabited

/-- What a function runs. -/
inductive CallTarget where
  /-- A code block. -/
  | script (code : CodeId)
  /-- A host function. -/
  | host (function : HostId)
deriving DecidableEq, Hashable, Repr, Inhabited

/-- The payload of a function. -/
structure FunctionData where
  /-- What it runs. -/
  target : CallTarget
  /-- The scope chain it closes over. -/
  scope : Option Handle
  /-- Its name. -/
  name : Option Atom
  /-- The number of declared parameters. -/
  arity : UInt32
deriving DecidableEq, Repr, Inhabited

/-- The payload of a string. -/
structure StringData where
  /-- The text. -/
  text : String
  /-- The bytes there is room for. -/
  capacity : Nat := text.utf8ByteSize
deriving DecidableEq, Repr, Inhabited

/-- A text without spare room. -/
instance : Coe String StringData := ⟨fun text => { text }⟩

/-- The text of a string. -/
instance : CoeOut StringData String := ⟨StringData.text⟩

/-- The payload of a scope record. -/
structure ScopeRecord where
  /-- The values of its variables. -/
  slots : Array Value
  /-- The names of its variables. -/
  names : Array Atom
  /-- The enclosing scope. -/
  parent : Option Handle
deriving DecidableEq, Repr, Inhabited

/-- The dense elements of an array. -/
structure Elements where
  /-- The elements; a missing one is the hole. -/
  items : Array Value := #[]
  /-- The number of elements there is room for. -/
  capacity : Nat := 0
deriving DecidableEq, Repr, Inhabited

/-- What a cell holds besides its properties. -/
inductive Payload where
  /-- Nothing. -/
  | plain
  /-- Elements. -/
  | array (elements : Elements)
  /-- A text. -/
  | string (data : StringData)
  /-- A function. -/
  | function (data : FunctionData)
  /-- A scope record, and the number of variables there is room for. -/
  | activation (scope : ScopeRecord) (capacity : Nat := scope.slots.size)
deriving DecidableEq, Repr, Inhabited

/-- The elements given by a list, without spare room. -/
def Elements.ofArray (items : Array Value) : Elements := ⟨items, items.size⟩

namespace Payload

/-- The kind of cell a payload belongs to. -/
def kind : Payload → CellKind
  | .plain => .object
  | .array _ => .array
  | .string _ => .string
  | .function _ => .function
  | .activation .. => .activation

/-- The bytes charged for a payload: the room there is. -/
def bytes : Payload → Nat
  | .plain | .function _ => 0
  | .array elements => elements.capacity * valueBytes
  | .string data => data.capacity
  | .activation _ capacity => capacity * valueBytes

/-- The values a payload refers to. -/
def references : Payload → List Value
  | .plain | .string _ => []
  | .array elements => elements.items.toList
  | .function data => (data.scope.map Value.cell).toList
  | .activation scope _ => scope.slots.toList ++ (scope.parent.map Value.cell).toList

end Payload

/-- A cell of the heap. -/
structure Cell where
  /-- The layout of its properties. -/
  shape : ShapeId
  /-- The property slots, the inline ones first. -/
  slots : Array Value
  /-- The number of slots there is room for in overflow storage. -/
  overflowCapacity : Nat
  /-- The rest. -/
  payload : Payload
deriving DecidableEq, Repr, Inhabited

namespace Cell

/-- Doubles a capacity until it reaches `needed`, at most `fuel` times. -/
def doubleUntil (needed : Nat) : Nat → Nat → Nat
  | 0, capacity => capacity
  | fuel + 1, capacity =>
    if capacity < needed then doubleUntil needed fuel (2 * capacity) else capacity

/-- Makes room for a number of property slots. -/
def ensureSlots (c : Cell) (count : Nat) : Cell :=
  if count ≤ c.slots.size then c
  else
    let needed := count - inlineSlots
    let capacity :=
      if needed ≤ c.overflowCapacity then c.overflowCapacity
      else doubleUntil needed needed (max c.overflowCapacity overflowBase)
    { c with slots := c.slots ++ Array.replicate (count - c.slots.size) Value.undefined
             overflowCapacity := capacity }

/-- A cell with all property slots undefined. -/
def new (shape : ShapeId) (slotCount : Nat) (payload : Payload) : Cell :=
  ensureSlots ⟨shape, Array.replicate inlineSlots Value.undefined, 0, payload⟩ slotCount

/-- The kind of a cell. -/
def kind (c : Cell) : CellKind := c.payload.kind

/-- The value of a property slot, undefined when there is none. -/
def slot (c : Cell) (offset : Nat) : Value := c.slots.getD offset Value.undefined

/-- Writes a property slot, making room for it. -/
def setSlot (c : Cell) (offset : Nat) (value : Value) : Cell :=
  let c := c.ensureSlots (offset + 1)
  { c with slots := c.slots.setIfInBounds offset value }

/-- The bytes charged for a cell. -/
def footprint (c : Cell) : Nat :=
  cellBytes + c.overflowCapacity * valueBytes + c.payload.bytes

/-- The text of a string. -/
def text? (c : Cell) : Option String :=
  match c.payload with
  | .string data => some data.text
  | _ => none

/-- The payload of a function. -/
def function? (c : Cell) : Option FunctionData :=
  match c.payload with
  | .function data => some data
  | _ => none

/-- The payload of a scope record. -/
def scope? (c : Cell) : Option ScopeRecord :=
  match c.payload with
  | .activation scope _ => some scope
  | _ => none

/-- The elements of an array. -/
def elements? (c : Cell) : Option Elements :=
  match c.payload with
  | .array elements => some elements
  | _ => none

/-- Changes the elements of an array; other cells stay as they are. -/
def mapElements (f : Elements → Elements) (c : Cell) : Cell :=
  match c with
  | ⟨shape, slots, capacity, .array elements⟩ => ⟨shape, slots, capacity, .array (f elements)⟩
  | c => c

/-- Changes a scope record where it is; other cells stay as they are. -/
def mapScope (f : ScopeRecord → ScopeRecord) (c : Cell) : Cell :=
  match c with
  | ⟨shape, slots, capacity, .activation scope room⟩ =>
    ⟨shape, slots, capacity, .activation (f scope) room⟩
  | c => c

end Cell

end ScriptMachine
