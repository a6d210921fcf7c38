import ScriptMachine.Atom
import ScriptMachine.Value

/-! # Shapes

A shape says which properties a cell has and at which offset of its storage each one lives. Cells
that gained the same properties with the same attributes in the same order share a shape, so that
comparing shape ids replaces looking names up.

A shared shape is never changed. A cell that deletes a property, changes attributes, or has gone
through too many additions moves to a *dictionary*: a shape of its own, which is changed in
place. -/

namespace ScriptMachine

/-- The kinds of cells. -/
inductive CellKind where
  /-- An ordinary object, error objects included. -/
  | object
  /-- An array with dense elements. -/
  | array
  /-- An immutable string. -/
  | string
  /-- A function of a script or of the host. -/
  | function
  /-- A scope record. -/
  | activation
deriving DecidableEq, Hashable, Repr, Inhabited

namespace CellKind

/-- All kinds. -/
def all : List CellKind := [.object, .array, .string, .function, .activation]

/-- The name of a kind. -/
def name : CellKind → String
  | .object => "Object"
  | .array => "Array"
  | .string => "String"
  | .function => "Function"
  | .activation => "Activation"

/-- The kind of a name. -/
def ofName? (name : String) : Option CellKind := all.find? fun kind => kind.name == name

/-- Cells of the kind can be called. -/
def isCallable (k : CellKind) : Bool := k == .function

/-- Cells of the kind have dense elements. -/
def hasElements (k : CellKind) : Bool := k == .array

/-- Scripts see cells of the kind as objects. -/
def isObject (k : CellKind) : Bool := k != .string && k != .activation

end CellKind

/-- The attributes of a property; by default it can be written, is enumerated and can be deleted. -/
structure Attributes where
  /-- Writes are refused. -/
  readOnly : Bool := false
  /-- Enumeration skips the property. -/
  dontEnum : Bool := false
  /-- Deletion is refused. -/
  dontDelete : Bool := false
deriving DecidableEq, Hashable, Repr, Inhabited

/-- No attribute set. -/
def Attributes.none : Attributes := {}

/-- The attributes whose letters are in a text: `R` for read-only, `E` for not enumerable and `D`
for not deletable. -/
def Attributes.ofText (s : String) : Attributes :=
  { readOnly := s.contains 'R', dontEnum := s.contains 'E', dontDelete := s.contains 'D' }

/-- The letters of attributes. -/
def Attributes.text (a : Attributes) : String :=
  (if a.readOnly then "R" else "") ++ (if a.dontEnum then "E" else "")
    ++ if a.dontDelete then "D" else ""

/-- The position of a shape in its table. -/
structure ShapeId where
  /-- The position, below the size of the table, which has fewer than `2 ^ 32` shapes. -/
  index : Nat
deriving DecidableEq, Hashable, Repr, Inhabited

/-- A property of a shape. -/
structure Property where
  /-- The name. -/
  name : Atom
  /-- Where in the cell the value is stored; below the number of slots of the shape. -/
  offset : Nat
  /-- The attributes. -/
  attributes : Attributes
deriving DecidableEq, Repr, Inhabited

/-- The layout of a cell. -/
structure Shape where
  /-- The kind of every cell of the shape. -/
  kind : CellKind
  /-- The prototype of every cell of the shape. -/
  prototype : Value
  /-- The properties in the order of their addition. -/
  properties : Array Property := #[]
  /-- The position of each property, by its name. -/
  index : Std.TreeMap Atom Nat := {}
  /-- The shape this one was derived from. -/
  previous : Option ShapeId := none
  /-- The number of additions since the root. -/
  transitionCount : Nat := 0
  /-- The shape belongs to one cell and is changed in place. -/
  dictionary : Bool := false
  /-- The number of storage offsets in use or freed, fewer than `2 ^ 32`. -/
  slotCount : Nat := 0
  /-- Freed offsets, the latest first. -/
  freeOffsets : List Nat := []
  /-- The shape has been given back and its id may be reused. -/
  reclaimed : Bool := false
deriving Repr, Inhabited

namespace Shape

/-- The property of a name, found by its position. -/
def lookup? (s : Shape) (name : Atom) : Option Property :=
  match s.index[name]? with
  | some position => s.properties[position]?
  | none => none

/-- Adds a property at a freed offset, or at a new one, and returns the offset. -/
def insert (s : Shape) (name : Atom) (attributes : Attributes) : Nat × Shape :=
  let index := s.index.insert name s.properties.size
  match s.freeOffsets with
  | offset :: rest =>
    (offset, { s with properties := s.properties.push ⟨name, offset, attributes⟩
                      index
                      freeOffsets := rest })
  | [] =>
    (s.slotCount, { s with properties := s.properties.push ⟨name, s.slotCount, attributes⟩
                           index
                           slotCount := s.slotCount + 1 })

/-- The positions after the property of a name has left its own: later properties move up. -/
def indexWithout (s : Shape) (name : Atom) (position : Nat) : Std.TreeMap Atom Nat :=
  (s.index.erase name).map fun _ later => if later > position then later - 1 else later

/-- Removes a property, freeing its offset. -/
def remove (s : Shape) (name : Atom) : Shape :=
  match s.index[name]? with
  | none => s
  | some position =>
    match s.properties[position]? with
    | none => s
    | some property =>
      { s with properties := s.properties.eraseIdxIfInBounds position
               index := s.indexWithout name position
               freeOffsets := property.offset :: s.freeOffsets }

/-- Changes the attributes of a property. -/
def setAttributes (s : Shape) (name : Atom) (attributes : Attributes) : Shape :=
  match s.index[name]? with
  | some position =>
    { s with properties := s.properties.modify position fun p => { p with attributes } }
  | none => s

/-- What is left of a shape that has been given back. -/
def reclaim (s : Shape) : Shape :=
  { s with prototype := .undefined, properties := #[], index := {}, previous := none
           slotCount := 0, dictionary := false, freeOffsets := [], reclaimed := true }

end Shape

end ScriptMachine
