import ScriptMachine.Heap.Basic
import ScriptMachine.Text.Units

/-! # Properties of cells

A named property is looked up in the shape of a cell and then along its prototypes. An array keeps
dense elements for the indices below its length; the `length` of arrays and strings is computed.

An array index lives in one place: a filled element, or a named property behind a hole or past the
end. A write that lands among the elements moves a plain named property of that index there; a named
property that was defined with attributes keeps receiving the writes.

A lookup goes up the prototypes for as long as there are any. Prototypes that come back to themselves
have no end, and a lookup of a name that none of them has never ends either: `lookupProperty?` has no
answer then, and `lookupProperty` says that nothing is found.

Writes are `HeapM` actions: they fail with a `PropertyFault`, and a failing or refused write leaves
the heap as it was. -/

namespace ScriptMachine

/-- The longest prototype chain a change of prototype may build. -/
def maxPrototypeChain : Nat := 10000

/-- Where a property was found. -/
inductive PropertyLookup where
  /-- In the cell itself. -/
  | own (shape : ShapeId) (offset : Nat) (attributes : Attributes) (value : Value)
  /-- In a cell `depth` links up the prototype chain. -/
  | prototype (holder : Handle) (holderShape : ShapeId) (offset depth : Nat) (value : Value)
  /-- An element or a length. -/
  | synthesized (value : Value)
  /-- Nowhere. -/
  | missing
deriving DecidableEq, Repr, Inhabited

/-- The value found, undefined when there is none. -/
def PropertyLookup.value : PropertyLookup → Value
  | .own _ _ _ value | .prototype _ _ _ _ value | .synthesized value => value
  | .missing => .undefined

/-- Something was found. -/
def PropertyLookup.isFound : PropertyLookup → Bool
  | .missing => false
  | _ => true

/-- The outcome of a write. -/
inductive PutOutcome where
  /-- A property got a new value. -/
  | replaced (shape : ShapeId) (offset : Nat)
  /-- A property was added. -/
  | added (source target : ShapeId) (offset : Nat)
  /-- An element or a length was written. -/
  | element
  /-- The property is read-only and nothing was written. -/
  | readOnly
deriving DecidableEq, Repr, Inhabited

/-- Why an operation on properties fails. -/
inductive PropertyFault where
  /-- The handle names no cell. -/
  | staleHandle
  /-- The prototype chain would come back to the cell. -/
  | prototypeCycle
  /-- The prototype chain would be too long. -/
  | prototypeChainTooLong
  /-- The prototype is neither an object nor null. -/
  | invalidPrototype
  /-- The length is no array index. -/
  | invalidArrayLength
  /-- The elements would take the heap past its limit. -/
  | outOfMemory
deriving DecidableEq, Repr, Inhabited

/-- The name of a fault. -/
def PropertyFault.name : PropertyFault → String
  | .staleHandle => "StaleHandle"
  | .prototypeCycle => "PrototypeCycle"
  | .prototypeChainTooLong => "PrototypeChainTooLong"
  | .invalidPrototype => "InvalidPrototype"
  | .invalidArrayLength => "InvalidArrayLength"
  | .outOfMemory => "OutOfMemory"

/-- What a fault says. -/
def PropertyFault.message : PropertyFault → String
  | .staleHandle => "stale cell handle"
  | .prototypeCycle => "cyclic prototype chain"
  | .prototypeChainTooLong => "prototype chain too long"
  | .invalidPrototype => "prototype must be an object or null"
  | .invalidArrayLength => "invalid array length"
  | .outOfMemory => "out of memory"

/-- An operation on a heap that may fail. -/
abbrev HeapM := EStateM PropertyFault Heap

namespace Heap

/-! ### Reading -/

/-- An element or a length of a cell, which no shape lists. -/
def synthesized? (h : Heap) (c : Cell) (name : Atom) : Option Value :=
  match c.payload with
  | .array elements =>
    match h.atoms.arrayIndex? name with
    | some index =>
      match elements.items[index.toNat]? with
      | some value => if value.isHole then none else some value
      | none => none
    | none =>
      if h.atoms.name name == "length" then some (.ofNat elements.items.size) else none
  | .string data =>
    if h.atoms.name name == "length" then some (.ofNat (unitCount data.text)) else none
  | _ => none

/-- Looks a name up along a prototype chain, `depth` links up; none when the fuel is used up first.
The chain has as many cells as there are slots at most, unless it comes back to itself: when it goes on
after one cell more, the walk never ends. -/
def lookupChain (h : Heap) (name : Atom) : Nat → Nat → Value → Option PropertyLookup
  | fuel, depth, current =>
    match current.cell? with
    | none => some .missing
    | some holder =>
      match h.cell? holder with
      | none => some .missing
      | some cell =>
        match h.synthesized? cell name with
        | some value => some (.synthesized value)
        | none =>
          match h.shapes.lookup? cell.shape name with
          | some property =>
            some (.prototype holder cell.shape property.offset depth (cell.slot property.offset))
          | none =>
            match fuel with
            | 0 => none
            | fuel + 1 => h.lookupChain name fuel (depth + 1) (h.shapes.get cell.shape).prototype

/-- **Looks a name up** in a cell and along its prototypes; none when that never ends, because the
prototypes come back to themselves. -/
def lookupProperty? (h : Heap) (id : Handle) (name : Atom) : Option PropertyLookup :=
  match h.cell? id with
  | none => some .missing
  | some cell =>
    match h.synthesized? cell name with
    | some value => some (.synthesized value)
    | none =>
      match h.shapes.lookup? cell.shape name with
      | some property =>
        some (.own cell.shape property.offset property.attributes (cell.slot property.offset))
      | none => h.lookupChain name h.slots.size 1 (h.shapes.get cell.shape).prototype

/-- The value of a property, undefined when there is none; none when the lookup never ends. -/
def getProperty? (h : Heap) (id : Handle) (name : Atom) : Option Value :=
  (h.lookupProperty? id name).map (·.value)

/-- The cell or one of its prototypes has the property; none when the lookup never ends. -/
def hasProperty? (h : Heap) (id : Handle) (name : Atom) : Option Bool :=
  (h.lookupProperty? id name).map (·.isFound)

/-- What a lookup finds, nothing if it never ends. -/
def lookupProperty (h : Heap) (id : Handle) (name : Atom) : PropertyLookup :=
  (h.lookupProperty? id name).getD .missing

/-- The value of a property, undefined when none is found. -/
def getProperty (h : Heap) (id : Handle) (name : Atom) : Value := (h.lookupProperty id name).value

/-- The property is found in the cell or one of its prototypes. -/
def hasProperty (h : Heap) (id : Handle) (name : Atom) : Bool := (h.lookupProperty id name).isFound

/-- The cell itself has the property. -/
def hasOwnProperty (h : Heap) (id : Handle) (name : Atom) : Bool :=
  match h.cell? id with
  | none => false
  | some cell =>
    (h.synthesized? cell name).isSome || (h.shapes.lookup? cell.shape name).isSome

/-- The prototype of a cell, null when there is none. -/
def prototypeOf (h : Heap) (id : Handle) : Value :=
  match h.cell? id with
  | some cell => (h.shapes.get cell.shape).prototype
  | none => .null

/-- The shape of a cell. -/
def shapeOf? (h : Heap) (id : Handle) : Option ShapeId := (h.cell? id).map (·.shape)

/-- The number of elements of an array. -/
def arrayLength? (h : Heap) (id : Handle) : Option Nat :=
  match h.cell? id with
  | some cell => cell.elements?.map (·.items.size)
  | none => none

/-- The value of a property slot, undefined when there is none. -/
def readSlot (h : Heap) (id : Handle) (offset : Nat) : Value :=
  match h.cell? id with
  | some cell => cell.slot offset
  | none => .undefined

/-- The dense element of an index that is present. -/
def denseElement? (h : Heap) (id : Handle) (index : UInt32) : Option Value :=
  match h.cell? id with
  | some cell =>
    match cell.payload with
    | .array elements =>
      match elements.items[index.toNat]? with
      | some value => if value.isHole then none else some value
      | none => none
    | _ => none
  | none => none

/-- The value of an element, or of the property the index names, which is then interned; none when
its lookup never ends. -/
def getIndex? (h : Heap) (id : Handle) (index : UInt32) : Option Value × Heap :=
  match h.denseElement? id index with
  | some value => (some value, h)
  | none =>
    let (name, h) := h.internIndex index
    (h.getProperty? id name, h)

/-- The value of an element, or of the property the index names, which is then interned. -/
def getIndex (h : Heap) (id : Handle) (index : UInt32) : Value × Heap :=
  let (value, h) := h.getIndex? id index
  (value.getD .undefined, h)

/-- Interns the names of indices one after the other. -/
def internIndices (h : Heap) : List Nat → List Atom × Heap
  | [] => ([], h)
  | index :: rest =>
    let (atom, h) := h.internIndex index.toUInt32
    let (atoms, h) := h.internIndices rest
    (atom :: atoms, h)

/-- The enumerable names of a cell: the indices of its elements, then its named properties in the
order of their addition. -/
def ownKeys (h : Heap) (id : Handle) : List Atom × Heap :=
  match h.cell? id with
  | none => ([], h)
  | some cell =>
    let indices := match cell.elements? with
      | some elements =>
        elements.items.toList.zipIdx.filterMap fun (value, index) =>
          if value.isHole then none else some index
      | none => []
    let named := (h.shapes.get cell.shape).properties.toList.filterMap fun p =>
      if p.attributes.dontEnum then none else some p.name
    let (keys, h) := h.internIndices indices
    (keys ++ named, h)

/-! ### Writing -/

/-- The cell a handle names, or a fault. -/
def requireCell (id : Handle) : HeapM Cell := do
  match (← get).cell? id with
  | some cell => return cell
  | none => throw .staleHandle

/-- Writes a slot of a cell under a shape; the bytes are counted again when the shape changes. -/
def writeSlot (h : Heap) (id : Handle) (shape : ShapeId) (offset : Nat) (value : Value) : Heap :=
  match h.shapeOf? id with
  | none => h
  | some current =>
    let h := h.modifyCell id fun cell => { cell.setSlot offset value with shape }
    if current == shape then h else h.refreshFootprint id

/-- Writes a named property, adding it with the given attributes if the cell has none of that
name. -/
def putNamed (id : Handle) (name : Atom) (value : Value) (attributes : Attributes) :
    HeapM PutOutcome := do
  let shape := (← requireCell id).shape
  match (← get).shapes.lookup? shape name with
  | some property =>
    if property.attributes.readOnly then return .readOnly
    modify (·.modifyCell id (·.setSlot property.offset value))
    return .replaced shape property.offset
  | none =>
    let (target, offset) ← modifyGet fun h =>
      let (target, offset, shapes) := h.shapes.addProperty shape name attributes
      ((target, offset), { h with shapes })
    modify fun h =>
      (h.modifyCell id fun cell => { cell.setSlot offset value with shape := target
        }).refreshFootprint id
    return .added shape target offset

/-- Removes a named property and clears its slot. -/
def removeNamed (h : Heap) (id : Handle) (shape : ShapeId) (name : Atom) : Heap :=
  let (target, removed, shapes) := h.shapes.removeProperty shape name
  { h with shapes }.modifyCell id fun cell =>
    let cell := { cell with shape := target }
    match removed with
    | some property => cell.setSlot property.offset .undefined
    | none => cell

/-- The named property that holds an index of an array outside its elements. -/
def namedIndex? (h : Heap) (id : Handle) (index : UInt32) : Option Property :=
  match h.atoms.get? (indexName index) with
  | none => none
  | some name =>
    match h.cell? id with
    | some cell => h.shapes.lookup? cell.shape name
    | none => none

/-- Fails if so many more bytes would take the heap past its limit. -/
def reserveBytes (additional : Nat) : HeapM Unit := do
  let h ← get
  if h.liveBytes + additional ≤ h.limits.maxBytes then return () else throw .outOfMemory

/-- The capacity that elements grow to when one is appended to full ones. -/
def grownCapacity (capacity : Nat) : Nat := max (capacity * 2) 4

/-- Writes an element that is present or next to be appended, after moving a plain named property of
the index out of the way. -/
def putElement (id : Handle) (position length capacity : Nat) (named : Option Property)
    (value : Value) : HeapM PutOutcome := do
  let full := position == length && length == capacity
  if full then reserveBytes ((grownCapacity capacity - capacity) * valueBytes)
  if let some property := named then
    let shape := (← requireCell id).shape
    modify (·.removeNamed id shape property.name)
  if position < length then
    modify (·.modifyCell id (Cell.mapElements fun e =>
      { e with items := e.items.setIfInBounds position value }))
  else
    let capacity := if full then grownCapacity capacity else capacity
    modify fun h => (h.modifyCell id (Cell.mapElements fun e =>
      { items := e.items.push value, capacity })).refreshFootprint id
  return .element

/-- Writes an index: among the elements of an array up to its length, as a named property elsewhere.
Strings refuse. -/
def setIndex (id : Handle) (index : UInt32) (value : Value) : HeapM PutOutcome := do
  let cell ← requireCell id
  let putByName : HeapM PutOutcome := do
    let name ← modifyGet (·.internIndex index)
    putNamed id name value .none
  match cell.payload with
  | .array elements =>
    let position := index.toNat
    let length := elements.items.size
    let capacity := elements.capacity
    if position > length then putByName
    else
      let filled := match elements.items[position]? with
        | some element => !element.isHole
        | none => false
      let h ← get
      let named := if filled then none else h.namedIndex? id index
      match named with
      | some property =>
        if property.attributes == .none then putElement id position length capacity named value
        else putNamed id property.name value .none
      | none => putElement id position length capacity none value
  | .string _ => return .readOnly
  | _ => putByName

/-- Sets the length of an array, filling with holes. -/
def setArrayLength (id : Handle) (length : Value) : HeapM Unit := do
  match length.arrayIndex? with
  | none => throw .invalidArrayLength
  | some length =>
    let length := length.toNat
    match (← get).cell? id with
    | none => return ()
    | some cell =>
      match cell.payload with
      | .array elements =>
        let current := elements.items.size
        let capacity := elements.capacity
        if length > capacity then reserveBytes ((length - capacity) * valueBytes)
        modify fun h => (h.modifyCell id (Cell.mapElements fun e =>
          if length ≤ current then { e with items := e.items.shrink length }
          else { items := e.items ++ Array.replicate (length - current) Value.hole
                 capacity := max capacity length })).refreshFootprint id
      | _ => return ()

/-- **Writes a property**: an element or the length of an array, a named property otherwise. Only
the attributes of the cell's own property count. -/
def setProperty (id : Handle) (name : Atom) (value : Value) : HeapM PutOutcome := do
  let cell ← requireCell id
  let h ← get
  match cell.kind with
  | .array =>
    match h.atoms.arrayIndex? name with
    | some index => setIndex id index value
    | none =>
      if h.atoms.name name == "length" then
        setArrayLength id value
        return .element
      else putNamed id name value .none
  | .string =>
    if (h.synthesized? cell name).isSome then return .readOnly
    else putNamed id name value .none
  | _ => putNamed id name value .none

/-- Makes a hole of the element an index name stands for. -/
def clearElement (h : Heap) (id : Handle) (name : Atom) : Heap :=
  match h.atoms.arrayIndex? name with
  | some index =>
    h.modifyCell id (Cell.mapElements fun e =>
      { e with items := e.items.setIfInBounds index.toNat .hole })
  | none => h

/-- **Defines a property** with attributes, whatever the attributes of an earlier one; a change of
attributes moves the cell to a dictionary. -/
def defineProperty (id : Handle) (name : Atom) (value : Value) (attributes : Attributes) :
    HeapM Unit := do
  let shape := (← requireCell id).shape
  modify (·.clearElement id name)
  match (← get).shapes.lookup? shape name with
  | some property =>
    let target ←
      if property.attributes == attributes then pure shape
      else modifyGet fun h =>
        let (target, shapes) := h.shapes.changeAttributes shape name attributes
        (target, { h with shapes })
    modify (·.modifyCell id fun cell =>
      { cell.setSlot property.offset value with shape := target })
  | none => discard <| putNamed id name value attributes

/-- **Deletes a property**; false when it must stay. -/
def deleteProperty (id : Handle) (name : Atom) : HeapM Bool := do
  let cell ← requireCell id
  let h ← get
  let element := match h.atoms.arrayIndex? name with
    | some index => h.denseElement? id index
    | none => none
  if element.isSome then
    modify (·.clearElement id name)
    return true
  else if (h.synthesized? cell name).isSome then return false
  else match h.shapes.lookup? cell.shape name with
    | none => return true
    | some property =>
      if property.attributes.dontDelete then return false
      modify (·.removeNamed id cell.shape name)
      return true

/-- Walks the prototype chain from a value, looking for a cell: the length of the chain, or a fault.
`fuel` is the number of links still allowed. -/
def checkChain (h : Heap) (id : Handle) : Nat → Value → Except PropertyFault Unit
  | fuel, current =>
    match current.cell? with
    | none => .ok ()
    | some link =>
      if link == id then .error .prototypeCycle
      else match fuel with
        | 0 => .error .prototypeChainTooLong
        | fuel + 1 => h.checkChain id fuel (h.prototypeOf link)

/-- **Replaces the prototype** of a cell by an object or null, keeping the chain finite and
bounded. -/
def setPrototype (id : Handle) (prototype : Value) : HeapM Unit := do
  let shape := (← requireCell id).shape
  let h ← get
  if !prototype.isNull then
    match h.cellOf? prototype with
    | none => throw .invalidPrototype
    | some cell => if !cell.kind.isObject then throw .invalidPrototype
  match h.checkChain id maxPrototypeChain prototype with
  | .error fault => throw fault
  | .ok () =>
    modify fun h =>
      let (target, shapes) := h.shapes.changePrototype shape prototype
      { h with shapes }.modifyCell id fun cell => { cell with shape := target }

end Heap

end ScriptMachine
