import ScriptMachine.Shape.Basic

/-! # The table of shapes

The table owns all shapes and the edges between them: the interned empty shape of each kind and
prototype, the edge of each addition, and the edge of each change of prototype. `ShapeTable.sweep`
gives back the shapes that no surviving cell needs; their ids are used again for new shapes. -/

namespace ScriptMachine

/-- After this many additions a cell moves to a dictionary. -/
def maxTransitionLength : Nat := 64

/-- All shapes and the edges between them. -/
structure ShapeTable where
  /-- The shapes, reclaimed ones included. -/
  shapes : Array Shape := #[]
  /-- The empty shape of a kind and prototype. -/
  roots : Std.HashMap (CellKind × Value) ShapeId := {}
  /-- Edges of additions. -/
  additions : Std.HashMap (ShapeId × Atom × Attributes) ShapeId := {}
  /-- Edges of changes of prototype. -/
  prototypeChanges : Std.HashMap (ShapeId × Value) ShapeId := {}
  /-- Reclaimed ids, the latest first. -/
  free : List ShapeId := []
deriving Inhabited

namespace ShapeTable

/-! ### Lookups -/

/-- The shape of an id. -/
def get (t : ShapeTable) (id : ShapeId) : Shape := t.shapes.getD id.index default

/-- The number of shapes, reclaimed ones included. -/
def size (t : ShapeTable) : Nat := t.shapes.size

/-- The number of shapes that are not reclaimed. -/
def liveCount (t : ShapeTable) : Nat := t.shapes.size - t.free.length

/-- The id names a shape that is not reclaimed. -/
def isLive (t : ShapeTable) (id : ShapeId) : Bool :=
  match t.shapes[id.index]? with
  | some shape => !shape.reclaimed
  | none => false

/-- The property of a name in a shape. -/
def lookup? (t : ShapeTable) (id : ShapeId) (name : Atom) : Option Property :=
  (t.get id).lookup? name

/-! ### Transitions -/

/-- Stores a new shape under a reclaimed id, or under a new one. -/
def push (t : ShapeTable) (shape : Shape) : ShapeId × ShapeTable :=
  match t.free with
  | id :: rest => (id, { t with shapes := t.shapes.setIfInBounds id.index shape, free := rest })
  | [] => (⟨t.shapes.size⟩, { t with shapes := t.shapes.push shape })

/-- Changes a shape in place. -/
def modify (t : ShapeTable) (id : ShapeId) (f : Shape → Shape) : ShapeTable :=
  { t with shapes := t.shapes.modify id.index f }

/-- The empty shape of a kind and prototype. -/
def root (t : ShapeTable) (kind : CellKind) (prototype : Value) : ShapeId × ShapeTable :=
  match t.roots[(kind, prototype)]? with
  | some id => (id, t)
  | none =>
    let (id, t) := t.push { kind, prototype }
    (id, { t with roots := t.roots.insert (kind, prototype) id })

/-- A copy of a shape that belongs to one cell. -/
def toDictionary (t : ShapeTable) (source : ShapeId) : ShapeId × ShapeTable :=
  t.push { t.get source with previous := some source, dictionary := true }

/-- The shape itself if it is a dictionary, a dictionary copy otherwise. -/
def ensureDictionary (t : ShapeTable) (source : ShapeId) : ShapeId × ShapeTable :=
  if (t.get source).dictionary then (source, t) else t.toDictionary source

/-- Adds a property to a dictionary in place. -/
def insertInPlace (t : ShapeTable) (id : ShapeId) (name : Atom) (attributes : Attributes) :
    ShapeId × Nat × ShapeTable :=
  let offset := ((t.get id).insert name attributes).1
  (id, offset, t.modify id fun shape => (shape.insert name attributes).2)

/-- The shape reached by adding a property, and the offset of the property. Equal additions to a
shared shape lead to the same shape. -/
def addProperty (t : ShapeTable) (source : ShapeId) (name : Atom) (attributes : Attributes) :
    ShapeId × Nat × ShapeTable :=
  let shape := t.get source
  if shape.dictionary then t.insertInPlace source name attributes
  else match t.additions[(source, name, attributes)]? with
    | some target =>
      let offset := match t.lookup? target name with
        | some property => property.offset
        | none => 0
      (target, offset, t)
    | none =>
      if shape.transitionCount ≥ maxTransitionLength then
        let (id, t) := t.toDictionary source
        t.insertInPlace id name attributes
      else
        let (offset, next) := shape.insert name attributes
        let (id, t) := t.push
          { next with previous := some source, transitionCount := shape.transitionCount + 1 }
        (id, offset, { t with additions := t.additions.insert (source, name, attributes) id })

/-- The dictionary reached by removing a property, and the removed property. -/
def removeProperty (t : ShapeTable) (source : ShapeId) (name : Atom) :
    ShapeId × Option Property × ShapeTable :=
  let (id, t) := t.ensureDictionary source
  (id, t.lookup? id name, t.modify id (·.remove name))

/-- The shape with the same layout and another prototype. -/
def changePrototype (t : ShapeTable) (source : ShapeId) (prototype : Value) :
    ShapeId × ShapeTable :=
  let shape := t.get source
  if shape.dictionary then (source, t.modify source fun s => { s with prototype })
  else match t.prototypeChanges[(source, prototype)]? with
    | some target => (target, t)
    | none =>
      let (id, t) := t.push { shape with previous := some source, prototype }
      (id, { t with prototypeChanges := t.prototypeChanges.insert (source, prototype) id })

/-- The dictionary in which a property has other attributes. -/
def changeAttributes (t : ShapeTable) (source : ShapeId) (name : Atom) (attributes : Attributes) :
    ShapeId × ShapeTable :=
  let (id, t) := t.ensureDictionary source
  (id, t.modify id (·.setAttributes name attributes))

/-! ### Reclaiming -/

/-- Marks a shape and the ones it was derived from, up to the first marked one. -/
def keepChain (t : ShapeTable) : Nat → Array Bool → Option ShapeId → Array Bool
  | 0, keep, _ => keep
  | _, keep, none => keep
  | fuel + 1, keep, some id =>
    if keep.getD id.index true then keep
    else t.keepChain fuel (keep.setIfInBounds id.index true) (t.get id).previous

/-- Marks a shape that is needed. -/
def keepOne (keep : Array Bool) (id : ShapeId) : Array Bool := keep.setIfInBounds id.index true

/-- The shapes that a sweep keeps: those in use, the roots of live prototypes, and all shapes these
were derived from. -/
def kept (t : ShapeTable) (inUse : List ShapeId) (alive : Value → Bool) : Array Bool :=
  let keep := Array.replicate t.shapes.size false
  let keep := inUse.foldl keepOne keep
  let keep := t.roots.fold (fun keep key id => if alive key.2 then keepOne keep id else keep) keep
  (List.range t.shapes.size).foldl
    (fun keep index =>
      if keep.getD index false then
        t.keepChain t.shapes.size keep (t.get ⟨index⟩).previous
      else keep)
    keep

/-- Gives back one shape unless it is kept or has been given back before. -/
def reclaimOne (keep : Array Bool) (t : ShapeTable) (index : Nat) : ShapeTable :=
  if keep.getD index false || (t.get ⟨index⟩).reclaimed then t
  else { t.modify ⟨index⟩ Shape.reclaim with free := ⟨index⟩ :: t.free }

/-- **Gives back** every shape that is not kept, forgets the edges that mention one of them or a
dead prototype, and returns the number of shapes given back. -/
def sweep (t : ShapeTable) (inUse : List ShapeId) (alive : Value → Bool) : Nat × ShapeTable :=
  let keep := t.kept inUse alive
  let before := t.free.length
  let t := (List.range t.shapes.size).foldl (reclaimOne keep) t
  let isKept (id : ShapeId) : Bool := keep.getD id.index false
  (t.free.length - before,
   { t with
     roots := t.roots.filter fun key id => isKept id && alive key.2
     additions := t.additions.filter fun key id => isKept key.1 && isKept id
     prototypeChanges := t.prototypeChanges.filter fun key id =>
       isKept key.1 && isKept id && alive key.2 })

end ShapeTable

end ScriptMachine
