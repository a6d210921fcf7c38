import ScriptMachine.Failure
import ScriptMachine.Heap.Cell
import ScriptMachine.Shape.Table

/-! # The heap

Cells live in slots. A freed slot goes on a free list with its generation raised, so that handles to
its old cell stop resolving. The heap owns the table of shapes and the interned names, counts the
bytes of its cells against a limit, and keeps two sets of roots: persistent ones, registered by id,
and temporaries, which protect what is still under construction. -/

namespace ScriptMachine

/-- The budget of a heap. -/
structure HeapLimits where
  /-- The live bytes at which the first collection is due. -/
  threshold : Nat := 1024 * 1024
  /-- The live bytes that are never exceeded. -/
  maxBytes : Nat := 256 * 1024 * 1024
deriving DecidableEq, Repr, Inhabited

/-- The colors of marking. -/
inductive MarkColor where
  /-- Not reached. -/
  | white
  /-- Reached, its references not yet followed. -/
  | gray
  /-- Reached, its references followed. -/
  | black
deriving DecidableEq, Repr, Inhabited

/-- A slot of the heap. -/
structure Slot where
  /-- The number of cells the slot has lost. -/
  generation : UInt16 := 0
  /-- The color during a collection, white otherwise. -/
  color : MarkColor := .white
  /-- The bytes charged for the cell. -/
  bytes : Nat := 0
  /-- The cell. -/
  cell : Option Cell := none
deriving DecidableEq, Repr, Inhabited

/-- A registered persistent root. -/
structure RootId where
  /-- The position in the list of roots, which has fewer than `2 ^ 32`. -/
  index : Nat
deriving DecidableEq, Repr, Inhabited

/-- Totals over all collections. -/
structure HeapStats where
  /-- Collections run. -/
  collections : Nat := 0
  /-- Cells allocated. -/
  cellsAllocated : Nat := 0
  /-- Cells given back. -/
  cellsFreed : Nat := 0
  /-- Bytes given back. -/
  bytesFreed : Nat := 0
deriving DecidableEq, Repr, Inhabited

/-- The managed heap. -/
structure Heap where
  /-- The slots. -/
  slots : Array Slot := #[]
  /-- The empty slots that may be used again, the next one last. -/
  freeList : Array UInt32 := #[]
  /-- The shapes. -/
  shapes : ShapeTable := {}
  /-- The interned names. -/
  atoms : AtomTable := {}
  /-- The budget. -/
  limits : HeapLimits := {}
  /-- The live bytes at which the next collection is due. -/
  nextCollection : Nat := 0
  /-- The bytes charged for all cells. -/
  liveBytes : Nat := 0
  /-- The number of cells. -/
  liveCells : Nat := 0
  /-- Persistent roots; removed ones are `none`. -/
  roots : Array (Option Value) := #[]
  /-- Removed roots whose ids may be used again, the latest first. -/
  freeRoots : List Nat := []
  /-- Values protected for the time being. -/
  temporaries : Array Value := #[]
  /-- Totals. -/
  stats : HeapStats := {}
deriving Inhabited

namespace Heap

/-- An empty heap. -/
def new (limits : HeapLimits) : Heap := { limits, nextCollection := limits.threshold }

/-! ### Cells -/

/-- The cell a handle names. -/
def cell? (h : Heap) (id : Handle) : Option Cell :=
  match h.slots[id.index.toNat]? with
  | some slot => if slot.generation == id.generation then slot.cell else none
  | none => none

/-- The handle names a cell. -/
def isLive (h : Heap) (id : Handle) : Bool := (h.cell? id).isSome

/-- The cell a value refers to. -/
def cellOf? (h : Heap) (v : Value) : Option Cell :=
  match v.cell? with
  | some id => h.cell? id
  | none => none

/-- Changes the cell a handle names; a stale handle changes nothing. -/
def modifyCell (h : Heap) (id : Handle) (f : Cell → Cell) : Heap :=
  { h with slots := h.slots.modify id.index.toNat fun slot =>
      if slot.generation == id.generation then { slot with cell := slot.cell.map f } else slot }

/-- Counts the bytes of a cell again after its storage changed. -/
def refreshFootprint (h : Heap) (id : Handle) : Heap :=
  match h.slots[id.index.toNat]? with
  | some slot =>
    if slot.generation == id.generation then
      match slot.cell with
      | some cell =>
        let bytes := cell.footprint
        { h with liveBytes := h.liveBytes - slot.bytes + bytes
                 slots := h.slots.modify id.index.toNat fun slot => { slot with bytes } }
      | none => h
    else h
  | none => h

/-- Interns a name. -/
def intern (h : Heap) (name : String) : Atom × Heap :=
  let (atom, atoms) := h.atoms.intern name
  (atom, { h with atoms })

/-- Interns the name of an array index. -/
def internIndex (h : Heap) (index : UInt32) : Atom × Heap := h.intern (indexName index)

/-- The empty shape of a kind and prototype. -/
def rootShape (h : Heap) (kind : CellKind) (prototype : Value) : ShapeId × Heap :=
  let (id, shapes) := h.shapes.root kind prototype
  (id, { h with shapes })

/-- Puts a cell into a free slot, or into a new one. -/
def place (h : Heap) (cell : Cell) (bytes : Nat) : Handle × Heap :=
  match h.freeList.back? with
  | some index =>
    let generation := match h.slots[index.toNat]? with
      | some slot => slot.generation
      | none => 0
    (⟨index, generation⟩,
     { h with freeList := h.freeList.pop
              slots := h.slots.modify index.toNat fun slot =>
                { slot with cell := some cell, bytes, color := .white } })
  | none =>
    (⟨h.slots.size.toUInt32, 0⟩,
     { h with slots := h.slots.push { bytes, cell := some cell } })

/-- Allocates a cell with undefined properties and protects it as a temporary; fails, changing
nothing, if the heap would pass its limit. -/
def allocate (h : Heap) (shape : ShapeId) (payload : Payload) : Except Failure Handle × Heap :=
  let cell := Cell.new shape (h.shapes.get shape).slotCount payload
  let bytes := cell.footprint
  if h.liveBytes + bytes > h.limits.maxBytes then (.error (.outOfMemory h.limits.maxBytes), h)
  else
    let (id, h) := h.place cell bytes
    (.ok id,
     { h with liveBytes := h.liveBytes + bytes
              liveCells := h.liveCells + 1
              stats := { h.stats with cellsAllocated := h.stats.cellsAllocated + 1 }
              temporaries := h.temporaries.push (.cell id) })

/-- A collection is due. -/
def shouldCollect (h : Heap) : Bool := h.liveBytes ≥ h.nextCollection

/-- The handles of all cells, by slot. -/
def liveHandles (h : Heap) : List Handle :=
  h.slots.toList.zipIdx.filterMap fun (slot, index) =>
    slot.cell.map fun _ => ⟨index.toUInt32, slot.generation⟩

/-! ### Roots -/

/-- Registers a persistent root. -/
def addRoot (h : Heap) (value : Value) : RootId × Heap :=
  match h.freeRoots with
  | index :: rest =>
    (⟨index⟩, { h with roots := h.roots.setIfInBounds index (some value), freeRoots := rest })
  | [] => (⟨h.roots.size⟩, { h with roots := h.roots.push (some value) })

/-- Replaces the value of a persistent root. -/
def setRoot (h : Heap) (root : RootId) (value : Value) : Heap :=
  { h with roots := h.roots.setIfInBounds root.index (some value) }

/-- Removes a persistent root; removing it again changes nothing. -/
def removeRoot (h : Heap) (root : RootId) : Heap :=
  match h.roots[root.index]? with
  | some (some _) =>
    { h with roots := h.roots.setIfInBounds root.index none
             freeRoots := root.index :: h.freeRoots }
  | _ => h

/-- The number of persistent roots. -/
def rootCount (h : Heap) : Nat := (h.roots.filter Option.isSome).size

/-- Protects a cell until temporaries are released. -/
def pushTemporary (h : Heap) (value : Value) : Heap :=
  if value.isCell then { h with temporaries := h.temporaries.push value } else h

/-- Releases the temporaries after the first `mark`. -/
def truncateTemporaries (h : Heap) (mark : Nat) : Heap :=
  if h.temporaries.size ≤ mark then h else { h with temporaries := h.temporaries.shrink mark }

/-- Releases all temporaries. -/
def clearTemporaries (h : Heap) : Heap := { h with temporaries := #[] }

end Heap

end ScriptMachine
