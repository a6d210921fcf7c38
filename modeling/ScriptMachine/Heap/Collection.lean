import ScriptMachine.Heap.Basic

/-! # Collection

A collection marks what is reachable from its roots and frees the rest. Marking is a worklist over
gray cells: a white cell that is met turns gray, a gray cell that is taken from the list turns black
and its references are met. A freed slot gets a new generation; a slot whose generation cannot grow
any more is retired. Shapes that no survivor needs are given back too. -/

namespace ScriptMachine

/-- The outcome of a collection. -/
structure CollectionSummary where
  /-- Cells that survived. -/
  liveCells : Nat
  /-- Bytes charged for the survivors. -/
  liveBytes : Nat
  /-- Cells freed. -/
  freedCells : Nat
  /-- Bytes freed. -/
  freedBytes : Nat
  /-- Shapes given back. -/
  freedShapes : Nat
deriving DecidableEq, Repr, Inhabited

/-- An emptied slot. Its generation grows, up to the greatest one. -/
def Slot.freed (slot : Slot) : Slot :=
  { slot with cell := none, bytes := 0
              generation := if slot.generation < 0xFFFF then slot.generation + 1
                else slot.generation }

namespace Heap

/-! ### Marking -/

/-- Changes the color of a slot. -/
def setColor (h : Heap) (index : UInt32) (color : MarkColor) : Heap :=
  { h with slots := h.slots.modify index.toNat fun slot => { slot with color } }

/-- The handle names a white cell. -/
def isWhite (h : Heap) (id : Handle) : Bool :=
  match h.slots[id.index.toNat]? with
  | some slot => slot.generation == id.generation && slot.cell.isSome && slot.color == .white
  | none => false

/-- Meets a value: a white cell turns gray and joins the worklist. -/
def shade (state : Heap × List Handle) (v : Value) : Heap × List Handle :=
  match v.cell? with
  | some id =>
    let (h, worklist) := state
    if h.isWhite id then (h.setColor id.index .gray, id :: worklist) else (h, worklist)
  | none => state

/-- The values a cell refers to: its prototype, its properties and its payload. -/
def references (h : Heap) (c : Cell) : List Value :=
  (h.shapes.get c.shape).prototype :: c.slots.toList ++ c.payload.references

/-- Follows the references of gray cells until none is left; every cell is taken once. -/
def drain : Nat → Heap × List Handle → Heap
  | 0, (h, _) => h
  | _, (h, []) => h
  | fuel + 1, (h, id :: worklist) =>
    let children := match h.cell? id with
      | some cell => h.references cell
      | none => []
    drain fuel (children.foldl shade (h.setColor id.index .black, worklist))

/-- Marks everything reachable from the given values. -/
def mark (h : Heap) (values : List Value) : Heap :=
  let fuel := h.slots.size
  drain fuel (values.foldl shade (h, []))

/-! ### Sweeping -/

/-- The state of a sweep. -/
structure Sweep where
  /-- The heap so far. -/
  heap : Heap
  /-- Cells freed so far. -/
  freedCells : Nat := 0
  /-- Bytes freed so far. -/
  freedBytes : Nat := 0
  /-- The shapes of the survivors so far. -/
  inUse : List ShapeId := []

/-- Sweeps one slot: a marked cell turns white again, an unmarked one is freed. -/
def sweepSlot (s : Sweep) (index : Nat) : Sweep :=
  match s.heap.slots[index]? with
  | none => s
  | some slot =>
    match slot.cell with
    | none => s
    | some cell =>
      if slot.color != .white then
        { s with heap := { s.heap with slots := s.heap.slots.modify index fun slot =>
                             { slot with color := .white } }
                 inUse := cell.shape :: s.inUse }
      else
        { s with
          heap := { s.heap with
            slots := s.heap.slots.modify index Slot.freed
            freeList := if slot.generation < 0xFFFF then s.heap.freeList.push index.toUInt32
              else s.heap.freeList }
          freedCells := s.freedCells + 1
          freedBytes := s.freedBytes + slot.bytes }

/-- A value that may stay a prototype: anything but a handle whose cell is gone. -/
def prototypeAlive (h : Heap) (v : Value) : Bool :=
  match v.cell? with
  | some id => h.isLive id
  | none => true

/-- Sweeps all slots and then the shapes. -/
def sweep (h : Heap) : CollectionSummary × Heap :=
  let s := (List.range h.slots.size).foldl sweepSlot { heap := h }
  let liveCells := s.heap.liveCells - s.freedCells
  let liveBytes := s.heap.liveBytes - s.freedBytes
  let (freedShapes, shapes) := s.heap.shapes.sweep s.inUse s.heap.prototypeAlive
  ({ liveCells, liveBytes, freedCells := s.freedCells, freedBytes := s.freedBytes, freedShapes },
   { s.heap with liveCells, liveBytes, shapes })

/-- All values a collection starts from. -/
def allRoots (h : Heap) (values : List Value) (words : List UInt64) : List Value :=
  values ++ words.map Value.mk ++ h.roots.toList.filterMap id ++ h.temporaries.toList

/-- **A collection** from precise roots and raw words, of which those that happen to encode the
handle of a cell keep it alive. -/
def collect (h : Heap) (values : List Value) (words : List UInt64) : CollectionSummary × Heap :=
  let roots := h.allRoots values words
  let (summary, h) := (h.mark roots).sweep
  (summary,
   { h with
     stats := { h.stats with
       collections := h.stats.collections + 1
       cellsFreed := h.stats.cellsFreed + summary.freedCells
       bytesFreed := h.stats.bytesFreed + summary.freedBytes }
     nextCollection := max h.limits.threshold (h.liveBytes * 2) })

end Heap

end ScriptMachine
