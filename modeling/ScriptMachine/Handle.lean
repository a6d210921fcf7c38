/-! # Cell handles

A handle names a cell of the heap by the index of its slot and the generation the slot had when the
cell was allocated. A slot that is freed gets a new generation, so an old handle is told apart from
the handle of a newer cell in the same slot. A handle packs into 48 bits. -/

namespace ScriptMachine

/-- A generation-checked reference to a cell of the heap. -/
structure Handle where
  /-- The slot. -/
  index : UInt32
  /-- The generation of the slot when the handle was issued. -/
  generation : UInt16
deriving DecidableEq, Hashable, Repr, Inhabited

namespace Handle

/-- The handle in the low 48 bits of a word: the generation above the index. -/
def toPayload (h : Handle) : UInt64 := (h.generation.toUInt64 <<< 32) ||| h.index.toUInt64

/-- The handle in the low 48 bits of a word. -/
def ofPayload (payload : UInt64) : Handle := ⟨payload.toUInt32, (payload >>> 32).toUInt16⟩

/-- The handle as people read it. -/
def text (h : Handle) : String :=
  "#" ++ toString h.index.toNat ++ "." ++ toString h.generation.toNat

end Handle

end ScriptMachine
