import ScriptMachine.Program.Block

/-! # Listings of code blocks

A readable listing: a head line, one line per instruction, one per handler, then the nested
functions two blanks further in. -/

namespace ScriptMachine.Block

/-- A number right-aligned to four places. -/
def padded (n : Nat) : String :=
  let digits := toString n
  "".pushn ' ' (4 - digits.length) ++ digits

/-- The lines of a block itself. -/
def ownLines (b : Block) (pad : String) : List String :=
  [pad ++ "function " ++ b.title ++ " (params " ++ toString b.paramCount.toNat ++ ", vars "
    ++ toString b.varCount.toNat ++ ", registers " ++ toString b.registerCount.toNat ++ ")"]
  ++ b.instructions.toList.zipIdx.map (fun (instruction, pc) =>
      pad ++ "  " ++ padded pc ++ ": " ++ instruction.opcode.listingText)
  ++ b.handlers.map fun h =>
      pad ++ "  handler [" ++ toString h.start.toNat ++ ", " ++ toString h.stop.toNat ++ ") -> "
        ++ toString h.target.toNat ++ " depth " ++ toString h.scopeDepth.toNat

mutual

/-- The lines of a block and its nested functions. -/
def linesAt (level : Nat) : Block → List String
  | ⟨name, instructions, constants, identifiers, functions, scopeLayouts, handlers, variableIds,
      paramCount, varCount, registerCount, needsActivation, propertyCacheCount,
      callCacheCount⟩ =>
    ownLines ⟨name, instructions, constants, identifiers, functions, scopeLayouts, handlers,
      variableIds, paramCount, varCount, registerCount, needsActivation, propertyCacheCount,
      callCacheCount⟩ ("".pushn ' ' (2 * level)) ++ linesOfAll (level + 1) functions

/-- The lines of a list of blocks. -/
def linesOfAll (level : Nat) : List Block → List String
  | [] => []
  | b :: bs => b.linesAt level ++ linesOfAll level bs

end

/-- **The listing** of a block and its nested functions. -/
def listing (b : Block) : String := String.join ((b.linesAt 0).map (· ++ "\n"))

end ScriptMachine.Block
