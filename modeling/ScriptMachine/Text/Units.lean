/-! # Texts in 16-bit units

Scripts count, index and order texts by 16-bit units: a character below `0x10000` is one unit, any
other character is a pair of surrogates. -/

namespace ScriptMachine

/-- The units of a character. -/
def charUnits (c : Char) : List UInt16 :=
  if c.toNat < 0x10000 then [c.toNat.toUInt16]
  else
    let rest := c.toNat - 0x10000
    [(0xD800 + rest / 0x400).toUInt16, (0xDC00 + rest % 0x400).toUInt16]

/-- The units of a text. -/
def textUnits (s : String) : List UInt16 := s.toList.flatMap charUnits

/-- The number of units of a text. -/
def unitCount (s : String) : Nat :=
  s.foldl (fun n c => if c.toNat < 0x10000 then n + 1 else n + 2) 0

/-- The unit at a position. -/
def unitAt? (s : String) (position : Nat) : Option UInt16 := (textUnits s)[position]?

/-- A unit on its own as a text; half of a pair becomes the replacement character. -/
def unitText (unit : UInt16) : String :=
  let code := unit.toNat
  String.singleton (if 0xD800 ≤ code && code < 0xE000 then Char.ofNat 0xFFFD else Char.ofNat code)

/-- The order of two lists of units: by the first difference, a list before its continuations. -/
def compareUnits : List UInt16 → List UInt16 → Ordering
  | [], [] => .eq
  | [], _ :: _ => .lt
  | _ :: _, [] => .gt
  | a :: as, b :: bs => if a < b then .lt else if b < a then .gt else compareUnits as bs

/-- The order of two texts. -/
def compareTexts (s t : String) : Ordering := compareUnits (textUnits s) (textUnits t)

end ScriptMachine
