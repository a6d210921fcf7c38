import ScriptMachine.Handle
import ScriptMachine.Number.Text

/-! # Values

Every value is one 64-bit word. A number is its interchange word, with NaNs brought to one word; the
words of negative NaNs, which no number then uses, carry the other types under a sixteen-bit tag:

| words                        | value                                   |
|------------------------------|-----------------------------------------|
| below `0xFFF9 << 48`         | numbers                                 |
| tag `0xFFF9`                 | undefined                               |
| tag `0xFFFA`                 | null                                    |
| tag `0xFFFB`                 | a boolean in the last bit               |
| tag `0xFFFC`                 | a cell handle in the low 48 bits        |
| tag `0xFFFD`                 | the hole of arrays, never seen by scripts |
| tags `0xFFFE` and `0xFFFF`   | read as a NaN                           |

`Value.decode` unpacks a word; equality of values is equality of words. -/

namespace ScriptMachine

/-- A value of the language, as its word. -/
structure Value where
  /-- The encoded word. -/
  word : UInt64
deriving DecidableEq, Hashable, Repr

/-- A value unpacked. -/
inductive Decoded where
  /-- A number. -/
  | number (n : Binary64)
  /-- True or false. -/
  | boolean (b : Bool)
  /-- The null value. -/
  | null
  /-- The undefined value. -/
  | undefined
  /-- A reference to a cell of the heap. -/
  | cell (h : Handle)
  /-- The hole of an array. -/
  | hole
deriving DecidableEq, Repr

namespace Value

/-! ### Tags -/

/-- The bits of a word that hold its tag. -/
def tagMask : UInt64 := 0xFFFF000000000000

/-- The bits of a word below its tag. -/
def payloadMask : UInt64 := 0x0000FFFFFFFFFFFF

/-- The tag of undefined, the least tag in use. -/
def undefinedTag : UInt64 := 0xFFF9000000000000

/-- The tag of null. -/
def nullTag : UInt64 := 0xFFFA000000000000

/-- The tag of booleans. -/
def booleanTag : UInt64 := 0xFFFB000000000000

/-- The tag of cell references. -/
def cellTag : UInt64 := 0xFFFC000000000000

/-- The tag of the hole, the greatest tag in use. -/
def holeTag : UInt64 := 0xFFFD000000000000

/-- The least word above every tag in use. -/
def tagsEnd : UInt64 := 0xFFFE000000000000

/-! ### Building values -/

/-- A number; every NaN has the same word. -/
def number (n : Binary64) : Value := ⟨if n.isNaN then Binary64.nan.bits else n.bits⟩

/-- A boolean. -/
def boolean (b : Bool) : Value := ⟨booleanTag ||| (if b then 1 else 0)⟩

/-- The undefined value. -/
def undefined : Value := ⟨undefinedTag⟩

/-- The null value. -/
def null : Value := ⟨nullTag⟩

/-- The hole of an array. -/
def hole : Value := ⟨holeTag⟩

/-- A reference to a cell. -/
def cell (h : Handle) : Value := ⟨cellTag ||| (h.toPayload &&& payloadMask)⟩

/-- A natural number as a value. -/
def ofNat (n : Nat) : Value := number (Binary64.ofNat n)

instance : Inhabited Value := ⟨undefined⟩

/-! ### Reading values -/

/-- Unpacks a word. -/
def decode (v : Value) : Decoded :=
  if v.word < undefinedTag then .number ⟨v.word⟩
  else
    let tag := v.word &&& tagMask
    if tag == undefinedTag then .undefined
    else if tag == nullTag then .null
    else if tag == booleanTag then .boolean (v.word &&& 1 == 1)
    else if tag == cellTag then .cell (Handle.ofPayload (v.word &&& payloadMask))
    else if tag == holeTag then .hole
    else .number Binary64.nan

/-- The value is a number. -/
def isNumber (v : Value) : Bool := v.word < undefinedTag || v.word ≥ tagsEnd

/-- The value is true or false. -/
def isBoolean (v : Value) : Bool := v.word &&& tagMask == booleanTag

/-- The word is that of undefined. -/
def isUndefined (v : Value) : Bool := v.word == undefinedTag

/-- The word is that of null. -/
def isNull (v : Value) : Bool := v.word == nullTag

/-- The word is that of undefined or null. -/
def isNullish (v : Value) : Bool := v.isUndefined || v.isNull

/-- The word is that of the hole. -/
def isHole (v : Value) : Bool := v.word == holeTag

/-- The value refers to a cell. -/
def isCell (v : Value) : Bool := v.word &&& tagMask == cellTag

/-- The number, if the value is one. -/
def number? (v : Value) : Option Binary64 :=
  match v.decode with
  | .number n => some n
  | _ => none

/-- The boolean, if the value is one. -/
def boolean? (v : Value) : Option Bool :=
  if v.isBoolean then some (v.word &&& 1 == 1) else none

/-- The handle, if the value refers to a cell. -/
def cell? (v : Value) : Option Handle :=
  if v.isCell then some (Handle.ofPayload (v.word &&& payloadMask)) else none

/-- The value as a signed 32-bit integer, if it is exactly one: converting there and back gives the
number again. Negative zero is none. -/
def int32? (v : Value) : Option Int32 :=
  match v.number? with
  | none => none
  | some n =>
    let i := n.clampInt32
    if (Binary64.ofInt32 i).eq n && !(n.eq .zero && n.negative) then some i else none

/-- The value as an array index, if it is an integer from `0` to `2 ^ 32 - 2`. -/
def arrayIndex? (v : Value) : Option UInt32 :=
  match v.number? with
  | none => none
  | some n =>
    if Binary64.zero.le n && n.lt (.ofUInt32 0xFFFFFFFF) && n.fract.eq .zero then
      some n.clampUInt32
    else none

/-- Truth of a value, every cell counting as true. The empty string, which only a heap can tell, is
treated where a heap is at hand. -/
def isTruthy (v : Value) : Bool :=
  match v.decode with
  | .number n => !n.isZero && !n.isNaN
  | .boolean b => b
  | .null | .undefined | .hole => false
  | .cell _ => true

/-! ### Text -/

/-- A value without a heap: a cell shows its handle, a hole reads as undefined. -/
def text (v : Value) : String :=
  match v.decode with
  | .number n => n.text
  | .boolean b => if b then "true" else "false"
  | .null => "null"
  | .undefined | .hole => "undefined"
  | .cell h => "[cell " ++ h.text ++ "]"

/-- A value in a listing, with the name of its type. -/
def listingText (v : Value) : String :=
  match v.decode with
  | .number n => "Number(" ++ n.listingText ++ ")"
  | .boolean b => "Boolean(" ++ (if b then "true" else "false") ++ ")"
  | .null => "Null"
  | .undefined => "Undefined"
  | .cell h => "Cell(CellId \x7b index: " ++ toString h.index.toNat ++ ", generation: "
      ++ toString h.generation.toNat ++ " \x7d)"
  | .hole => "Empty"

end Value

end ScriptMachine
