import ScriptMachine.Failure
import ScriptMachine.Heap.Cell

/-! # The words and frames of stub calls

Compiled code and host functions get their arguments through stub frames. An argument is one word: a
value, or an integer boxed as a number. A frame has six inline words and spills the rest. What the
routine of a frame raised is parked in the frame. The words of all frames on the stack are offered to
the collector as possible references. -/

namespace ScriptMachine

/-- The number of inline words of a frame. -/
def stubInlineWords : Nat := 6

/-- The site operand that stands for no cache. -/
def noSite : UInt32 := 0xFFFFFFFF

/-- One word passed to a stub. -/
structure StubWord where
  /-- The word. -/
  bits : UInt64
deriving DecidableEq, Repr, Hashable

namespace StubWord

/-- A value. -/
def ofValue (v : Value) : StubWord := ⟨v.word⟩

/-- The word as a value. -/
def value (w : StubWord) : Value := ⟨w.bits⟩

/-- A signed integer, boxed as a number. -/
def ofInt32 (n : Int32) : StubWord := ofValue (.number (Binary64.ofInt32 n))

/-- An index, boxed through its two's complement. -/
def ofIndex (index : UInt32) : StubWord := ofInt32 index.toInt32

/-- An interned name. -/
def ofAtom (atom : Atom) : StubWord := ofIndex atom.index

/-- The word as a signed integer, zero when it is none. -/
def int32 (w : StubWord) : Int32 := w.value.int32?.getD 0

/-- The word as an index. -/
def index (w : StubWord) : UInt32 := w.int32.toUInt32

/-- The word as an interned name. -/
def atom (w : StubWord) : Atom := ⟨w.index⟩

/-- The word that stands for a missing argument. -/
def missing : StubWord := ofValue .undefined

instance : Inhabited StubWord := ⟨missing⟩

/-- The hexadecimal digits of a word, sixteen of them. -/
def hex (w : UInt64) : String :=
  let digits := Nat.toDigits 16 w.toNat
  String.ofList (List.replicate (16 - digits.length) '0' ++ digits)

/-- The word in a listing. -/
def listingText (w : StubWord) : String := "StubArg(0x" ++ hex w.bits ++ ")"

end StubWord

/-- The frame of a stub call. -/
structure StubFrame where
  /-- The inline words, missing ones included. -/
  inlineWords : Array StubWord
  /-- The words past the inline ones. -/
  spill : Array StubWord
  /-- The number of argument words, of which there are fewer than `2 ^ 32`. -/
  argc : Nat
  /-- The global object. -/
  globals : Value
  /-- What the routine threw; the hole while it threw nothing. -/
  exception : Value := .hole
  /-- The failure of the routine that no handler sees. -/
  fatal : Option Failure := none
  /-- The code of the calling frame. -/
  code : Option CodeId
deriving Repr, Inhabited

namespace StubFrame

/-- The empty frame. -/
def empty (globals : Value) (code : Option CodeId) : StubFrame :=
  { inlineWords := Array.replicate stubInlineWords .missing
    spill := #[]
    argc := 0
    globals
    code }

/-- Adds an argument word. -/
def push (f : StubFrame) (w : StubWord) : StubFrame :=
  if f.argc < stubInlineWords then
    { f with inlineWords := f.inlineWords.setIfInBounds f.argc w, argc := f.argc + 1 }
  else { f with spill := f.spill.push w, argc := f.argc + 1 }

/-- The frame of a list of argument words. -/
def ofWords (globals : Value) (code : Option CodeId) (words : List StubWord) : StubFrame :=
  words.foldl push (empty globals code)

/-- An argument word, the missing one past the end. -/
def arg (f : StubFrame) (index : Nat) : StubWord :=
  if index < stubInlineWords then f.inlineWords.getD index .missing
  else f.spill.getD (index - stubInlineWords) .missing

/-- The argument values from a position on. -/
def valuesFrom (f : StubFrame) (start : Nat) : List Value :=
  (List.range (f.argc - start)).map fun i => (f.arg (start + i)).value

/-- The cache site an argument names, in the calling code. -/
def site (f : StubFrame) (index : Nat) : Option (CodeId × UInt32) :=
  let site := (f.arg index).index
  match f.code with
  | some code => if site = noSite then none else some (code, site)
  | none => none

/-- The words that may be references. -/
def words (f : StubFrame) : List UInt64 :=
  ((f.inlineWords.toList.take (min f.argc stubInlineWords) ++ f.spill.toList).map (·.bits))
    ++ [f.globals.word, f.exception.word]

end StubFrame

end ScriptMachine
