import ScriptMachine.Number.Literal
import Std.Data.HashMap
import Std.Data.TreeMap

/-! # Interned names

Property names are interned once and compared by number afterwards. An atom remembers whether its
name is the canonical decimal text of an array index, which decides whether it names an element. -/

namespace ScriptMachine

/-- An interned name. -/
structure Atom where
  /-- The position in the table. -/
  index : UInt32
deriving DecidableEq, Hashable, Repr, Inhabited

/-- Atoms are ordered by their numbers. -/
instance : Ord Atom := ⟨fun a b => compare a.index b.index⟩

instance : Std.TransOrd Atom where
  eq_swap {a b} := @Std.OrientedCmp.eq_swap UInt32 compare _ a.index b.index
  isLE_trans {a b c} := @Std.TransCmp.isLE_trans UInt32 compare _ a.index b.index c.index

instance : Std.LawfulEqOrd Atom where
  eq_of_compare {a b} h := by
    cases a
    cases b
    exact congrArg Atom.mk (Std.LawfulEqOrd.eq_of_compare h)

/-- The array index a text names: a decimal number below `2 ^ 32 - 1` without sign or leading
zero. -/
def arrayIndexOf? (name : String) : Option UInt32 :=
  let cs := name.toList
  match cs with
  | [] => none
  | '0' :: _ :: _ => none
  | _ =>
    if cs.all isDigit then
      let n := decimalNat cs
      if n < UInt32.size - 1 then some (UInt32.ofNat n) else none
    else none

/-- The canonical name of an array index. -/
def indexName (index : UInt32) : String := toString index.toNat

/-- An entry of the table. -/
structure AtomEntry where
  /-- The name. -/
  name : String
  /-- The array index it is the name of. -/
  arrayIndex : Option UInt32
deriving DecidableEq, Repr, Inhabited

/-- The interned names and their numbers. -/
structure AtomTable where
  /-- The names in the order in which they were interned. -/
  entries : Array AtomEntry := #[]
  /-- The atom of each interned name. -/
  lookup : Std.HashMap String Atom := {}
deriving Inhabited

namespace AtomTable

/-- The atom of a name that has been interned. -/
def get? (t : AtomTable) (name : String) : Option Atom := t.lookup[name]?

/-- The atom of a name, interning it if needed. -/
def intern (t : AtomTable) (name : String) : Atom × AtomTable :=
  match t.lookup[name]? with
  | some atom => (atom, t)
  | none =>
    let atom : Atom := ⟨t.entries.size.toUInt32⟩
    (atom, { entries := t.entries.push ⟨name, arrayIndexOf? name⟩
             lookup := t.lookup.insert name atom })

/-- The atom of the canonical name of an array index. -/
def internIndex (t : AtomTable) (index : UInt32) : Atom × AtomTable := t.intern (indexName index)

/-- The name of an atom, empty for an unknown one. -/
def name (t : AtomTable) (atom : Atom) : String :=
  match t.entries[atom.index.toNat]? with
  | some entry => entry.name
  | none => ""

/-- The array index an atom names. -/
def arrayIndex? (t : AtomTable) (atom : Atom) : Option UInt32 :=
  match t.entries[atom.index.toNat]? with
  | some entry => entry.arrayIndex
  | none => none

/-- The number of interned names. -/
def size (t : AtomTable) : Nat := t.entries.size

end AtomTable

end ScriptMachine
