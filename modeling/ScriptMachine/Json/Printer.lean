import ScriptMachine.Json.Reader
import ScriptMachine.Number.Text

/-! # Writing JSON text

`Json.pretty` writes a tree with one item or member per line and two blanks of indentation per
level. A finite number is written with the fewest digits that read back; other numbers have no
literal and become null. This is the pretty form of `serde_json`. -/

namespace ScriptMachine.Json

/-- A word as a number. -/
def ofWord (w : UInt32) : Json := .number (Numeral.ofNat w.toNat)

/-- A double-precision number; null when it is not finite. -/
def ofBinary64 (x : Binary64) : Json :=
  if x.isFinite then
    match readNumeral? (NumberStyle.interchange.finite x).toList with
    | some (n, _) => .number n
    | none => .null
  else .null

/-- A literal is kept when numbers are stored anew: it is a whole number of 64 bits, signed if it is
negative. -/
def isStoredWhole (n : Numeral) : Bool :=
  n.fraction.isNone && n.exponent.isNone &&
    (let size := decimalNat n.whole
     if n.negative then size ≠ 0 && size ≤ UInt64.size / 2 else size < UInt64.size)

/-- A number literal as it is stored anew: whole numbers of 64 bits keep their digits, any other
literal becomes the shortest one of the number it reads as. -/
def storedNumeral (n : Numeral) : Json :=
  if isStoredWhole n then .number n
  else match n.binary64? with
    | some x => .ofBinary64 x
    | none => .null

mutual

/-- **A tree as it is stored anew**: its numbers are read and written again, all else is kept. -/
def stored : Json → Json
  | .number n => storedNumeral n
  | .array items => .array (storedItems items)
  | .object members => .object (storedMembers members)
  | j => j

/-- The items of an array, stored anew. -/
def storedItems : List Json → List Json
  | [] => []
  | item :: items => item.stored :: storedItems items

/-- The members of an object, stored anew. -/
def storedMembers : List (Option String × Json) → List (Option String × Json)
  | [] => []
  | (name, value) :: members => (name, value.stored) :: storedMembers members

end

/-- A string. -/
def ofString (s : String) : Json := .string (some s)

/-- An optional value, null when absent. -/
def ofOption (write : α → Json) : Option α → Json
  | some a => write a
  | none => .null

/-- An object. -/
def record (members : List (String × Json)) : Json :=
  .object (members.map fun (name, value) => (some name, value))

/-- The lower-case hexadecimal digit of a number below sixteen. -/
def hexChar (n : Nat) : Char := "0123456789abcdef".toList.getD n '0'

/-- The characters that stand for one character inside a string. -/
def escape (c : Char) : List Char :=
  if c = '"' then ['\\', '"']
  else if c = '\\' then ['\\', '\\']
  else if c = '\x08' then ['\\', 'b']
  else if c = '\x0c' then ['\\', 'f']
  else if c = '\n' then ['\\', 'n']
  else if c = '\r' then ['\\', 'r']
  else if c = '\t' then ['\\', 't']
  else if c.toNat < 0x20 then
    ['\\', 'u', '0', '0', hexChar (c.toNat / 16), hexChar (c.toNat % 16)]
  else [c]

/-- A string between quotes. -/
def quoted (s : String) : List Char := '"' :: s.toList.flatMap escape ++ ['"']

/-- A line break and the blanks of a level. -/
def newline (level : Nat) : List Char := '\n' :: List.replicate (2 * level) ' '

mutual

/-- A value at a level of indentation. -/
def prettyAt (level : Nat) : Json → List Char
  | .null => ['n', 'u', 'l', 'l']
  | .boolean true => ['t', 'r', 'u', 'e']
  | .boolean false => ['f', 'a', 'l', 's', 'e']
  | .number n => n.chars
  | .string s => quoted (s.getD "")
  | .array [] => ['[', ']']
  | .array (item :: items) =>
    '[' :: newline (level + 1) ++ prettyAt (level + 1) item ++ prettyItems (level + 1) items
      ++ newline level ++ [']']
  | .object [] => ['\x7b', '\x7d']
  | .object (m :: members) =>
    '\x7b' :: newline (level + 1) ++ prettyMember (level + 1) m
      ++ prettyMembers (level + 1) members ++ newline level ++ ['\x7d']

/-- The items after the first. -/
def prettyItems (level : Nat) : List Json → List Char
  | [] => []
  | item :: items => ',' :: newline level ++ prettyAt level item ++ prettyItems level items

/-- One member. -/
def prettyMember (level : Nat) : Option String × Json → List Char
  | (name, value) => quoted (name.getD "") ++ ':' :: ' ' :: prettyAt level value

/-- The members after the first. -/
def prettyMembers (level : Nat) : List (Option String × Json) → List Char
  | [] => []
  | m :: members =>
    ',' :: newline level ++ prettyMember level m ++ prettyMembers level members

end

/-- **The indented text of a tree.** -/
def pretty (j : Json) : String := String.ofList (j.prettyAt 0)

end ScriptMachine.Json
