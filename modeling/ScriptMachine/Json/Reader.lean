import ScriptMachine.Json.Basic

/-! # Reading JSON text

`Json.read?` reads one value and requires nothing but blanks after it. The functions below take the
remaining characters and return what they read with the rest; the three that call each other take
fuel, of which `Json.read?` supplies more than the text can use. What is no JSON here is what `serde_json`
refuses for its syntax. -/

namespace ScriptMachine.Json

/-- The blanks of JSON text. -/
def isSpace (c : Char) : Bool := c = ' ' || c = '\n' || c = '\t' || c = '\r'

/-- Drops blanks. -/
def skipSpaces (cs : List Char) : List Char := cs.dropWhile isSpace

/-! ### Numbers -/

/-- The digits before the point: a single zero, or digits that do not start with one. -/
def readWhole? (cs : List Char) : Option (List Char × List Char) :=
  match cs.takeWhile isDigit with
  | [] => none
  | '0' :: _ :: _ => none
  | digits => some (digits, cs.dropWhile isDigit)

/-- The part after a point, if there is one; it needs a digit. -/
def readFraction? : List Char → Option (Option (List Char) × List Char)
  | '.' :: cs =>
    match cs.takeWhile isDigit with
    | [] => none
    | digits => some (some digits, cs.dropWhile isDigit)
  | cs => some (none, cs)

/-- The exponent part, if there is one; it needs a digit. -/
def readExponent? : List Char → Option (Option (Bool × List Char) × List Char)
  | c :: cs =>
    if c = 'e' || c = 'E' then
      let (negative, rest) := splitSign cs
      match rest.takeWhile isDigit with
      | [] => none
      | digits => some (some (negative, digits), rest.dropWhile isDigit)
    else some (none, c :: cs)
  | [] => some (none, [])

/-- A number literal. -/
def readNumeral? (cs : List Char) : Option (Numeral × List Char) := do
  let (negative, unsigned) := match cs with
    | '-' :: rest => (true, rest)
    | _ => (false, cs)
  let (whole, rest) ← readWhole? unsigned
  let (fraction, rest) ← readFraction? rest
  let (exponent, rest) ← readExponent? rest
  return (⟨negative, whole, fraction, exponent⟩, rest)

/-! ### Strings -/

/-- A piece of a string: a character, or an escaped 16-bit unit. -/
inductive Piece where
  /-- A character written as itself or by a short escape. -/
  | char (c : Char)
  /-- A unit written by a four-digit escape. -/
  | unit (u : Nat)
deriving DecidableEq, Repr

/-- The character of a short escape. -/
def shortEscape? : Char → Option Char
  | '"' => some '"'
  | '\\' => some '\\'
  | '/' => some '/'
  | 'b' => some '\x08'
  | 'f' => some '\x0c'
  | 'n' => some '\n'
  | 'r' => some '\r'
  | 't' => some '\t'
  | _ => none

/-- The pieces of a string after its opening quote, in reverse order, up to its closing quote. -/
def readPieces? (acc : List Piece) : List Char → Option (List Piece × List Char)
  | [] => none
  | '"' :: cs => some (acc, cs)
  | '\\' :: 'u' :: a :: b :: c :: d :: cs =>
    match hexNat? [a, b, c, d] with
    | some u => readPieces? (.unit u :: acc) cs
    | none => none
  | '\\' :: e :: cs =>
    match shortEscape? e with
    | some c => readPieces? (.char c :: acc) cs
    | none => none
  | c :: cs => if c.toNat < 0x20 || c = '\\' then none else readPieces? (.char c :: acc) cs

/-- Joins pieces given in reverse order: a low surrogate needs the high one before it. -/
def joinPieces? (acc : List Char) : List Piece → Option (List Char)
  | [] => some acc
  | .char c :: rest => joinPieces? (c :: acc) rest
  | .unit u :: rest =>
    if 0xDC00 ≤ u && u < 0xE000 then
      match rest with
      | .unit high :: rest' =>
        if 0xD800 ≤ high && high < 0xDC00 then
          joinPieces? (Char.ofNat (0x10000 + (high - 0xD800) * 0x400 + (u - 0xDC00)) :: acc) rest'
        else none
      | _ => none
    else if 0xD800 ≤ u && u < 0xDC00 then none
    else joinPieces? (Char.ofNat u :: acc) rest

/-- A string after its opening quote. -/
def readString? (cs : List Char) : Option (Option String × List Char) := do
  let (pieces, rest) ← readPieces? [] cs
  return ((joinPieces? [] pieces).map String.ofList, rest)

/-! ### Values -/

/-- The text starts with a word; returns the rest. -/
def expect? (word : List Char) (cs : List Char) : Option (List Char) :=
  if word.isPrefixOf cs then some (cs.drop word.length) else none

mutual

/-- One value, with blanks before it. -/
def readValue? : Nat → List Char → Option (Json × List Char)
  | 0, _ => none
  | fuel + 1, cs =>
    match skipSpaces cs with
    | '{' :: rest =>
      match skipSpaces rest with
      | '}' :: rest => some (.object [], rest)
      | rest => readMembers? fuel [] rest
    | '[' :: rest =>
      match skipSpaces rest with
      | ']' :: rest => some (.array [], rest)
      | rest => readItems? fuel [] rest
    | '"' :: rest => (readString? rest).map fun (s, rest) => (.string s, rest)
    | 't' :: rest => (expect? ['r', 'u', 'e'] rest).map fun rest => (.boolean true, rest)
    | 'f' :: rest => (expect? ['a', 'l', 's', 'e'] rest).map fun rest => (.boolean false, rest)
    | 'n' :: rest => (expect? ['u', 'l', 'l'] rest).map fun rest => (.null, rest)
    | rest => (readNumeral? rest).map fun (n, rest) => (.number n, rest)

/-- The items of a nonempty array up to its closing bracket; `acc` holds earlier ones in reverse. -/
def readItems? : Nat → List Json → List Char → Option (Json × List Char)
  | 0, _, _ => none
  | fuel + 1, acc, cs =>
    match readValue? fuel cs with
    | none => none
    | some (item, rest) =>
      match skipSpaces rest with
      | ',' :: rest => readItems? fuel (item :: acc) rest
      | ']' :: rest => some (.array (item :: acc).reverse, rest)
      | _ => none

/-- The members of a nonempty object up to its closing brace; `acc` holds earlier ones in
reverse. -/
def readMembers? : Nat → List (Option String × Json) → List Char → Option (Json × List Char)
  | 0, _, _ => none
  | fuel + 1, acc, cs =>
    match skipSpaces cs with
    | '"' :: rest =>
      match readString? rest with
      | none => none
      | some (key, rest) =>
        match skipSpaces rest with
        | ':' :: rest =>
          match readValue? fuel rest with
          | none => none
          | some (item, rest) =>
            match skipSpaces rest with
            | ',' :: rest => readMembers? fuel ((key, item) :: acc) rest
            | '}' :: rest => some (.object ((key, item) :: acc).reverse, rest)
            | _ => none
        | _ => none
    | _ => none

end

/-- **The value a text holds**, with nothing but blanks around it. -/
def read? (text : String) : Option Json :=
  let cs := text.toList
  match readValue? (2 * cs.length + 2) cs with
  | some (value, rest) => if (skipSpaces rest).isEmpty then some value else none
  | none => none

end ScriptMachine.Json
