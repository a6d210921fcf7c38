import ScriptMachine.Number.Binary64

/-! # Numbers read from text

`Binary64.ofText` is the conversion of a string to a number: surrounding blanks are dropped, the
empty text is zero, `Infinity` may carry a sign, `0x` starts a hexadecimal integer below `2 ^ 64`,
and everything else is an optionally signed decimal literal or not a number. -/

namespace ScriptMachine

/-! ### Blanks -/

/-- The code points of the Unicode property `White_Space`, as inclusive ranges. -/
def blankRanges : List (Nat × Nat) :=
  [(0x9, 0xD), (0x20, 0x20), (0x85, 0x85), (0xA0, 0xA0), (0x1680, 0x1680), (0x2000, 0x200A),
   (0x2028, 0x2029), (0x202F, 0x202F), (0x205F, 0x205F), (0x3000, 0x3000)]

/-- A character with the Unicode property `White_Space`. -/
def isBlank (c : Char) : Bool := blankRanges.any fun (lo, hi) => lo ≤ c.toNat && c.toNat ≤ hi

/-- A text without the blanks at its two ends. -/
def trimBlanks (cs : List Char) : List Char :=
  ((cs.dropWhile isBlank).reverse.dropWhile isBlank).reverse

/-! ### Digits -/

/-- The value of a decimal digit. -/
def decimalDigit? (c : Char) : Option Nat :=
  if '0' ≤ c && c ≤ '9' then some (c.toNat - 48) else none

/-- The value of a hexadecimal digit. -/
def hexDigit? (c : Char) : Option Nat :=
  if '0' ≤ c && c ≤ '9' then some (c.toNat - 48)
  else if 'a' ≤ c && c ≤ 'f' then some (c.toNat - 87)
  else if 'A' ≤ c && c ≤ 'F' then some (c.toNat - 55)
  else none

/-- The natural number written by decimal digits; characters that are no digits count as zero. -/
def decimalNat (cs : List Char) : Nat :=
  cs.foldl (fun n c => 10 * n + (decimalDigit? c).getD 0) 0

/-- The natural number written by one or more hexadecimal digits. -/
def hexNat? (cs : List Char) : Option Nat :=
  if cs.isEmpty then none
  else cs.foldlM (fun n c => (hexDigit? c).map (16 * n + ·)) 0

/-- An ASCII decimal digit. -/
def isDigit (c : Char) : Bool := '0' ≤ c && c ≤ '9'

/-- Splits a sign off a text; `true` stands for minus. -/
def splitSign : List Char → Bool × List Char
  | '-' :: cs => (true, cs)
  | '+' :: cs => (false, cs)
  | cs => (false, cs)

/-! ### Literals -/

/-- The exponent part of a decimal literal: nothing, or `e` and an optionally signed integer. -/
def exponentPart? : List Char → Option Int
  | [] => some 0
  | c :: cs =>
    if c = 'e' || c = 'E' then
      let (negative, digits) := splitSign cs
      if digits.isEmpty || !digits.all isDigit then none
      else some (if negative then -(decimalNat digits : Int) else decimalNat digits)
    else none

/-- Splits the fraction digits off a text; without a point there are none. -/
def splitFraction : List Char → List Char × List Char
  | '.' :: cs => (cs.takeWhile isDigit, cs.dropWhile isDigit)
  | cs => ([], cs)

/-- A decimal literal: a sign, digits on at least one side of an optional point, an exponent. -/
def decimalLiteral? (cs : List Char) : Option Binary64 :=
  let (negative, unsigned) := splitSign cs
  let whole := unsigned.takeWhile isDigit
  let (fraction, rest) := splitFraction (unsigned.dropWhile isDigit)
  if whole.isEmpty && fraction.isEmpty then none
  else (exponentPart? rest).map fun exponent =>
    Binary64.ofDecimal negative (decimalNat (whole ++ fraction)) (exponent - fraction.length)

/-- A hexadecimal literal after its `0x`: an optional plus sign and digits of a 64-bit integer. -/
def hexLiteral? (cs : List Char) : Option Binary64 :=
  let digits := match cs with
    | '+' :: rest => rest
    | _ => cs
  match hexNat? digits with
  | some n => if n < UInt64.size then some (Binary64.ofNat n) else none
  | none => none

/-- **The number a text stands for**, a NaN when it stands for none. -/
def Binary64.ofText (s : String) : Binary64 :=
  match trimBlanks s.toList with
  | [] => zero
  | '0' :: 'x' :: hex => (hexLiteral? hex).getD nan
  | '0' :: 'X' :: hex => (hexLiteral? hex).getD nan
  | cs =>
    if cs = "Infinity".toList || cs = "+Infinity".toList then infinity false
    else if cs = "-Infinity".toList then infinity true
    else (decimalLiteral? cs).getD nan

end ScriptMachine
