import ScriptMachine.Number.Literal

/-! # JSON trees

Programs and configurations are stored as JSON text. A `Json` tree keeps what the text says without
judging it: a number is its literal (`Numeral`), an object keeps its members in order with
repetitions, and a string with an unpaired surrogate escape is `none`. What a member may be is
decided by whoever reads it, through the accessors here, which follow `serde_json`:

* `Numeral.natural?` accepts only plain non-negative integers below `2 ^ 64`;
* `Numeral.binary64?` accepts every literal whose value does not overflow;
* `Json.members?` reads a record, given as an object or as the array of its members in order. -/

namespace ScriptMachine

/-- A number literal in its parts. -/
structure Numeral where
  /-- The literal starts with a minus sign. -/
  negative : Bool
  /-- The digits before the point. -/
  whole : List Char
  /-- The digits after the point, if there is one. -/
  fraction : Option (List Char)
  /-- The sign (true for minus) and the digits of the exponent, if there is one. -/
  exponent : Option (Bool × List Char)
deriving DecidableEq, Repr

/-- A JSON value. -/
inductive Json where
  /-- The null literal. -/
  | null
  /-- A boolean literal. -/
  | boolean (b : Bool)
  /-- A number literal. -/
  | number (n : Numeral)
  /-- A string; `none` when its escapes leave a surrogate unpaired. -/
  | string (s : Option String)
  /-- An array. -/
  | array (items : List Json)
  /-- An object. -/
  | object (members : List (Option String × Json))
deriving Inhabited

namespace Numeral

/-- The literal of a natural number. -/
def ofNat (n : Nat) : Numeral := ⟨false, Nat.toDigits 10 n, none, none⟩

/-- The literal as text; an exponent carries its sign. -/
def chars (n : Numeral) : List Char :=
  (if n.negative then ['-'] else []) ++ n.whole
    ++ (match n.fraction with | some digits => '.' :: digits | none => [])
    ++ (match n.exponent with
        | some (negative, digits) => 'e' :: (if negative then '-' else '+') :: digits
        | none => [])

/-- The natural number of a plain integer literal below `2 ^ 64`. -/
def natural? (n : Numeral) : Option Nat :=
  if n.negative || n.fraction.isSome || n.exponent.isSome then none
  else
    let value := decimalNat n.whole
    if value < UInt64.size then some value else none

/-! ### Literals as double-precision numbers

A literal is read with a 64-bit accumulator and one multiplication or division by a power of ten, so
a long literal is not always read to its nearest number. -/

/-- A 64-bit significand and the power of ten it is scaled by. -/
structure Scaled where
  /-- The accumulated digits. -/
  significand : Nat
  /-- The power of ten. -/
  power : Int
  /-- No digit has been left out. -/
  exact : Bool
deriving Repr

/-- Takes in a digit before the point: once a digit does not fit, it and all later ones only
count. -/
def Scaled.wholeDigit (s : Scaled) (c : Char) : Scaled :=
  let next := 10 * s.significand + (decimalDigit? c).getD 0
  if s.exact && next < UInt64.size then { s with significand := next }
  else { s with power := s.power + 1, exact := false }

/-- Takes in a digit after the point: once a digit does not fit, it and all later ones are
dropped. -/
def Scaled.fractionDigit (s : Scaled) (c : Char) : Scaled :=
  let next := 10 * s.significand + (decimalDigit? c).getD 0
  if s.exact && next < UInt64.size then { s with significand := next, power := s.power - 1 }
  else { s with exact := false }

/-- The significand and power of a literal without its exponent part. After the digits before the
point the accumulator may take further digits again, if they fit. -/
def scaled (n : Numeral) : Scaled :=
  let whole := n.whole.foldl Scaled.wholeDigit ⟨0, 0, true⟩
  (n.fraction.getD []).foldl Scaled.fractionDigit { whole with exact := true }

/-- The power of ten `10 ^ power` for `power ≤ 308`, to the nearest number. -/
def powerOfTen (power : Nat) : Binary64 := Binary64.ofDecimal false 1 power

/-- Scales by a power of ten, dividing in steps when it is very negative; `none` on overflow. -/
def scaleBy : Nat → Binary64 → Int → Option Binary64
  | 0, f, _ => some f
  | fuel + 1, f, power =>
    if power.natAbs ≤ 308 then
      if 0 ≤ power then
        let product := f.mul (powerOfTen power.natAbs)
        if product.isInfinite then none else some product
      else some (f.div (powerOfTen power.natAbs))
    else if f.isZero then some f
    else if 0 ≤ power then none
    else scaleBy fuel (f.div (powerOfTen 308)) (power + 308)

/-- The double-precision number of a literal; `none` when it overflows. -/
def binary64? (n : Numeral) : Option Binary64 :=
  let signed (f : Binary64) : Binary64 := if n.negative then f.neg else f
  let s := n.scaled
  match n.exponent with
  | none =>
    if n.fraction.isNone && s.power = 0 then some (signed (Binary64.ofNat s.significand))
    else (scaleBy 4 (Binary64.ofNat s.significand) s.power).map signed
  | some (negative, digits) =>
    let exponent := decimalNat digits
    if exponent ≥ 0x80000000 then
      if s.significand ≠ 0 && !negative then none else some (signed Binary64.zero)
    else
      let power := if negative then s.power - exponent else s.power + exponent
      (scaleBy 4 (Binary64.ofNat s.significand) power).map signed

end Numeral

namespace Json

/-- The natural number below `bound`, if the value is such a number. -/
def natural? (bound : Nat) : Json → Option Nat
  | .number n => match n.natural? with
    | some value => if value < bound then some value else none
    | none => none
  | _ => none

/-- A 32-bit word. -/
def word? (j : Json) : Option UInt32 := (j.natural? UInt32.size).map UInt32.ofNat

/-- A natural number below `2 ^ 64`. -/
def size? (j : Json) : Option Nat := j.natural? UInt64.size

/-- A double-precision number. -/
def binary64? : Json → Option Binary64
  | .number n => n.binary64?
  | _ => none

/-- A boolean. -/
def boolean? : Json → Option Bool
  | .boolean b => some b
  | _ => none

/-- A string without unpaired surrogates. -/
def string? : Json → Option String
  | .string s => s
  | _ => none

/-- The items of an array. -/
def items? : Json → Option (List Json)
  | .array items => some items
  | _ => none

/-- A value that may be null. -/
def optional? (read : Json → Option α) : Json → Option (Option α)
  | .null => some none
  | j => (read j).map some

/-- The member of a name in an object whose names are all readable and which holds it at most once:
outer `none` for a repetition. -/
def member? (name : String) (members : List (Option String × Json)) : Option (Option Json) :=
  match members.filter fun m => m.1 == some name with
  | [] => some none
  | [m] => some (some m.2)
  | _ => none

/-- The members of a record, in the order of `names`, each present or absent. A record is an object,
whose further members are ignored, or the array of its first members in order. -/
def members? (names : List String) : Json → Option (List (Option Json))
  | .object members =>
    if members.all fun m => m.1.isSome then names.mapM fun name => member? name members else none
  | .array items =>
    if items.length ≤ names.length then
      some (items.map some ++ List.replicate (names.length - items.length) none)
    else none
  | _ => none

/-- The name and content of an alternative: a bare name, or an object with exactly one member. -/
def alternative? : Json → Option (String × Option Json)
  | .string (some name) => some (name, none)
  | .object [(some name, content)] => some (name, some content)
  | _ => none

end Json

end ScriptMachine
