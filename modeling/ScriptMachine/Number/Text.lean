import ScriptMachine.Number.Shortest

/-! # Numbers as text

A `NumberStyle` fixes how a number is written: where positional notation ends, how an exponent is
signed and which way a tie between two shortest decimals goes. The styles in use are
`NumberStyle.interchange` (program files, and what scripts see) and `NumberStyle.listing` (listings
and reports). -/

namespace ScriptMachine

/-- How finite nonzero numbers are written. -/
structure NumberStyle where
  /-- Which of two nearest shortest decimals is written. -/
  tie : Tie
  /-- The least number of places before the point that is written positionally; `-2` allows
  `0.00ddd`. -/
  leastPoint : Int
  /-- The largest number of places before the point that is written positionally. -/
  greatestPoint : Int
  /-- A non-negative exponent carries a plus sign. -/
  plusExponent : Bool
deriving Repr

namespace NumberStyle

/-- Positional from `1e-5` up to `1e16`, exponents with a sign, ties to even: the layout that the shortest
decimals of the `ryu` printer have. -/
def interchange : NumberStyle :=
  { tie := .toEven, leastPoint := -4, greatestPoint := 16, plusExponent := true }

/-- Positional from `1e-4` up to `1e16`, exponents without a plus sign, ties away from zero. -/
def listing : NumberStyle :=
  { tie := .up, leastPoint := -3, greatestPoint := 16, plusExponent := false }

/-- `n` zeros. -/
def zeros (n : Nat) : List Char := List.replicate n '0'

/-- Writes a positive decimal: positional with at least one digit on each side of the point, or one
digit, the rest after the point, and an exponent. -/
def decimal (style : NumberStyle) (d : Decimal) : List Char :=
  let digits := Nat.toDigits 10 d.digits
  let count := digits.length
  let point : Int := count + d.power
  if style.leastPoint ≤ point && point ≤ style.greatestPoint then
    if 0 ≤ d.power then digits ++ zeros d.power.toNat ++ ['.', '0']
    else if 0 < point then digits.take point.toNat ++ '.' :: digits.drop point.toNat
    else '0' :: '.' :: zeros (-point).toNat ++ digits
  else
    let exponent := point - 1
    let sign := if exponent < 0 then ['-'] else if style.plusExponent then ['+'] else []
    let mantissa := if count = 1 then digits else digits.take 1 ++ '.' :: digits.drop 1
    mantissa ++ 'e' :: sign ++ Nat.toDigits 10 exponent.natAbs

/-- Writes a finite number, zeros as `0.0` and `-0.0`. -/
def finite (style : NumberStyle) (x : Binary64) : String :=
  let body := if x.isZero then ['0', '.', '0'] else style.decimal (x.shortest style.tie)
  String.ofList (if x.negative then '-' :: body else body)

end NumberStyle

namespace Binary64

/-- A number in a listing: the shortest digits with at least one decimal. -/
def listingText (x : Binary64) : String :=
  if x.isNaN then "NaN"
  else if x.isInfinite then if x.negative then "-inf" else "inf"
  else NumberStyle.listing.finite x

/-- Integers below this bound are written without a point or exponent. -/
def integralTextBound : Nat := 1000000000000000000000

/-- A number as scripts see it: integers below `1e21` as their digits, a zero without sign. -/
def text (x : Binary64) : String :=
  if x.isNaN then "NaN"
  else if x.isInfinite then if x.negative then "-Infinity" else "Infinity"
  else if x.isZero then "0"
  else if x.isIntegral && x.truncated < integralTextBound then
    String.ofList ((if x.negative then ['-'] else []) ++ Nat.toDigits 10 x.truncated)
  else NumberStyle.interchange.finite x

end Binary64

end ScriptMachine
