/-! # Double-precision numbers

A number is its 64-bit interchange word: a sign bit, eleven exponent bits and fifty-two fraction
bits. Everything that must be exact is read off the word in integer arithmetic:

* `significand` and `exponent` give a finite number as `± significand · 2 ^ exponent`;
* `truncated` is the integer part;
* `eq`, `lt`, `le` are the numerical order, in which a NaN is related to nothing;
* `ofRatio` rounds a quotient of natural numbers to the nearest number, ties to even;
* `add` and `sub` round the exact sum and difference;
* `rem` is the exact remainder of a truncating division.

Multiplication and division are the arithmetic of `Float` on the same words. The conversions to 32-bit
integers are steps from number to number, `trunc`, `remEuclid` and `fract`, and a last one that takes
what is out of range to the nearest integer that is in it. -/

namespace ScriptMachine

/-- A double-precision number, as its interchange word. -/
structure Binary64 where
  /-- The sign, exponent and fraction bits. -/
  bits : UInt64
deriving DecidableEq, Hashable, Repr

namespace Binary64

/-! ### Classes of words -/

/-- The word without its sign bit; it orders the non-negative numbers. -/
def magnitude (x : Binary64) : UInt64 := x.bits &&& 0x7FFFFFFFFFFFFFFF

/-- The sign bit is set. -/
def negative (x : Binary64) : Bool := x.bits ≥ 0x8000000000000000

/-- The magnitude of the infinities; larger magnitudes are NaNs. -/
def infinityBits : UInt64 := 0x7FF0000000000000

/-- The word stands for no number. -/
def isNaN (x : Binary64) : Bool := x.magnitude > infinityBits

/-- One of the two infinities. -/
def isInfinite (x : Binary64) : Bool := x.magnitude == infinityBits

/-- Neither a NaN nor an infinity. -/
def isFinite (x : Binary64) : Bool := x.magnitude < infinityBits

/-- One of the two zeros. -/
def isZero (x : Binary64) : Bool := x.magnitude == 0

/-- The one NaN that results of this library are normalised to. -/
def nan : Binary64 := ⟨0x7FF8000000000000⟩

/-- Positive zero. -/
def zero : Binary64 := ⟨0⟩

/-- Negative zero. -/
def negZero : Binary64 := ⟨0x8000000000000000⟩

/-- The number one. -/
def one : Binary64 := ⟨0x3FF0000000000000⟩

/-- The infinity of the given sign. -/
def infinity (negative : Bool) : Binary64 :=
  ⟨if negative then 0xFFF0000000000000 else infinityBits⟩

/-- The number with the opposite sign. -/
def neg (x : Binary64) : Binary64 := ⟨x.bits ^^^ 0x8000000000000000⟩

instance : Inhabited Binary64 := ⟨zero⟩

/-! ### The exact value of a finite number -/

/-- The eleven exponent bits. -/
def exponentField (x : Binary64) : Nat := (x.magnitude >>> 52).toNat

/-- The fifty-two fraction bits. -/
def fractionField (x : Binary64) : Nat := (x.bits &&& 0xFFFFFFFFFFFFF).toNat

/-- The integer `m` of a finite number `± m · 2 ^ e`. -/
def significand (x : Binary64) : Nat :=
  if x.exponentField = 0 then x.fractionField else x.fractionField + 0x10000000000000

/-- The exponent `e` of a finite number `± m · 2 ^ e`. -/
def exponent (x : Binary64) : Int :=
  if x.exponentField = 0 then -1074 else (x.exponentField : Int) - 1075

/-- The absolute value of a finite number, truncated to an integer. -/
def truncated (x : Binary64) : Nat :=
  if 0 ≤ x.exponent then x.significand <<< x.exponent.toNat
  else x.significand >>> (-x.exponent).toNat

/-- A finite number without a fractional part. -/
def isIntegral (x : Binary64) : Bool :=
  x.isFinite && (0 ≤ x.exponent || x.significand % (1 <<< (-x.exponent).toNat) == 0)

/-! ### Order -/

/-- The position of a number in the numerical order; both zeros have position zero. -/
def orderKey (x : Binary64) : Int64 :=
  if x.negative then -x.magnitude.toInt64 else x.magnitude.toInt64

/-- Numerical equality: the zeros are equal, a NaN equals nothing. -/
def eq (x y : Binary64) : Bool := !x.isNaN && !y.isNaN && x.orderKey == y.orderKey

/-- Numerically less; false when either side is a NaN. -/
def lt (x y : Binary64) : Bool := !x.isNaN && !y.isNaN && x.orderKey < y.orderKey

/-- Numerically less or equal; false when either side is a NaN. -/
def le (x y : Binary64) : Bool := !x.isNaN && !y.isNaN && x.orderKey ≤ y.orderKey

/-! ### Rounding a quotient -/

/-- `num / den` rounded to an integer, a half going to the even neighbour. -/
def divideToEven (num den : Nat) : Nat :=
  let quotient := num / den
  let twice := 2 * (num % den)
  if twice > den || (twice == den && quotient % 2 == 1) then quotient + 1 else quotient

/-- The exponent of the last place of the number nearest to `num / den`, which is at least
`-1074`. -/
def lastPlace (num den : Nat) : Int :=
  let guess : Int := (num.log2 : Int) - den.log2 - 53
  let scaled := if 0 ≤ guess then num / (den <<< guess.toNat) else (num <<< (-guess).toNat) / den
  max (-1074) (if scaled ≥ 0x20000000000000 then guess + 1 else guess)

/-- The number nearest to `num / den`, ties to even; too large a quotient gives an infinity.
A significand that rounds up to `2 ^ 53` carries into the exponent bits, as it should. -/
def ofRatio (negative : Bool) (num den : Nat) : Binary64 :=
  if num = 0 then if negative then negZero else zero
  else
    let place := lastPlace num den
    let rounded :=
      if 0 ≤ place then divideToEven num (den <<< place.toNat)
      else divideToEven (num <<< (-place).toNat) den
    let word := ((place + 1074).toNat <<< 52) + rounded
    if word ≥ infinityBits.toNat then infinity negative
    else ⟨UInt64.ofNat word ||| (if negative then 0x8000000000000000 else 0)⟩

/-- The number nearest to a natural number. -/
def ofNat (n : Nat) : Binary64 := ofRatio false n 1

/-- The number nearest to an integer. -/
def ofInt (i : Int) : Binary64 := ofRatio (i < 0) i.natAbs 1

/-- A 32-bit word as a number, exactly. -/
def ofUInt32 (n : UInt32) : Binary64 := ofNat n.toNat

/-- A signed 32-bit word as a number, exactly. -/
def ofInt32 (n : Int32) : Binary64 := ofInt n.toInt

/-- The number nearest to `digits · 10 ^ power`. Powers far outside the range of the format are
settled by the number of digits alone. -/
def ofDecimal (negative : Bool) (digits : Nat) (power : Int) : Binary64 :=
  if digits = 0 then ofRatio negative 0 1
  else
    let bound := power + ((Nat.toDigits 10 digits).length : Int)
    if bound > 310 then infinity negative
    else if bound < -330 then ofRatio negative 0 1
    else if 0 ≤ power then ofRatio negative (digits * Nat.pow 10 power.toNat) 1
    else ofRatio negative digits (Nat.pow 10 (-power).toNat)

/-! ### Arithmetic -/

/-- The `Float` with the same word. -/
def toFloat (x : Binary64) : Float := Float.ofBits x.bits

/-- The word of a `Float`. -/
def ofFloat (x : Float) : Binary64 := ⟨x.toBits⟩

/-- The significand of a finite number with its sign, in units of `2 ^ place`; the place is at most its
exponent. -/
def scaled (x : Binary64) (place : Int) : Int :=
  let units := x.significand <<< (x.exponent - place).toNat
  if x.negative then -units else units

/-- The number nearest to `± units · 2 ^ place`. -/
def ofScaled (negative : Bool) (units : Nat) (place : Int) : Binary64 :=
  if 0 ≤ place then ofRatio negative (units <<< place.toNat) 1
  else ofRatio negative units (1 <<< (-place).toNat)

/-- Rounded sum. A sum that is exactly zero is negative only if both terms are. -/
def add (x y : Binary64) : Binary64 :=
  if x.isNaN || y.isNaN then nan
  else if x.isInfinite then if y.isInfinite && x.negative != y.negative then nan else x
  else if y.isInfinite then y
  else
    let place := min x.exponent y.exponent
    let total := x.scaled place + y.scaled place
    if total = 0 then if x.negative && y.negative then negZero else zero
    else ofScaled (total < 0) total.natAbs place

/-- Rounded difference. -/
def sub (x y : Binary64) : Binary64 := x.add y.neg

/-- Rounded product. -/
def mul (x y : Binary64) : Binary64 := ofFloat (x.toFloat * y.toFloat)

/-- Rounded quotient. -/
def div (x y : Binary64) : Binary64 := ofFloat (x.toFloat / y.toFloat)

/-- The exact remainder of the division truncated toward zero; it has the sign of the dividend. -/
def rem (x y : Binary64) : Binary64 :=
  if x.isNaN || y.isNaN || x.isInfinite || y.isZero then nan
  else if y.isInfinite || x.isZero then x
  else
    let place := min x.exponent y.exponent
    let dividend := x.significand <<< (x.exponent - place).toNat
    let divisor := y.significand <<< (y.exponent - place).toNat
    ofScaled x.negative (dividend % divisor) place

/-! ### Conversion to integers -/

/-- The absolute value. -/
def abs (x : Binary64) : Binary64 := ⟨x.magnitude⟩

/-- The number without its fractional part; it keeps its sign. -/
def trunc (x : Binary64) : Binary64 :=
  if x.isFinite && x.exponent < 0 then
    let dropped := (-x.exponent).toNat
    if dropped > 52 then if x.negative then negZero else zero
    else ⟨x.bits >>> UInt64.ofNat dropped <<< UInt64.ofNat dropped⟩
  else x

/-- The fractional part, with the sign of the number. -/
def fract (x : Binary64) : Binary64 := x.sub x.trunc

/-- The remainder that is not negative. -/
def remEuclid (x y : Binary64) : Binary64 :=
  let remainder := x.rem y
  if remainder.lt zero then remainder.add y.abs else remainder

/-- The 32-bit word nearest to a number truncated toward zero; zero for a NaN. -/
def clampUInt32 (x : Binary64) : UInt32 :=
  if x.isNaN || x.negative then 0
  else if x.isInfinite || UInt32.size ≤ x.truncated then 0xFFFFFFFF
  else UInt32.ofNat x.truncated

/-- The signed 32-bit integer nearest to a number truncated toward zero; zero for a NaN. -/
def clampInt32 (x : Binary64) : Int32 :=
  if x.isNaN then 0
  else if x.negative then
    if x.isInfinite || 0x80000000 ≤ x.truncated then Int32.minValue
    else Int32.ofInt (-x.truncated)
  else if x.isInfinite || 0x80000000 ≤ x.truncated then Int32.maxValue
  else Int32.ofNat x.truncated

/-- The number `2 ^ 32`. -/
def twoPow32 : Binary64 := ⟨0x41F0000000000000⟩

/-- **The wrapping conversion** to an unsigned word: truncated, reduced modulo `2 ^ 32`, and then in
range. NaN and the infinities give zero. -/
def toUInt32 (x : Binary64) : UInt32 :=
  if !x.isFinite || x.eq zero then 0 else (x.trunc.remEuclid twoPow32).clampUInt32

/-- The wrapping conversion to a signed word: the unsigned one read in two's complement. -/
def toInt32 (x : Binary64) : Int32 := x.toUInt32.toInt32

end Binary64

end ScriptMachine
