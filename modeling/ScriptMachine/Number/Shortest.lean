import ScriptMachine.Number.Binary64

/-! # The shortest decimal that reads back

Every finite number is the nearest one to a whole interval of reals. Of the decimals in that
interval the shortest ones are those with the fewest digits, and of these `Binary64.shortest` takes
the nearest. The search is exact: for one digit, two digits and so on it looks at the two neighbours
of the value on the grid of decimals with that many digits. -/

namespace ScriptMachine

/-- A positive decimal `digits · 10 ^ power`. -/
structure Decimal where
  /-- The digits, as a natural number. -/
  digits : Nat
  /-- The power of ten the digits are multiplied by. -/
  power : Int
deriving DecidableEq, Repr, Inhabited

/-- Which of two equally near decimals is taken. -/
inductive Tie where
  /-- The one whose last digit is even. -/
  | toEven
  /-- The larger one. -/
  | up
deriving DecidableEq, Repr

namespace Decimal

/-- Drops trailing zeros, at most `fuel` of them. -/
def stripZeros : Nat → Decimal → Decimal
  | 0, d => d
  | fuel + 1, d =>
    if d.digits % 10 = 0 then stripZeros fuel ⟨d.digits / 10, d.power + 1⟩ else d

end Decimal

/-- The interval of reals that round to a positive number, in quarters of its last place:
the reals `r` with `lower ≤ r · 4 / 2 ^ exponent ≤ upper`, the ends counting when `closed`. -/
structure RoundingInterval where
  /-- Four times the significand. -/
  value : Nat
  /-- The lower end. -/
  lower : Nat
  /-- The upper end. -/
  upper : Nat
  /-- The ends round to the number too. -/
  closed : Bool
deriving Repr

namespace Binary64

/-- The interval of a positive finite number. The gap below a power of two is half as wide. -/
def roundingInterval (x : Binary64) : RoundingInterval :=
  let m := x.significand
  let narrow := x.fractionField == 0 && x.exponentField > 1
  { value := 4 * m
    lower := if narrow then 4 * m - 1 else 4 * m - 2
    upper := 4 * m + 2
    closed := m % 2 == 0 }

/-- The fraction `a / b` of natural numbers whose quotient is the number `quarters · 2 ^ e / 4`
divided by `10 ^ power`, written with the common denominator `b` of all `quarters`. -/
def decimalScale (e power : Int) : Nat × Nat :=
  let binary := e - 2
  -- A negative integer becomes the natural number 0, so one factor of each pair is 1.
  ((1 <<< binary.toNat) * Nat.pow 10 (-power).toNat,
   (1 <<< (-binary).toNat) * Nat.pow 10 power.toNat)

/-- The nearest decimal `d · 10 ^ power` inside the interval, if one of the two neighbours of the
value lies there. -/
def nearestOnGrid (tie : Tie) (i : RoundingInterval) (e power : Int) : Option Nat :=
  let (scale, unit) := decimalScale e power
  let value := i.value * scale
  let low := i.lower * scale
  let high := i.upper * scale
  let floor := value / unit
  let inside (d : Nat) : Bool :=
    if i.closed then low ≤ d * unit && d * unit ≤ high else low < d * unit && d * unit < high
  let below := inside floor && floor != 0
  let above := inside (floor + 1)
  let rest := 2 * (value % unit)
  if below && above then
    if rest < unit then some floor
    else if rest > unit then some (floor + 1)
    else match tie with
      | .up => some (floor + 1)
      | .toEven => some (if floor % 2 = 0 then floor else floor + 1)
  else if below then some floor
  else if above then some (floor + 1)
  else none

/-- Tries the grids of `count`, `count + 1`, … digits, `fuel` of them, for a number whose leading
digit stands at `10 ^ lead`. -/
def searchGrids (tie : Tie) (i : RoundingInterval) (e lead : Int) : Nat → Nat → Option Decimal
  | 0, _ => none
  | fuel + 1, count =>
    let power := lead + 1 - count
    match nearestOnGrid tie i e power with
    | some d => some ((Decimal.mk d power).stripZeros 20)
    | none => searchGrids tie i e lead fuel (count + 1)

/-- The exponent of the leading decimal digit of `m · 2 ^ e`, for positive `m`. -/
def leadingPower (m : Nat) (e : Int) : Int :=
  if 0 ≤ e then ((Nat.toDigits 10 (m <<< e.toNat)).length : Int) - 1
  else
    let whole := m >>> (-e).toNat
    if whole ≠ 0 then ((Nat.toDigits 10 whole).length : Int) - 1
    else
      -- scaled up by `10 ^ 400` the number is a positive integer with the same leading digit
      ((Nat.toDigits 10 ((m * Nat.pow 10 400) >>> (-e).toNat)).length : Int) - 401

/-- **The shortest decimal** that rounds to the absolute value of a finite nonzero number, the
nearest of them, a tie going as `tie` says. Seventeen digits always suffice. -/
def shortest (tie : Tie) (x : Binary64) : Decimal :=
  let m := x.significand
  let e := x.exponent
  (searchGrids tie x.roundingInterval e (leadingPower m e) 17 1).getD ⟨0, 0⟩

end Binary64

end ScriptMachine
