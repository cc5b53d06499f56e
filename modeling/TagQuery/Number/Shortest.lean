import TagQuery.Number.Real64

/-!
# Shortest decimals

The decimal with the fewest digits that still rounds to a given binary64 number, and among those the
one nearest to it.

## Main definitions

- `Decimal`: digits and a power of ten.
- `Tie`: which of two equally near decimals is taken.
- `shortest`: the decimal of a positive number.
-/

namespace TagQuery.Number

/-- The number `digits * 10 ^ exponent`. -/
structure Decimal where
  digits : Nat
  exponent : Int
  deriving DecidableEq, Repr

/-- Which of two equally near neighbours is taken. -/
inductive Tie where
  | toEven
  | up
  deriving DecidableEq, Repr

/-- The numbers that round to a given one, in quarter steps: they lie between `low` and `high`, and
the two ends belong to them when `closed`. -/
structure RoundingInterval where
  value : Nat
  low : Nat
  high : Nat
  closed : Bool

/-- The interval of a step count. Below a power of two the neighbours are half as far away. -/
def roundingInterval (steps : Nat) : RoundingInterval :=
  let gap := Nat.pow 2 (gapExponent steps)
  let significand := steps / gap
  let below := if significand = Nat.pow 2 52 ∧ 1 < gap then gap else 2 * gap
  { value := 4 * steps
    low := 4 * steps - below
    high := 4 * steps + 2 * gap
    closed := significand % 2 = 0 }

def RoundingInterval.holds (i : RoundingInterval) (num den : Nat) : Bool :=
  if i.closed then i.low * den ≤ num && num ≤ i.high * den
  else i.low * den < num && num < i.high * den

def unitQuarters : Nat := 4 * unitSteps

/-- The multiple of `10 ^ exponent` that stands for the number, if one rounds to it: of the
neighbours on that grid the nearer that does. -/
def onGrid? (i : RoundingInterval) (tie : Tie) (exponent : Int) : Option Nat :=
  let grid := unitQuarters * Nat.pow 10 exponent.toNat
  let scale := Nat.pow 10 (-exponent).toNat
  let floor := i.value * scale / grid
  let twice := 2 * (i.value * scale % grid)
  match i.holds (floor * grid) scale, i.holds ((floor + 1) * grid) scale with
  | true, true =>
    if twice < grid then some floor
    else if grid < twice then some (floor + 1)
    else
      match tie with
      | .toEven => some (floor + floor % 2)
      | .up => some (floor + 1)
  | true, false => some floor
  | false, true => some (floor + 1)
  | false, false => none

/-- The exponent of the leading decimal digit of `steps`. -/
def leadingExponent (steps : Nat) : Int :=
  ((Nat.toDigits 10 (steps * Nat.pow 10 400 / unitSteps)).length : Int) - 401

/-- Tries grids that get finer by one digit, `fuel` times. -/
def firstOnGrid (i : RoundingInterval) (tie : Tie) (exponent : Int) : Nat → Decimal
  | 0 => ⟨i.value / unitQuarters, 0⟩
  | fuel + 1 =>
    match onGrid? i tie exponent with
    | some digits => ⟨digits, exponent⟩
    | none => firstOnGrid i tie (exponent - 1) fuel

/-- Drops the zeros at the end of the digits, at most `fuel` of them. -/
def Decimal.strip (d : Decimal) : Nat → Decimal
  | 0 => d
  | fuel + 1 =>
    if d.digits ≠ 0 ∧ d.digits % 10 = 0 then
      Decimal.strip ⟨d.digits / 10, d.exponent + 1⟩ fuel
    else d

/-- The shortest decimal that rounds to a positive number. Seventeen digits are always enough. -/
def shortest (tie : Tie) (steps : Nat) : Decimal :=
  (firstOnGrid (roundingInterval steps) tie (leadingExponent steps) 18).strip 20

end TagQuery.Number
