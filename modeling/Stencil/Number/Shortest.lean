import Stencil.Number.Binary

/-!
# The shortest decimal of a double

Of all decimals that a reader rounds to a given double, `shortest` is one with the fewest digits, and of those the
nearest; on a tie its last digit is even. The reals that round to `m · 2 ^ e` form an interval that reaches half a unit
to each side, a quarter below where the unit halves, and holds its ends when `m` is even. If a multiple of a power of
ten lies in the interval then so does one of the value's two neighbours among those multiples, so it is enough to try
these two, from the largest power down.
-/

namespace Stencil.Number

/-- The number `digits · 10 ^ exponent`. -/
structure Decimal where
  digits : Nat
  exponent : Int
  deriving DecidableEq, Repr

/-- The reals that round to a double, as the bounds `low` and `high` and the double itself, all three in units of
`2 ^ exponent`. -/
structure Interval where
  low : Nat
  value : Nat
  high : Nat
  exponent : Int
  closed : Bool
  deriving Repr

/-- The interval of the doubles' magnitude `b`, which is not zero. -/
def Interval.of (b : Binary) : Interval :=
  let m := b.mantissa
  let below := if m == leadingBit && -1074 < b.exponent then 1 else 2
  ⟨4 * m - below, 4 * m, 4 * m + 2, b.exponent - 2, m % 2 == 0⟩

/-- The multiple of `10 ^ p` in the interval that is nearest to its value, if one of the value's two neighbours among
these multiples lies in the interval. -/
def Interval.multiple? (i : Interval) (p : Int) : Option Nat :=
  let ten := Nat.pow 10 p.toNat <<< (-i.exponent).toNat
  let unit := Nat.pow 10 (-p).toNat <<< i.exponent.toNat
  let holds := fun c : Nat =>
    if i.closed then i.low * unit ≤ c * ten && c * ten ≤ i.high * unit
    else i.low * unit < c * ten && c * ten < i.high * unit
  let floor := i.value * unit / ten
  let rest := i.value * unit % ten
  match holds floor, holds (floor + 1) with
  | false, false => none
  | true, false => some floor
  | false, true => some (floor + 1)
  | true, true =>
    if 2 * rest < ten || (2 * rest == ten && floor % 2 == 0) then some floor else some (floor + 1)

/-- The first power of ten from `10 ^ p` down to `10 ^ (p - steps)` that has a multiple in the interval. -/
def Interval.search (i : Interval) : Nat → Int → Decimal
  | 0, p => ⟨i.value, p⟩
  | steps + 1, p =>
    match i.multiple? p with
    | some digits => ⟨digits, p⟩
    | none => i.search steps (p - 1)

/-- The shortest decimal of a magnitude that is not zero. -/
def shortest (b : Binary) : Decimal :=
  let i := Interval.of b
  let top : Int := (b.exponent + b.mantissa.log2 + 2) * 30103 / 100000 + 1
  i.search 40 top

end Stencil.Number
