/-!
# The bits of a double

A finite double is a sign and `mantissa · 2 ^ exponent` with a mantissa below 2⁵³ (`decode`). `remainder` works on that
form in exact natural number arithmetic: the remainder of the truncated quotient, with the sign of the dividend, is
again a double, so nothing is rounded.
-/

namespace Stencil.Number

/-- The magnitude `mantissa · 2 ^ exponent`. -/
structure Binary where
  mantissa : Nat
  exponent : Int
  deriving DecidableEq, Repr

/-- The bit that leads a mantissa of full length, `2 ^ 52`. -/
def leadingBit : Nat := 0x10000000000000

/-- The sign bit is set. -/
def isNegative (x : Float) : Bool := 0x8000000000000000 ≤ x.toBits.toNat

/-- The magnitude of a finite double. -/
def decode (x : Float) : Binary :=
  let bits := x.toBits.toNat
  let fraction := bits % leadingBit
  match bits / leadingBit % 0x800 with
  | 0 => ⟨fraction, -1074⟩
  | e => ⟨leadingBit + fraction, (e : Int) - 1075⟩

/-- The double of a magnitude that has one: the mantissa is shifted up until its top bit or the least exponent is
reached. -/
def encode (negative : Bool) (b : Binary) : Float :=
  let shift := min (52 - b.mantissa.log2) (b.exponent + 1074).toNat
  let mantissa := b.mantissa <<< shift
  let biased := (b.exponent - shift + 1075).toNat
  let magnitude := if mantissa < leadingBit then mantissa else biased <<< 52 + (mantissa - leadingBit)
  Float.ofBits (UInt64.ofNat (if negative then 0x8000000000000000 + magnitude else magnitude))

/-- The mantissa that the magnitude has at a lower exponent. -/
def Binary.mantissaAt (b : Binary) (exponent : Int) : Nat := b.mantissa <<< (b.exponent - exponent).toNat

/-- The remainder of the truncated quotient of two finite doubles; the divisor is not zero. -/
def remainder (x y : Float) : Float :=
  let a := decode x
  let b := decode y
  let exponent := min a.exponent b.exponent
  encode (isNegative x) ⟨a.mantissaAt exponent % b.mantissaAt exponent, exponent⟩

end Stencil.Number
