import Stencil.Number.Shortest

/-!
# Layouts of a number

A `Layout` is the set of decisions by which a double is written: which decimal exponents are written positionally, and
whether a whole number keeps a fraction digit. Outside the positional range the text is scientific, with a sign on
every exponent.
-/

namespace Stencil.Number

/-- How a double is written. -/
structure Layout where
  /-- The decimal exponents of the first digit, from the first up to but not the second, that are written
  positionally; every exponent if there is no range. -/
  positional : Option (Int × Int)
  /-- A whole number is written with a fraction digit. -/
  fraction : Bool

/-- The digits of a decimal with the decimal point in its place. -/
def Layout.point (layout : Layout) (d : Decimal) : String :=
  let digits := Nat.toDigits 10 d.digits
  let whole := d.exponent + digits.length
  if 0 ≤ d.exponent then
    String.ofList (digits ++ List.replicate d.exponent.toNat '0') ++ (if layout.fraction then ".0" else "")
  else if 0 < whole then
    String.ofList (digits.take whole.toNat ++ '.' :: digits.drop whole.toNat)
  else
    String.ofList ('0' :: '.' :: List.replicate (-whole).toNat '0' ++ digits)

/-- The digits of a decimal as one digit, a fraction if there is more, and an exponent. -/
def Layout.scientific (d : Decimal) : String :=
  let digits := Nat.toDigits 10 d.digits
  let exponent := d.exponent + digits.length - 1
  let mantissa := if digits.length ≤ 1 then digits else digits.take 1 ++ '.' :: digits.drop 1
  String.ofList mantissa ++ "e" ++ (if exponent < 0 then "-" else "+") ++ toString exponent.natAbs

/-- The text of a magnitude. -/
def Layout.magnitude (layout : Layout) (b : Binary) : String :=
  if b.mantissa == 0 then layout.point ⟨0, 0⟩
  else
    let d := shortest b
    match layout.positional with
    | none => layout.point d
    | some (low, high) =>
      let k := d.exponent + (Nat.toDigits 10 d.digits).length - 1
      if low ≤ k && k < high then layout.point d else scientific d

/-- The text of a double. -/
def Layout.write (layout : Layout) (x : Float) : String :=
  let sign := if isNegative x then "-" else ""
  if x.isNaN then "NaN"
  else if x.isInf then sign ++ "inf"
  else sign ++ layout.magnitude (decode x)

end Stencil.Number
