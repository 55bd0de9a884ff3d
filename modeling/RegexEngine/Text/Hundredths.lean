import RegexEngine.Text.Basic

/-!
Binary floating point numbers written with two decimal places. The exact value of the number is
rounded to hundredths, and a tie goes to the even hundredth.
-/

namespace RegexEngine.Text

/-- The nearest whole number to a quotient; of two equally near ones the even one. -/
def roundQuotient (numerator denominator : Nat) : Nat :=
  let q := numerator / denominator
  let r := numerator % denominator
  if 2 * r < denominator then q
  else if 2 * r > denominator then q + 1
  else if q % 2 == 0 then q
  else q + 1

/-- A finite number as its sign, significand and binary exponent. -/
def floatParts (x : Float) : Bool × Nat × Int :=
  let bits := x.toBits.toNat
  let negative := bits / 0x8000000000000000 == 1
  let exponent : Nat := bits / 0x10000000000000 % 0x800
  let fraction : Nat := bits % 0x10000000000000
  if exponent == 0 then (negative, fraction, -1074)
  else (negative, fraction + 0x10000000000000, (exponent : Int) - 1075)

/-- The number of hundredths in `significand * 2 ^ exponent`. -/
def hundredthsOf (significand : Nat) (exponent : Int) : Nat :=
  if 0 ≤ exponent then significand * Nat.pow 2 exponent.toNat * 100
  else roundQuotient (significand * 100) (Nat.pow 2 (-exponent).toNat)

def hundredths (x : Float) : String :=
  if x.isNaN then "NaN"
  else
    let (negative, significand, exponent) := floatParts x
    let sign := if negative then "-" else ""
    if x.isInf then sign ++ "inf"
    else
      let n := hundredthsOf significand exponent
      sign ++ toString (n / 100) ++ "." ++ padLeft '0' 2 (toString (n % 100))

end RegexEngine.Text
