import CallAtlas.Decimal.Shortest

/-!
# Floats with one place after the point

Durations are shown to a tenth. The exact value of the float is rounded, and a tie goes to the even
tenth.
-/

namespace CallAtlas.Decimal

/-- A quotient rounded to the nearest whole number, ties to the even one. -/
def roundDiv (num den : Nat) : Nat :=
  let below := num / den
  let rest := num % den
  if 2 * rest < den ∨ (2 * rest = den ∧ below % 2 = 0) then below else below + 1

/-- The tenths nearest to a magnitude. -/
def Binary.tenths (x : Binary) : Nat :=
  roundDiv (10 * x.significand * Nat.pow 2 x.exponent.toNat) (Nat.pow 2 (-x.exponent).toNat)

/-- A float with one place after the point. -/
def tenthsText (x : Float) : String :=
  let bits := x.toBits.toNat
  let sign := if bits.testBit 63 then "-" else ""
  if x.isNaN then "NaN"
  else if x.isInf then sign ++ "inf"
  else
    let tenths := (Binary.ofBits bits).tenths
    s!"{sign}{tenths / 10}.{tenths % 10}"

end CallAtlas.Decimal
