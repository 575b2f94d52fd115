/-!
# The shortest decimal of a float

A finite float is written with as few digits as tell it from every other float. Its magnitude is
`m · 2 ^ q`; the reals that round to it reach half way to the two floats beside it, with both ends
if `m` is even. On the grid of all multiples of a power of ten, if any point lies in that interval
then one of the two points around the float does, so it is enough to look at those, on finer and
finer grids. All arithmetic is in natural numbers.
-/

namespace CallAtlas.Decimal

/-- The number `digits · 10 ^ exponent`. -/
structure Scientific where
  digits : Nat
  exponent : Int
  deriving DecidableEq, Repr

/-- The magnitude `significand · 2 ^ exponent` of a finite float. -/
structure Binary where
  significand : Nat
  exponent : Int
  /-- Whether the next smaller float is only half as far away as the next larger one. -/
  narrowBelow : Bool
  deriving DecidableEq, Repr

namespace Binary

/-- The weight of the leading bit of a significand, which is two to the power of 52. -/
def leadingBit : Nat := 4503599627370496

/-- The magnitude of the finite float with some bits. Above the bits of the fraction there are
eleven for the scale, and the sign. -/
def ofBits (bits : Nat) : Binary :=
  let fraction : Nat := bits % leadingBit
  let scale : Nat := bits / leadingBit % 2048
  if scale = 0 then ⟨fraction, -1074, false⟩
  else ⟨fraction + leadingBit, (scale : Int) - 1075, fraction = 0 ∧ 1 < scale⟩

/-- Four times the significand: in this unit the ends of the interval are whole. -/
def centre (x : Binary) : Nat := 4 * x.significand

/-- The lower end of the interval that rounds to a float, in quarters of the last place. -/
def low (x : Binary) : Nat := x.centre - if x.narrowBelow then 1 else 2

/-- The upper end of the interval that rounds to a float, in quarters of the last place. -/
def high (x : Binary) : Nat := x.centre + 2

/-- The exponent of a quarter of the last place. -/
def quarter (x : Binary) : Int := x.exponent - 2

/-- The weight of `10 ^ place` where a quarter of the last place weighs `scale x place`. -/
def cell (x : Binary) (place : Int) : Nat := Nat.pow 10 place.toNat * Nat.pow 2 (-x.quarter).toNat

/-- The weight of a quarter of the last place where `10 ^ place` weighs `cell x place`. -/
def scale (x : Binary) (place : Int) : Nat := Nat.pow 2 x.quarter.toNat * Nat.pow 10 (-place).toNat

/-- Whether `digits · 10 ^ place` rounds to a float. -/
def holds (x : Binary) (place : Int) (digits : Nat) : Bool :=
  let value := digits * x.cell place
  let low := x.low * x.scale place
  let high := x.high * x.scale place
  if x.significand % 2 = 0 then low ≤ value && value ≤ high else low < value && value < high

/-- Of the two multiples of `10 ^ place` around a float, the nearest that rounds to it. Of two that
are equally near the even one is taken. -/
def nearestAt? (x : Binary) (place : Int) : Option Scientific :=
  let below := x.centre * x.scale place / x.cell place
  let rest := x.centre * x.scale place % x.cell place
  let isLower := 2 * rest < x.cell place || (2 * rest == x.cell place && below % 2 == 0)
  let candidates := if isLower then [below, below + 1] else [below + 1, below]
  (candidates.find? (x.holds place)).map (⟨·, place⟩)

/-- The place of the first digit of a positive magnitude. -/
def firstPlace (x : Binary) : Int :=
  let length (n : Nat) : Int := (Nat.toDigits 10 n).length
  let guess := length (x.centre * x.scale 0) - length (x.cell 0)
  if x.cell guess ≤ x.centre * x.scale guess then guess else guess - 1

end Binary

/-- A decimal whose last digit is not zero, as far as that takes at most `fuel` steps. -/
def Scientific.trim : Nat → Scientific → Scientific
  | 0, d => d
  | fuel + 1, d =>
    if d.digits % 10 = 0 then trim fuel ⟨d.digits / 10, d.exponent + 1⟩ else d

/-- The decimal with the fewest digits that rounds to a positive magnitude. Seventeen digits always
suffice. -/
def shortest (x : Binary) : Scientific :=
  let found := (List.range 17).findSome? fun n : Nat => x.nearestAt? (x.firstPlace - n)
  (found.getD ⟨0, 0⟩).trim 17

end CallAtlas.Decimal
