/-!
# Written numbers

A numeral is a number as it is written: digits before and after a point, and an exponent. Where
numerals stand, some forms of them may be refused; `scan` reads the parts, and the grammars test
them.

The value is the nearest float. The estimate is a float near it: the digits that fit into a word are
taken for a float, which is multiplied or divided by a power of ten, and each of these steps rounds.
-/

namespace CallAtlas.Decimal

/-- The parts of a written number. -/
structure Numeral where
  whole : List Char
  /-- The digits after the point, if there is a point. -/
  fraction : Option (List Char)
  /-- The sign and the digits of the exponent, if there is one; `true` is a minus sign. -/
  exponent : Option (Bool × List Char)
  deriving DecidableEq, Repr

/-- The value of a sequence of digits. -/
def ofDigits (digits : List Char) : Nat :=
  digits.foldl (fun n c => 10 * n + (c.toNat - '0'.toNat)) 0

/-- The float beyond all others. -/
def infinity : Float := 1.0 / 0.0

/-- The float nearest to `digits · 10 ^ exponent`. -/
def nearest (digits : Nat) (exponent : Int) : Float :=
  let size : Int := (Nat.toDigits 10 digits).length + exponent
  if digits = 0 ∨ size < -400 then 0.0
  else if 400 < size then infinity
  else Float.ofScientific digits (exponent < 0) exponent.natAbs

/-- The number that digits write after the number `n`, as far as it stays within a limit, and the
digits that are left. -/
def ofDigitsWithin (limit n : Nat) : List Char → Nat × List Char
  | [] => (n, [])
  | c :: rest =>
    let next := 10 * n + (c.toNat - '0'.toNat)
    if next ≤ limit then ofDigitsWithin limit next rest else (n, c :: rest)

/-- A power of ten. -/
def tenTo (exponent : Nat) : Float := Float.ofScientific 1 false exponent

/-- The largest exponent of ten that a float reaches. -/
def maxPower : Nat := 308

/-- Some digits with an exponent of ten, computed in floats. There is no result beyond the largest
float. -/
def scaled? (digits : Nat) (exponent : Int) : Option Float :=
  let x := Float.ofNat digits
  let power := exponent.natAbs
  if exponent < 0 then
    if power ≤ maxPower then some (x / tenTo power)
    else if power ≤ 2 * maxPower then some (x / tenTo maxPower / tenTo (power - maxPower))
    else some 0.0
  else if digits = 0 then some 0.0
  else if power ≤ maxPower then
    let y := x * tenTo power
    if y.isFinite then some y else none
  else none

namespace Numeral

/-- The sign at the front of a text and what follows it. -/
def sign : List Char → Bool × List Char
  | '-' :: rest => (true, rest)
  | '+' :: rest => (false, rest)
  | rest => (false, rest)

/-- The parts of the number at the front of a text, and the rest of the text. -/
def scan (cs : List Char) : Numeral × List Char :=
  let whole := cs.takeWhile Char.isDigit
  let (fraction, rest) : Option (List Char) × List Char :=
    match cs.dropWhile Char.isDigit with
    | '.' :: rest => (some (rest.takeWhile Char.isDigit), rest.dropWhile Char.isDigit)
    | rest => (none, rest)
  match rest with
  | c :: tail =>
    if c = 'e' ∨ c = 'E' then
      let (negative, tail) := sign tail
      (⟨whole, fraction, some (negative, tail.takeWhile Char.isDigit)⟩, tail.dropWhile Char.isDigit)
    else (⟨whole, fraction, none⟩, rest)
  | [] => (⟨whole, fraction, none⟩, [])

/-- The digits before and after the point. -/
def digits (n : Numeral) : List Char := n.whole ++ n.fraction.getD []

/-- The exponent as a number, zero when none is written. -/
def power (n : Numeral) : Int :=
  match n.exponent with
  | none => 0
  | some (negative, digits) => if negative then -(ofDigits digits) else ofDigits digits

/-- The nearest float. -/
def value (n : Numeral) : Float :=
  nearest (ofDigits n.digits) (n.power - (n.fraction.getD []).length)

/-- A float near the value, from the digits that stay within a limit. Those after it count for their
place only. -/
def estimate? (limit : Nat) (n : Numeral) : Option Float :=
  let (leading, dropped) := ofDigitsWithin limit 0 n.whole
  let fraction := n.fraction.getD []
  let (digits, unread) := ofDigitsWithin limit leading fraction
  scaled? digits (n.power + dropped.length - (fraction.length - unread.length : Nat))

/-- Whether an exponent, if one is begun, has digits. -/
def hasPower (n : Numeral) : Bool := n.exponent.all fun e => !e.2.isEmpty

end Numeral

/-- A float as it is given on a command line: a number with a sign, with digits before or after
the point, or one of the words for infinity and for no number, in any case. -/
def ofText? (text : String) : Option Float :=
  let (negative, rest) := Numeral.sign text.toList
  let word := String.ofList (rest.map Char.toLower)
  let magnitude : Option Float :=
    if word = "inf" ∨ word = "infinity" then some infinity
    else if word = "nan" then some (0.0 / 0.0)
    else
      match Numeral.scan rest with
      | (n, []) => if !n.digits.isEmpty && n.hasPower then some n.value else none
      | _ => none
  magnitude.map fun x => if negative then -x else x

end CallAtlas.Decimal
