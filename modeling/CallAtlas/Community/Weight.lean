/-!
# Weights

The search for communities adds, multiplies and compares weights. It runs on floating-point
numbers, and it is written for any type with these operations: what is proved without laws for
them holds whatever the comparisons answer, and with the laws of the rationals the search can be
compared with the modularity it is meant to raise.
-/

namespace CallAtlas

/-- The arithmetic of edge weights and of the resolution. No laws are asked for. -/
class Weight (α : Type) extends Add α, Sub α, Mul α, Div α where
  /-- The weight of `n` calls. -/
  ofNat : Nat → α
  /-- Whether one weight is smaller than another. -/
  lt : α → α → Bool
  /-- Whether a weight is zero. -/
  isZero : α → Bool
  /-- How often a resolution is doubled at most. -/
  doublings : α → Nat

namespace Weight

/-- Doubling takes any float but zero past every bound in fewer steps than are allowed here, since
there are 2098 doublings between the smallest and the largest. -/
instance : Weight Float where
  ofNat := Float.ofNat
  lt a b := a < b
  isZero a := a == 0
  doublings _ := 2100

/-- Exact arithmetic. A positive resolution is doubled as often as it takes to reach ten. -/
instance : Weight Rat where
  ofNat n := n
  lt a b := a < b
  isZero a := a == 0
  doublings r := if 0 < r.num then Nat.log2 (10 * r.den) + 1 else 0

variable {α : Type} [Weight α]

/-- The sum of the weights of a list, from the left. -/
def sum (weights : List α) : α := weights.foldl (· + ·) (ofNat 0)

end Weight

/-- Weights by number, with the numbers in increasing order. -/
abbrev Tally (α : Type) := List (Nat × α)

namespace Tally

variable {α : Type} [Weight α]

/-- A tally with a weight added to that of a number. -/
def add (tally : Tally α) (number : Nat) (weight : α) : Tally α :=
  match tally with
  | [] => [(number, weight)]
  | (n, w) :: rest =>
    if number < n then (number, weight) :: (n, w) :: rest
    else if number = n then (n, w + weight) :: rest
    else (n, w) :: add rest number weight

/-- The tally of a list of weights, each given to a number. -/
def ofList (entries : List (Nat × α)) : Tally α :=
  entries.foldl (fun tally entry => add tally entry.1 entry.2) []

/-- The weight of a number, zero for one that has none. -/
def get (tally : Tally α) (number : Nat) : α :=
  (tally.lookup number).getD (Weight.ofNat 0)

end Tally

end CallAtlas
