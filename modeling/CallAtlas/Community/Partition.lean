import CallAtlas.Community.Level

/-!
# Partitions into communities of bounded size

The resolution is doubled until the largest community is small enough or the resolution is at
least ten. Communities that are still too large are divided by a search among their own members
alone, and so are the parts.

Doubling does not change a resolution of zero. Where the largest community at that resolution
exceeds the bound, the tuning never ends, and `tune` answers `none`.
-/

namespace CallAtlas.Network

variable {α : Type} [Weight α]

/-- The size of the largest community. -/
def largest (communities : List (List Nat)) : Nat :=
  communities.foldl (fun size c => max size c.length) 0

/-- Whether the resolution is to be doubled once more. -/
def needsDoubling (limit : Nat) (resolution : α) (communities : List (List Nat)) : Bool :=
  limit < largest communities && Weight.lt resolution (Weight.ofNat 10)

/-- The communities at the first of the doubled resolutions that needs no further doubling, if
there is one among the first `doublings`. -/
def tune (net : Network α) (limit : Nat) (doublings : Nat) (resolution : α) :
    Option (List (List Nat)) :=
  let communities := net.communities resolution
  if needsDoubling limit resolution communities then
    match doublings with
    | 0 => none
    | doublings + 1 => net.tune limit doublings (resolution * Weight.ofNat 2)
  else some communities

/-- The first division of a network into several communities, at a resolution that is doubled so
many times at most. -/
def division? (net : Network α) : Nat → α → Option (List (List Nat))
  | 0, _ => none
  | attempts + 1, resolution =>
    let parts := net.communities resolution
    if 1 < parts.length then some parts
    else net.division? attempts (resolution * Weight.ofNat 2)

/-- The number of resolutions that are tried for a division. -/
def maxAttempts : Nat := 8

/-- A community divided until its parts have at most `limit` members, or cannot be divided:
because there is no weight between members, or because no resolution divides them. -/
def split (net : Network α) (limit : Nat) (community : List Nat) : List (List Nat) :=
  let members := community.mergeSort
  let inner := net.restrict members
  if community.length ≤ limit || Weight.isZero inner.totalWeight then [community]
  else
    match inner.division? maxAttempts (Weight.ofNat 2) with
    | none => [community]
    | some parts => parts.flatMap fun part =>
      let outer := part.map fun i => members.getD i 0
      if part.length < community.length then net.split limit outer else [outer]
  termination_by community.length

/-- Larger communities come first, and of one size the one with the smallest member. -/
def precedes (a b : List Nat) : Bool :=
  b.length < a.length || (a.length == b.length && a.head?.getD 0 ≤ b.head?.getD 0)

/-- The communities of a network at a resolution, of at most `limit` members where they can be
divided; each in increasing order, and larger ones first. -/
def partition? (net : Network α) (limit : Nat) (resolution : α) : Option (List (List Nat)) :=
  (net.tune limit (Weight.doublings resolution) resolution).map fun communities =>
    ((communities.flatMap (net.split limit)).map (·.mergeSort)).mergeSort precedes

end CallAtlas.Network
