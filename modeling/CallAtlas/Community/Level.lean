import CallAtlas.Community.Network

/-!
# Levels of a partition

Communities are found in levels. On one level each node in turn moves to the neighbouring
community where it raises modularity most, as long as some node moves. Then every community
becomes a single node of the next level, with the weight inside it as a loop, and the search goes
on there. A level that cannot be made smaller is the last.

A node moves only for a strictly positive gain, and of equal gains the community with the lowest
label wins.
-/

namespace CallAtlas

/-- The labels of the nodes of a network, and the summed degree of the nodes with each label. -/
structure Labelling (α : Type) where
  labels : Array Nat
  masses : Array α
  /-- Whether a node has changed its label. -/
  moved : Bool

namespace Labelling

variable {α : Type} [Weight α]

/-- The label of a node. -/
def label (s : Labelling α) (i : Nat) : Nat := s.labels.getD i i

/-- The summed degree of the nodes with a label. -/
def mass (s : Labelling α) (c : Nat) : α := s.masses.getD c (Weight.ofNat 0)

/-- Every node has a label of its own. -/
def initial (net : Network α) : Labelling α where
  labels := Array.range net.size
  masses := ((List.range net.size).map net.degree).toArray
  moved := false

/-- A labelling with the degree of a node taken out of, or added to, the mass of a label. -/
def adjust (s : Labelling α) (c : Nat) (change : α → α) : Labelling α :=
  { s with masses := s.masses.modify c change }

/-- A labelling with a new label for a node. -/
def relabel (s : Labelling α) (i c : Nat) : Labelling α :=
  { s with labels := s.labels.setIfInBounds i c, moved := s.moved || c != s.label i }

/-- The weight between a node and each of the labels around it. -/
def weightsNear (net : Network α) (s : Labelling α) (i : Nat) : Tally α :=
  Tally.ofList (((net.row i).filter (·.1 != i)).map fun (j, w) => (s.label j, w))

/-- What a node of some degree adds to modularity in a community of some mass that it has some
weight to, up to a common factor. -/
def gain (resolution volume degree mass weight : α) : α :=
  weight - resolution * mass * degree / volume

/-- The label to which a node moves, given the gains of the labels around it: the best of those
above the gain of its own, or else its own. -/
def bestLabel (own : Nat) (ownGain : α) (gains : List (Nat × α)) : Nat :=
  (gains.foldl (fun best candidate =>
    let delta := candidate.2 - ownGain
    if Weight.lt best.2 delta then (candidate.1, delta) else best) (own, Weight.ofNat 0)).1

/-- One node takes the label that is best for it. -/
def visit (net : Network α) (resolution volume : α) (s : Labelling α) (i : Nat) : Labelling α :=
  let own := s.label i
  let degree := net.degree i
  let near := weightsNear net s i
  let without := s.adjust own (· - degree)
  let gainOf (c : Nat) (weight : α) := gain resolution volume degree (without.mass c) weight
  let gains := near.map fun (c, weight) => (c, gainOf c weight)
  let best := bestLabel own (gainOf own (near.get own)) gains
  (without.relabel i best).adjust best (· + degree)

/-- Every node is visited once, in order. -/
def sweep (net : Network α) (resolution volume : α) (s : Labelling α) : Labelling α :=
  (List.range net.size).foldl (visit net resolution volume) { s with moved := false }

/-- Sweeps until no node moves, and at most so many. -/
def settle (net : Network α) (resolution volume : α) : Nat → Labelling α → Labelling α
  | 0, s => s
  | sweeps + 1, s =>
    let next := s.sweep net resolution volume
    if next.moved then settle net resolution volume sweeps next else next

end Labelling

/-- A network whose nodes stand for groups of the nodes that the search began with. -/
structure Level (α : Type) where
  net : Network α
  groups : Array (List Nat)

namespace Level

variable {α : Type} [Weight α]

/-- The number of sweeps after which a level is taken as settled. -/
def maxSweeps : Nat := 100

/-- Every node is a group of its own. -/
def initial (net : Network α) : Level α where
  net := net
  groups := ((List.range net.size).map fun i => [i]).toArray

/-- The nodes behind a node of a level. -/
def group (level : Level α) (i : Nat) : List Nat := level.groups.getD i []

/-- The labels of the settled level. -/
def settled (level : Level α) (resolution volume : α) : Labelling α :=
  (Labelling.initial level.net).settle level.net resolution volume maxSweeps

/-- The level whose nodes are the nodes with equal labels, in the order in which labels appear. -/
def contract (level : Level α) (s : Labelling α) : Level α :=
  let nodes := List.range level.net.size
  let names := (nodes.map s.label).eraseDups
  let withLabel (c : Nat) := nodes.filter (s.label · == c)
  { net := ⟨(names.map fun c => Tally.ofList ((withLabel c).flatMap fun i =>
      (level.net.row i).map fun (j, w) => (names.idxOf (s.label j), w))).toArray⟩
    groups := (names.map fun c => (withLabel c).flatMap level.group).toArray }

/-- The last level that the search reaches. -/
def finish (resolution volume : α) (level : Level α) : Level α :=
  let next := level.contract (level.settled resolution volume)
  if next.net.size < level.net.size then finish resolution volume next else level
  termination_by level.net.size

end Level

namespace Network

variable {α : Type} [Weight α]

/-- The communities of a network at a resolution, as lists of its nodes. Without weight there is
nothing to search for, and every node stays by itself. -/
def communities (net : Network α) (resolution : α) : List (List Nat) :=
  if Weight.isZero net.totalWeight then net.singletons
  else ((Level.initial net).finish resolution net.volume).groups.toList

end Network

end CallAtlas
