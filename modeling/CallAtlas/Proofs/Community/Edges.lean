import CallAtlas.Proofs.Community.Weights

/-!
# Networks made of edges

A network is made by adding edges to nodes that have none. An edge is entered at both of its ends,
and an edge between the same nodes as an earlier one adds to its weight. `row_ofEdges` says what
comes of it: a row is the tally of what the edges enter there. So two nodes are joined where an edge
links them, and with exact arithmetic the weight between them is that of these edges.

Each row of such a network has a neighbour once, and two nodes have each other as neighbours, with
the same weight; a network with these properties is `Mirrored`. The degrees sum to twice the weight
of all edges.
-/

open Finset (range)

namespace CallAtlas.Network

variable {α : Type}

/-- The two nodes are the ends of an edge. -/
def Edge.Links (edge : Edge α) (i j : Nat) : Prop :=
  i = edge.one ∧ j = edge.other ∨ i = edge.other ∧ j = edge.one

theorem Edge.Links.symm {edge : Edge α} {i j : Nat} (h : edge.Links i j) : edge.Links j i :=
  (Or.imp And.symm And.symm h).symm

/-- What an edge enters in the row of a node. A loop is entered twice. -/
def Edge.entries (edge : Edge α) (i : Nat) : List (Nat × α) :=
  (if i = edge.one then [(edge.other, edge.weight)] else []) ++
    if i = edge.other then [(edge.one, edge.weight)] else []

theorem Edge.mem_keys_entries {edge : Edge α} {i j : Nat} :
    j ∈ Tally.keys (edge.entries i) ↔ edge.Links i j := by
  rw [Tally.keys, entries, List.map_append, List.mem_append, Links]
  apply or_congr
  · split <;> simp [*]
  · split <;> simp [*]

@[simp] theorem row_blank (size i : Nat) : (blank α size).row i = [] := by
  by_cases hi : i < size <;> simp [blank, row, hi]

/-- Networks of the same size with the same rows are equal. -/
theorem eq_of_row_eq {net other : Network α} (size : net.size = other.size)
    (rows : ∀ i, net.row i = other.row i) : net = other := by
  obtain ⟨left⟩ := net
  obtain ⟨right⟩ := other
  congr 1
  apply Array.ext size
  intro i hi hj
  simpa [row, hi, hj] using rows i

/-- All ends of edges are below a number. -/
def Within (size : Nat) (edges : List (Edge α)) : Prop :=
  ∀ edge ∈ edges, edge.one < size ∧ edge.other < size

section Making

variable [Weight α] {net : Network α} {size i j k l : Nat} {edge : Edge α} {weight : α}
variable {edges : List (Edge α)}

/-- A network is made of edges between its nodes. -/
structure MadeOf (net : Network α) (edges : List (Edge α)) : Prop where
  inside : ∀ edge ∈ edges, edge.one < net.size ∧ edge.other < net.size
  eq_ofEdges : net = ofEdges net.size edges

theorem row_addEnd (hi : i < net.size) :
    (net.addEnd i j weight).row k = if k = i then (net.row k).add j weight else net.row k := by
  have inside : i < net.rows.size := hi
  by_cases same : k = i
  · subst same
    simp [addEnd, row, Array.getElem_modify, inside]
  · simp [addEnd, row, Array.getElem?_modify, Ne.symm same, same]

theorem row_addEdge (one : edge.one < net.size) (other : edge.other < net.size) :
    (net.addEdge edge).row k =
      (edge.entries k).foldl (fun tally entry => tally.add entry.1 entry.2) (net.row k) := by
  rw [addEdge, row_addEnd (by simpa using other), row_addEnd one, Edge.entries, List.foldl_append]
  split <;> split <;> rfl

/-- A row is the tally of what the edges enter there, in the order of the edges. -/
theorem row_ofEdges (inside : Within size edges) (k : Nat) :
    (ofEdges size edges).row k = Tally.ofList (edges.flatMap (·.entries k)) := by
  have gathered : ∀ net : Network α, Within net.size edges → (edges.foldl addEdge net).row k =
      (edges.flatMap (·.entries k)).foldl (fun tally entry => tally.add entry.1 entry.2)
        (net.row k) := by
    clear inside
    induction edges with
    | nil => exact fun net _ => rfl
    | cons edge rest ih =>
        intro net inside
        obtain ⟨⟨one, other⟩, inside⟩ := List.forall_mem_cons.mp inside
        have later : Within (net.addEdge edge).size rest := by
          rw [size_addEdge]
          exact inside
        rw [List.foldl_cons, ih _ later, row_addEdge one other, List.flatMap_cons,
          List.foldl_append]
  have start := gathered (blank α size)
  rw [row_blank] at start
  exact start (by simpa [blank, Network.size] using inside)

theorem increasing_row_ofEdges (inside : Within size edges) (k : Nat) :
    Tally.Increasing ((ofEdges size edges).row k) := by
  rw [row_ofEdges inside]
  exact Tally.increasing_ofList _

/-- Two nodes are joined when an edge links them. -/
theorem joins_ofEdges (inside : Within size edges) :
    (ofEdges size edges).Joins k l ↔ ∃ edge ∈ edges, edge.Links k l := by
  rw [Joins, row_ofEdges inside, Tally.mem_keys_ofList, Tally.keys, List.map_flatMap,
    List.mem_flatMap]
  simp only [← Edge.mem_keys_entries]
  rfl

theorem closed_ofEdges (inside : Within size edges) : (ofEdges size edges).Closed := by
  intro k l joined
  obtain ⟨edge, listed, links⟩ := (joins_ofEdges inside).mp joined
  rw [size_ofEdges]
  rcases links with ⟨-, rfl⟩ | ⟨-, rfl⟩
  · exact (inside edge listed).2
  · exact (inside edge listed).1

end Making

section Exact

variable {net : Network Rat} {size i j k l : Nat} {edges more : List (Edge Rat)}

/-- The weight that an edge gives to two nodes. -/
def Edge.between (edge : Edge Rat) (k l : Nat) : Rat :=
  (if k = edge.one ∧ l = edge.other then edge.weight else 0) +
    if k = edge.other ∧ l = edge.one then edge.weight else 0

theorem Edge.between_comm (edge : Edge Rat) (k l : Nat) : edge.between k l = edge.between l k := by
  simp only [between, and_comm]
  exact add_comm _ _

theorem Edge.total_entries (edge : Edge Rat) (k l : Nat) :
    Tally.total (edge.entries k) l = edge.between k l := by
  rw [entries, Tally.total_append, between]
  congr 1
  · by_cases same : k = edge.one <;> simp [same, eq_comm]
  · by_cases same : k = edge.other <;> simp [same, eq_comm]

theorem weight_ofEdges (inside : Within size edges) (k l : Nat) :
    (ofEdges size edges).weight k l = (edges.map fun edge => edge.between k l).sum := by
  rw [Network.weight, row_ofEdges inside, Tally.total_ofList, Tally.total_flatMap]
  simp only [Edge.total_entries]

/-- The order in which edges are added does not matter. -/
theorem ofEdges_eq_of_perm (inside : Within size edges) (rearranged : edges.Perm more) :
    ofEdges size edges = ofEdges size more := by
  have inside' : Within size more := fun edge listed => inside edge (rearranged.mem_iff.mpr listed)
  apply eq_of_row_eq (by simp)
  intro k
  rw [row_ofEdges inside, row_ofEdges inside']
  exact Tally.ofList_eq_of_perm (rearranged.flatMap_right _)

theorem undirected_ofEdges (inside : Within size edges) : (ofEdges size edges).Undirected := by
  refine ⟨closed_ofEdges inside, fun k l => ?_⟩
  rw [weight_ofEdges inside, weight_ofEdges inside]
  simp only [Edge.between_comm _ k l]

/-- The ends of an edge have twice its weight together. -/
theorem Edge.sum_between {edge : Edge Rat} (one : edge.one < size) (other : edge.other < size) :
    ∑ k ∈ range size, ∑ l ∈ range size, edge.between k l = 2 * edge.weight := by
  have entered : ∀ {a b : Nat}, a < size → b < size →
      ∑ k ∈ range size, ∑ l ∈ range size, (if k = a ∧ l = b then edge.weight else 0) =
        edge.weight := by
    intro a b ha hb
    simp [ite_and, Finset.sum_ite_eq', ha, hb]
  simp only [between, Finset.sum_add_distrib]
  rw [entered one other, entered other one]
  ring

/-- The degrees sum to twice the weight of all edges. -/
theorem volume_ofEdges (inside : Within size edges) :
    (ofEdges size edges).volume = 2 * (edges.map Edge.weight).sum := by
  have closed := closed_ofEdges inside
  rw [Network.volume_eq]
  simp only [degree_eq closed, size_ofEdges, weight_ofEdges inside]
  clear closed
  induction edges with
  | nil => simp
  | cons edge rest ih =>
      obtain ⟨⟨one, other⟩, inside⟩ := List.forall_mem_cons.mp inside
      simp only [List.map_cons, List.sum_cons, Finset.sum_add_distrib]
      rw [ih inside, Edge.sum_between one other]
      ring

/-- Each row has a neighbour once, in the order of numbers, and two nodes have each other as
neighbours, with the same weight. -/
structure Mirrored (net : Network Rat) : Prop extends net.Undirected where
  increasing : ∀ i, Tally.Increasing (net.row i)
  joins_symm : ∀ i j, net.Joins i j → net.Joins j i

/-- Two nodes have the same entry for each other. -/
theorem Mirrored.mem_row_iff (mirrored : net.Mirrored) {weight : Rat} :
    (j, weight) ∈ net.row i ↔ (i, weight) ∈ net.row j := by
  rw [Tally.mem_iff_total (mirrored.increasing i), Tally.mem_iff_total (mirrored.increasing j)]
  apply and_congr
  · exact ⟨mirrored.joins_symm i j, mirrored.joins_symm j i⟩
  · exact Eq.congr_left (mirrored.symm i j)

/-- A network made of edges is mirrored. -/
theorem MadeOf.mirrored (made : net.MadeOf edges) : net.Mirrored := by
  rw [made.eq_ofEdges]
  refine ⟨undirected_ofEdges made.inside, increasing_row_ofEdges made.inside, fun k l joined => ?_⟩
  obtain ⟨edge, listed, links⟩ := (joins_ofEdges made.inside).mp joined
  exact (joins_ofEdges made.inside).mpr ⟨edge, listed, links.symm⟩

theorem MadeOf.volume_eq (made : net.MadeOf edges) :
    net.volume = 2 * (edges.map Edge.weight).sum := by
  rw [← volume_ofEdges made.inside]
  exact congrArg Network.volume made.eq_ofEdges

end Exact

end CallAtlas.Network
