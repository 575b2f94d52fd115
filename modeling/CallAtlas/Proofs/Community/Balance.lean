import CallAtlas.Proofs.Community.Course
import CallAtlas.Proofs.Community.Edges
import CallAtlas.Proofs.Community.Quality

/-!
# The search keeps its sums

The search never computes a sum anew. The mass of a label is adjusted around every move, and the
weights of a level are those of the level before, gathered by label. With exact arithmetic all of
these stay what they stand for: between any two visits the mass of a label is the degree of the
nodes that have it, and on every level a node has the degree of the nodes behind it, edges are seen
alike from both ends, and the degrees sum to twice the weight of the edges that the network is made
of.
-/

open Finset (range)

namespace CallAtlas

namespace Labelling

/-- Masses are summed degrees between any two visits. -/
theorem midway_consistent {net : Network Rat} (closed : net.Closed) (resolution volume : Rat)
    (sweeps : Nat) {visits : Nat} (within : visits ≤ net.size) :
    (midway net resolution volume sweeps visits).Consistent net := by
  apply midway_induction (motive := fun s => s.Consistent net) _ _ (initial_consistent net) sweeps
    within
  · exact fun s h => ⟨⟨h.labels_size, h.masses_size, h.label_lt⟩, h.mass_eq⟩
  · exact fun s i hi h => h.visit hi closed

end Labelling

namespace Level

variable {level : Level Rat} {net : Network Rat} {edges : List (Network.Edge Rat)}
variable {resolution : Rat} {n : Nat}

theorem mirrored_contract (mirrored : level.net.Mirrored) (s : Labelling Rat) :
    (level.contract s).net.Mirrored := by
  refine ⟨undirected_contract mirrored.toUndirected s, fun k => ?_, fun k l above => ?_⟩
  · rw [row_contract]
    exact Tally.increasing_ofList _
  · obtain ⟨i, j, joined, rfl, rfl⟩ := joins_contract.mp above
    exact joins_contract.mpr ⟨j, i, mirrored.joins_symm i j joined, rfl, rfl⟩

/-- What contractions keep: the level is mirrored, its nodes stand for those behind them, and the
volume is that of the network which the search began with. -/
structure Keeps (level : Level Rat) (net : Network Rat) : Prop where
  mirrored : level.net.Mirrored
  represents : level.Represents net
  volume_eq : level.net.volume = net.volume

theorem initial_keeps (mirrored : net.Mirrored) : (initial net).Keeps net :=
  ⟨mirrored, initial_represents mirrored.closed, rfl⟩

theorem Keeps.contract (keeps : level.Keeps net) (s : Labelling Rat) :
    (level.contract s).Keeps net := by
  refine ⟨mirrored_contract keeps.mirrored s, keeps.represents.contract s, ?_⟩
  rw [volume_contract keeps.mirrored.closed, keeps.volume_eq]

theorem keeps_of_after? (mirrored : net.Mirrored) {volume : Rat}
    (reached : (initial net).after? resolution volume n = some level) : level.Keeps net := by
  refine after?_induction (motive := fun _ level => level.Keeps net) (initial_keeps mirrored) ?_
    reached
  intro _ current next keeps follows
  obtain ⟨-, rfl⟩ := next?_eq_some_iff.mp follows
  exact keeps.contract _

/-- The sums that the search relies on, on a level of the search in a network made of edges: entries
are the same from both ends, a node has the degree of the nodes behind it, degrees sum to twice the
weight of the edges, and between any two visits the mass of a label is the degree of its nodes. -/
structure Balanced (level : Level Rat) (net : Network Rat) (edges : List (Network.Edge Rat))
    (resolution : Rat) : Prop where
  mem_row_iff : ∀ k l weight, (l, weight) ∈ level.net.row k ↔ (k, weight) ∈ level.net.row l
  degree_eq : ∀ k, level.net.degree k = ((level.group k).map net.degree).sum
  sum_degrees : ∑ k ∈ range level.net.size, level.net.degree k = 2 * (edges.map (·.weight)).sum
  mass_eq : ∀ sweeps, ∀ visits ≤ level.net.size, ∀ c,
    let s := Labelling.midway level.net resolution net.volume sweeps visits
    s.mass c = ∑ j ∈ range level.net.size with s.label j = c, level.net.degree j

/-- Every level of a search in a network made of edges is balanced. -/
theorem balanced_of_after? (net : Network Rat) (edges : List (Network.Edge Rat))
    (made : net.MadeOf edges) (resolution : Rat) (n : Nat) (level : Level Rat)
    (reached : (initial net).after? resolution net.volume n = some level) :
    level.Balanced net edges resolution := by
  have keeps := keeps_of_after? made.mirrored reached
  refine ⟨?_, keeps.represents.degree_eq, ?_, ?_⟩
  · intro k l weight
    exact keeps.mirrored.mem_row_iff
  · rw [← Network.volume_eq, keeps.volume_eq, made.volume_eq]
  · intro sweeps visits within c
    have closed := keeps.mirrored.closed
    have consistent := Labelling.midway_consistent closed resolution net.volume sweeps within
    exact consistent.mass_eq c

/-- Two edges with a node in common, of weights two and three. -/
def twoEdges : List (Network.Edge Rat) := [⟨0, 1, 2⟩, ⟨1, 2, 3⟩]

/-- The three nodes become fewer, and the degrees still sum to ten. -/
theorem balanced_twoEdges :
    let net := Network.ofEdges 3 twoEdges
    net.MadeOf twoEdges ∧ ∃ level, (initial net).after? 1 net.volume 1 = some level ∧
      level.net.size < net.size ∧ level.Balanced net twoEdges 1 ∧
      ∑ k ∈ range level.net.size, level.net.degree k = 10 := by
  intro net
  have made : net.MadeOf twoEdges := ⟨by decide, rfl⟩
  have goesOn : ((initial net).after? 1 net.volume 1).isSome = true := by decide +kernel
  obtain ⟨level, reached⟩ := Option.isSome_iff_exists.mp goesOn
  have balanced := balanced_of_after? net twoEdges made 1 1 level reached
  have total : 2 * (twoEdges.map (·.weight)).sum = 10 := by decide +kernel
  have fewer : level.net.size + 1 ≤ net.size := size_add_le_of_after? reached
  exact ⟨made, level, reached, fewer, balanced, balanced.sum_degrees.trans total⟩

end Level

end CallAtlas
