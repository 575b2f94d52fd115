import CallAtlas.Proofs.Community.Division

/-!
# Communities are better than single nodes

The modularity of communities is computed on the network that the search begins with: the share of
the weight that is inside each community, less the resolution times the square of its share of all
degrees. The search only ever sees the networks of its levels. There a node has the weights and the
degree of the nodes behind it, so the worth of a level, divided by the volume, is the modularity of
its groups. Since the search ends where it began or at a level that is worth more, its communities
are single nodes or have higher modularity than these.
-/

open Finset (range)

namespace CallAtlas

namespace Network

variable (net : Network Rat)

/-- The weight between the nodes of a list, where each edge is counted from both ends. -/
def inside (nodes : List Nat) : Rat :=
  (nodes.map fun i => (nodes.map (net.weight i)).sum).sum

/-- The summed degree of the nodes of a list. -/
def mass (nodes : List Nat) : Rat := (nodes.map net.degree).sum

/-- The modularity of communities at a resolution. -/
def modularity (resolution : Rat) (communities : List (List Nat)) : Rat :=
  (communities.map fun nodes =>
    net.inside nodes / net.volume - resolution * (net.mass nodes / net.volume) ^ 2).sum

end Network

namespace Level

variable {level : Level Rat} {net : Network Rat}

variable (level net) in
/-- The nodes of a level have the weights and the degrees of the nodes behind them. -/
structure Represents : Prop where
  closed : level.net.Closed
  weight_eq : ∀ k l, level.net.weight k l =
    ((level.group k).map fun i => ((level.group l).map (net.weight i)).sum).sum
  degree_eq : ∀ k, level.net.degree k = net.mass (level.group k)

theorem group_initial (net : Network Rat) (i : Nat) :
    (initial net).group i = if i < net.size then [i] else [] := by
  by_cases hi : i < net.size <;> simp [group, initial, hi]

theorem initial_represents (closed : net.Closed) : (initial net).Represents net := by
  have outside : ∀ k l, ¬ (k < net.size ∧ l < net.size) → net.weight k l = 0 := by
    intro k l beyond
    apply Network.weight_eq_zero
    intro joined
    exact beyond ⟨Network.lt_size_of_joins joined, closed k l joined⟩
  refine ⟨closed, fun k l => ?_, fun k => ?_⟩
  · show net.weight k l = _
    rw [group_initial, group_initial]
    by_cases inside : k < net.size ∧ l < net.size
    · simp [inside]
    · rw [outside k l inside]
      by_cases hk : k < net.size
      · have hl : ¬ l < net.size := fun hl => inside ⟨hk, hl⟩
        simp [hk, hl]
      · simp [hk]
  · show net.degree k = _
    rw [group_initial]
    by_cases hk : k < net.size
    · simp [hk, Network.mass]
    · rw [if_neg hk, Network.degree_eq closed]
      exact Finset.sum_eq_zero fun l _ => outside k l fun inside => hk inside.1

theorem Represents.contract (h : level.Represents net) (s : Labelling Rat) :
    (level.contract s).Represents net := by
  refine ⟨closed_contract h.closed s, fun k l => ?_, fun k => ?_⟩
  · simp only [weight_contract h.closed, h.weight_eq, group_contract, sum_flatMap]
    refine Finset.sum_congr rfl fun i _ => ?_
    exact Multiset.sum_map_sum_map ((range level.net.size).filter _).1
      (level.group i : Multiset Nat)
  · rw [degree_contract h.closed, group_contract, Network.mass, sum_flatMap]
    simp only [h.degree_eq]
    rfl

theorem finish_represents (closed : net.Closed) (resolution volume : Rat) :
    ((initial net).finish resolution volume).Represents net := by
  refine finish_induction (motive := fun level => level.Represents net) ?_
    (initial_represents closed)
  intro level before _
  exact before.contract _

/-- The worth of a level is the modularity of its groups, times the volume. -/
theorem Represents.worth_eq (h : level.Represents net) {nodes : List Nat}
    (covers : level.Covers nodes) (filled : net.volume ≠ 0) (resolution : Rat) :
    level.net.worth resolution net.volume id =
      net.volume * net.modularity resolution level.groups.toList := by
  have each : ∀ k, level.net.surplus resolution net.volume k k =
      net.volume * (net.inside (level.group k) / net.volume -
        resolution * (net.mass (level.group k) / net.volume) ^ 2) := by
    intro k
    have inner : level.net.weight k k = net.inside (level.group k) := h.weight_eq k k
    rw [Network.surplus, inner, h.degree_eq]
    field_simp
  rw [Network.worth_id, Network.modularity, groups_toList covers, List.map_map,
    ← List.sum_map_mul_left]
  exact Finset.sum_congr rfl fun k _ => each k

end Level

namespace Network

variable {net : Network Rat}

/-- The communities of a simple network with an edge share out its nodes. They are all single nodes,
or their modularity is higher than that of single nodes; in no case is it lower. -/
theorem modularity_communities_ge_singletons (net : Network Rat) (simple : net.Simple)
    (edge : net.hasEdge = true) (resolution : Rat) :
    SharesOut (List.range net.size) (net.communities resolution) ∧
      net.modularity resolution net.singletons ≤
        net.modularity resolution (net.communities resolution) ∧
      (net.communities resolution = net.singletons ∨
        net.modularity resolution net.singletons <
          net.modularity resolution (net.communities resolution)) := by
  refine ⟨communities_sharesOut net resolution, ?_⟩
  have positive := simple.volume_pos edge
  have first : (Level.initial net).groups.toList = net.singletons := Level.groups_initial net
  have start := (Level.initial_represents simple.closed).worth_eq (Level.initial_covers net)
    positive.ne' resolution
  have last := (Level.finish_represents simple.closed resolution net.volume).worth_eq
    (Level.finish_covers (Level.initial_covers net) resolution net.volume) positive.ne' resolution
  have improves : (Level.initial net).Improves ((Level.initial net).finish resolution net.volume)
      resolution net.volume :=
    Level.finish_improves simple.toUndirected resolution net.volume
  rw [first] at start
  cases improves.raised with
  | inl same =>
      have unchanged : net.communities resolution = net.singletons := by
        rw [communities_of_volume_ne_zero positive.ne', same, first]
      rw [unchanged]
      exact ⟨le_rfl, .inl rfl⟩
  | inr more =>
      have more : (Level.initial net).net.worth resolution net.volume id <
          ((Level.initial net).finish resolution net.volume).net.worth resolution net.volume id :=
        more
      rw [start, last, ← communities_of_volume_ne_zero positive.ne'] at more
      have higher := lt_of_mul_lt_mul_left more positive.le
      exact ⟨higher.le, .inr higher⟩

/-- Two functions that call each other are one community at a low resolution, and better so. -/
theorem modularity_communities_mutualCalls :
    (ofGraph Rat CallGraph.mutualCalls).communities (1 / 2) = [[0, 1]] ∧
      (ofGraph Rat CallGraph.mutualCalls).modularity (1 / 2) [[0], [1]] <
        (ofGraph Rat CallGraph.mutualCalls).modularity (1 / 2) [[0, 1]] := by
  have joined : (ofGraph Rat CallGraph.mutualCalls).communities (1 / 2) = [[0, 1]] := by
    decide +kernel
  have alone : (ofGraph Rat CallGraph.mutualCalls).singletons = [[0], [1]] := by decide +kernel
  have edge : (ofGraph Rat CallGraph.mutualCalls).hasEdge = true := by decide +kernel
  obtain ⟨-, -, better⟩ := modularity_communities_ge_singletons _
    (simple_ofGraph CallGraph.mutualCalls) edge (1 / 2)
  rw [joined, alone] at better
  exact ⟨joined, better.resolve_left (by decide)⟩

end Network

end CallAtlas
