import CallAtlas.Proofs.Community.Modularity
import CallAtlas.Proofs.Community.Simple
import Mathlib.Algebra.Order.BigOperators.Group.Finset
import Mathlib.Tactic.FieldSimp

/-!
# Communities with an edge can be divided

At resolution two, a simple network with an edge has several communities. No node has more than half
of the volume, since each edge at it has another end; so with a label for each node, worth is not
below minus the volume. A single community is worth exactly that, and it is not where the search
began, so it would have to be worth more.

Hence the first attempt at a division succeeds. Each part is smaller than what is divided, and the
division goes on until a part is small enough or has no edge.
-/

open Finset (range)

namespace CallAtlas.Network

variable {net : Network Rat} {i : Nat}

namespace Simple

variable (simple : net.Simple)

include simple

theorem weight_nonneg (i j : Nat) : 0 ≤ net.weight i j := by
  by_cases joined : net.Joins i j
  · exact (simple.positive i j joined).le
  · exact (weight_eq_zero joined).ge

theorem degree_nonneg (i : Nat) : 0 ≤ net.degree i := by
  rw [degree_eq simple.closed]
  exact Finset.sum_nonneg fun j _ => simple.weight_nonneg i j

theorem weight_le_degree {j : Nat} (hj : j < net.size) (i : Nat) :
    net.weight i j ≤ net.degree i := by
  rw [degree_eq simple.closed]
  exact Finset.single_le_sum (fun k _ => simple.weight_nonneg i k) (Finset.mem_range.mpr hj)

/-- No node has more than half of the volume. -/
theorem two_mul_degree_le (hi : i < net.size) : 2 * net.degree i ≤ net.volume := by
  have others : net.degree i ≤ ∑ j ∈ (range net.size).erase i, net.degree j := by
    calc net.degree i
        = ∑ j ∈ (range net.size).erase i, net.weight i j := by
          rw [degree_eq simple.closed, Finset.sum_erase _ (simple.weight_self i)]
      _ = ∑ j ∈ (range net.size).erase i, net.weight j i :=
          Finset.sum_congr rfl fun j _ => simple.symm i j
      _ ≤ ∑ j ∈ (range net.size).erase i, net.degree j :=
          Finset.sum_le_sum fun j _ => simple.weight_le_degree hi j
  have total := Finset.add_sum_erase _ net.degree (Finset.mem_range.mpr hi)
  rw [volume_eq]
  linarith

theorem volume_pos (edge : net.hasEdge = true) : 0 < net.volume := by
  obtain ⟨i, j, joined⟩ := hasEdge_iff.mp edge
  have own := simple.positive i j joined
  have degree := simple.weight_le_degree (simple.closed i j joined) i
  have half := simple.two_mul_degree_le (lt_size_of_joins joined)
  linarith

/-- There is weight where there is an edge, and only there. -/
theorem hasEdge_iff_volume_ne_zero : net.hasEdge = true ↔ net.volume ≠ 0 := by
  constructor
  · intro edge
    exact (simple.volume_pos edge).ne'
  · intro filled
    by_contra edgeless
    apply filled
    rw [volume_eq]
    refine Finset.sum_eq_zero fun i _ => ?_
    rw [degree_eq simple.closed]
    exact Finset.sum_eq_zero fun j _ => weight_eq_zero fun joined =>
      edgeless (hasEdge_iff.mpr ⟨i, j, joined⟩)

/-- Labels of their own are worth at least minus the volume. -/
theorem neg_volume_le_worth (edge : net.hasEdge = true) :
    -net.volume ≤ net.worth 2 net.volume id := by
  have positive := simple.volume_pos edge
  have each : ∀ i ∈ range net.size, -net.degree i ≤ net.surplus 2 net.volume i i := by
    intro i hi
    have half := simple.two_mul_degree_le (Finset.mem_range.mp hi)
    have expected : 2 * net.degree i * net.degree i / net.volume ≤ net.degree i := by
      rw [div_le_iff₀ positive, mul_comm]
      exact mul_le_mul_of_nonneg_left half (simple.degree_nonneg i)
    rw [surplus, simple.weight_self]
    linarith
  rw [worth_id]
  calc -net.volume
      = ∑ i ∈ range net.size, -net.degree i := by rw [volume_eq, Finset.sum_neg_distrib]
    _ ≤ ∑ i ∈ range net.size, net.surplus 2 net.volume i i := Finset.sum_le_sum each

end Simple

/-- A single node is worth minus the volume. -/
theorem worth_of_size_one (closed : net.Closed) (single : net.size = 1) (filled : net.volume ≠ 0) :
    net.worth 2 net.volume id = -net.volume := by
  have degree : net.degree 0 = net.weight 0 0 := by
    rw [degree_eq closed, single, Finset.sum_range_one]
  have volume : net.volume = net.weight 0 0 := by
    rw [volume_eq, single, Finset.sum_range_one, degree]
  rw [worth_id, single, Finset.sum_range_one, surplus, degree, ← volume]
  field_simp
  ring

theorem length_communities (filled : net.volume ≠ 0) (resolution : Rat) :
    (net.communities resolution).length =
      ((Level.initial net).finish resolution net.volume).net.size := by
  rw [communities_of_volume_ne_zero filled]
  exact (Level.finish_covers (Level.initial_covers net) resolution net.volume).size

/-- A simple network with an edge has several communities at resolution two. -/
theorem Simple.one_lt_length_communities (simple : net.Simple) (edge : net.hasEdge = true) :
    1 < (net.communities 2).length := by
  have positive := simple.volume_pos edge
  have improves : (Level.initial net).Improves ((Level.initial net).finish 2 net.volume)
      2 net.volume :=
    Level.finish_improves simple.toUndirected 2 net.volume
  rw [length_communities positive.ne']
  generalize (Level.initial net).finish 2 net.volume = last at improves
  have volume : last.net.volume = net.volume := improves.volume_eq
  by_contra few
  have size : last.net.size = 0 ∨ last.net.size = 1 := by omega
  cases size with
  | inl empty =>
      rw [← volume, volume_eq, empty, Finset.sum_range_zero] at positive
      exact absurd positive (lt_irrefl 0)
  | inr single =>
      have worth := worth_of_size_one improves.undirected.closed single (by linarith)
      rw [volume] at worth
      cases improves.raised with
      | inl same =>
          -- The search has not left a network of one node, but then there is no edge.
          subst same
          have single : net.size = 1 := single
          obtain ⟨i, j, joined⟩ := hasEdge_iff.mp edge
          have hi := lt_size_of_joins joined
          have hj := simple.closed i j joined
          obtain rfl : i = j := by omega
          exact simple.loopless i joined
      | inr more =>
          have start := simple.neg_volume_le_worth edge
          rw [worth] at more
          exact absurd more (not_lt.mpr start)

/-- The first attempt at a division of a simple network with an edge succeeds. -/
theorem Simple.division?_eq_some (simple : net.Simple) (edge : net.hasEdge = true) :
    net.division? maxAttempts (Weight.ofNat 2) = some (net.communities 2) := by
  have several := simple.one_lt_length_communities edge
  have two : (Weight.ofNat 2 : Rat) = 2 := Nat.cast_ofNat
  rw [two, maxAttempts, division?, if_pos several]

theorem Simple.restrict_mergeSort (simple : net.Simple) {community : List Nat}
    (distinct : community.Nodup) : (net.restrict community.mergeSort).Simple :=
  simple.restrict ((List.mergeSort_perm community _).nodup_iff.mpr distinct)

/-- Every part into which a community is divided is small enough or has no edge. -/
theorem Simple.split_within (simple : net.Simple) (limit : Nat) {community : List Nat}
    (distinct : community.Nodup) :
    ∀ part ∈ net.split limit community,
      part.length ≤ limit ∨ (net.restrict part.mergeSort).hasEdge = false := by
  fun_induction split net limit community with
  | case1 community members inner stop =>
      intro part hpart
      have edges := (simple.restrict_mergeSort distinct).hasEdge_iff_volume_ne_zero
      rw [List.mem_singleton.mp hpart]
      rw [Bool.or_eq_true, decide_eq_true_eq, isZero_totalWeight_iff] at stop
      exact stop.imp_right fun empty => Bool.eq_false_iff.mpr fun edge => edges.mp edge empty
  | case2 community members inner go undivided =>
      have part : inner.Simple := simple.restrict_mergeSort distinct
      rw [Bool.or_eq_true, not_or, isZero_totalWeight_iff] at go
      rw [part.division?_eq_some (part.hasEdge_iff_volume_ne_zero.mpr go.2)] at undivided
      cases undivided
  | case3 community members inner go parts found ih =>
      intro part hpart
      obtain ⟨piece, hpiece, hpart⟩ := List.mem_flatMap.mp hpart
      have named := named_sharesOut found
      have listed := List.mem_map_of_mem (f := List.map fun i => members.getD i 0) hpiece
      have several := (exists_communities_of_division? found).1
      have shorter := named.length_lt_of_mem (by simpa using several) listed
      rw [List.length_map] at shorter
      simp only [if_pos shorter] at hpart
      exact ih piece shorter (named.nodup_of_mem distinct listed) part hpart

theorem Simple.partition?_within (simple : net.Simple) {limit : Nat} {resolution : Rat}
    {communities : List (List Nat)} (found : net.partition? limit resolution = some communities) :
    ∀ community ∈ communities,
      community.length ≤ limit ∨ (net.restrict community).hasEdge = false := by
  intro community hcommunity
  obtain ⟨chosen, whole, hwhole, part, hpart, rfl⟩ :=
    exists_split_of_mem_partition? found hcommunity
  have distinct : whole.Nodup :=
    (communities_sharesOut net chosen).nodup_of_mem List.nodup_range hwhole
  rw [List.length_mergeSort]
  exact simple.split_within limit distinct part hpart

end CallAtlas.Network
