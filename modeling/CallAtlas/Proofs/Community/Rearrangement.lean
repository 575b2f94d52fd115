import CallAtlas.Cluster
import CallAtlas.Proofs.Community.Simple

/-!
# Networks with rearranged rows

The rows of a network may be gathered in any order. With exact arithmetic this makes no difference
for the search: degrees are sums, and the weights around a node and between the nodes of the next
level are gathered into tallies, which stand in the order of their numbers. So two networks that
differ in the order of their rows alone have the same labels after every visit of a node, and the
same next level. The part between some nodes is made of the same edges, so the same holds when
communities are divided.
-/

namespace CallAtlas

namespace Network

/-- Two networks have the same rows, up to the order in each of them. -/
structure Rearranges {α : Type} (net other : Network α) : Prop where
  size : net.size = other.size
  row : ∀ i, (net.row i).Perm (other.row i)

namespace Rearranges

variable {net other : Network Rat}

theorem degree_eq (h : net.Rearranges other) : net.degree = other.degree := by
  funext i
  rw [degree, degree, Weight.sum_eq, Weight.sum_eq]
  exact ((h.row i).map _).sum_eq

theorem volume_eq (h : net.Rearranges other) : net.volume = other.volume := by
  rw [volume, volume, h.size, h.degree_eq]

/-- The parts between the same nodes are made of the same edges, so they are equal. -/
theorem restrict_eq (h : net.Rearranges other) (nodes : List Nat) :
    net.restrict nodes = other.restrict nodes := by
  apply ofEdges_eq_of_perm (within_edgesAmong net nodes)
  exact List.Perm.flatMap_left nodes fun i _ => (h.row i).filterMap _

end Rearranges

end Network

namespace Labelling

variable {net other : Network Rat}

theorem weightsNear_eq (h : net.Rearranges other) (s : Labelling Rat) (i : Nat) :
    weightsNear net s i = weightsNear other s i :=
  Tally.ofList_eq_of_perm (((h.row i).filter _).map _)

/-- A node moves to the same label. -/
theorem visit_congr (h : net.Rearranges other) (resolution volume : Rat) :
    visit net resolution volume = visit other resolution volume := by
  funext s i
  rw [visit, visit, h.degree_eq, weightsNear_eq h]

theorem sweep_congr (h : net.Rearranges other) (resolution volume : Rat) (s : Labelling Rat) :
    s.sweep net resolution volume = s.sweep other resolution volume := by
  rw [sweep, sweep, h.size, visit_congr h]

theorem settle_congr (h : net.Rearranges other) (resolution volume : Rat) (sweeps : Nat)
    (s : Labelling Rat) :
    s.settle net resolution volume sweeps = s.settle other resolution volume sweeps := by
  induction sweeps generalizing s with
  | zero => rfl
  | succ sweeps ih => simp only [settle, sweep_congr h, ih]

theorem initial_congr (h : net.Rearranges other) : initial net = initial other := by
  rw [initial, initial, h.size, h.degree_eq]

end Labelling

namespace Level

variable {level other : Level Rat}

theorem settled_congr (h : level.net.Rearranges other.net) (resolution volume : Rat) :
    level.settled resolution volume = other.settled resolution volume := by
  rw [settled, settled, Labelling.initial_congr h, Labelling.settle_congr h]

/-- The next level is the same, for its rows are tallies. -/
theorem contract_congr (h : level.net.Rearranges other.net) (groups : level.groups = other.groups)
    (s : Labelling Rat) : level.contract s = other.contract s := by
  have gathered : level.group = other.group := by
    funext i
    rw [group, group, groups]
  have rows (names : List Nat) (c : Nat) :
      Tally.ofList (((List.range other.net.size).filter (s.label · == c)).flatMap fun i =>
        (level.net.row i).map fun entry => (names.idxOf (s.label entry.1), entry.2)) =
      Tally.ofList (((List.range other.net.size).filter (s.label · == c)).flatMap fun i =>
        (other.net.row i).map fun entry => (names.idxOf (s.label entry.1), entry.2)) := by
    apply Tally.ofList_eq_of_perm
    exact List.Perm.flatMap_left _ fun i _ => (h.row i).map _
  simp only [contract, h.size, gathered, rows]

theorem groups_finish_congr (h : level.net.Rearranges other.net)
    (groups : level.groups = other.groups) (resolution volume : Rat) :
    (level.finish resolution volume).groups = (other.finish resolution volume).groups := by
  -- The next levels are equal and not only alike, so from there on it is one search.
  rw [finish, settled_congr h, contract_congr h groups, h.size]
  conv_rhs => rw [finish]
  split
  · rfl
  · exact groups

end Level

namespace Network.Rearranges

variable {net other : Network Rat}

theorem communities_eq (h : net.Rearranges other) (resolution : Rat) :
    net.communities resolution = other.communities resolution := by
  have groups : (Level.initial net).groups = (Level.initial other).groups := by
    rw [Level.initial, Level.initial, h.size]
  rw [communities, communities, totalWeight, totalWeight, h.volume_eq, singletons, singletons,
    h.size, Level.groups_finish_congr h groups]

theorem tune_eq (h : net.Rearranges other) (limit doublings : Nat) (resolution : Rat) :
    net.tune limit doublings resolution = other.tune limit doublings resolution := by
  induction doublings generalizing resolution with
  | zero => rw [tune, tune, h.communities_eq]
  | succ doublings ih => rw [tune, tune, h.communities_eq, ih]

/-- A community is divided in the same way. -/
theorem split_eq (h : net.Rearranges other) (limit : Nat) (community : List Nat) :
    net.split limit community = other.split limit community := by
  fun_induction Network.split net limit community with
  | case1 community members inner stop =>
      rw [split, if_pos (h.restrict_eq members ▸ stop)]
  | case2 community members inner go undivided =>
      rw [split, if_neg (h.restrict_eq members ▸ go), ← h.restrict_eq members, undivided]
  | case3 community members inner go parts found ih =>
      rw [split, if_neg (h.restrict_eq members ▸ go), ← h.restrict_eq members, found]
      apply List.flatMap_congr
      intro part _
      split
      · next smaller => exact ih part smaller
      · rfl

theorem partition?_eq (h : net.Rearranges other) (limit : Nat) (resolution : Rat) :
    net.partition? limit resolution = other.partition? limit resolution := by
  have splits : net.split limit = other.split limit := funext (h.split_eq limit)
  rw [partition?, partition?, h.tune_eq, splits]

/-- The ends inside a community are as many. -/
theorem innerEnds_eq (h : net.Rearranges other) (members : List Nat) :
    Cluster.innerEnds net members = Cluster.innerEnds other members := by
  apply List.Perm.length_eq
  exact List.Perm.flatMap_left _ fun i _ => (h.row i).filter _

end Network.Rearranges

end CallAtlas
