import CallAtlas.Proofs.Community.Weights
import Mathlib.Algebra.BigOperators.Field
import Mathlib.Tactic.Linarith

/-!
# Every move raises modularity

The surplus of two nodes is the weight between them above what their degrees let expect, and the
worth of labels is the surplus of all pairs of nodes with equal labels: their modularity, times the
volume. With exact arithmetic, the gain that a node compares is the surplus between it and the
other nodes with a label. Moving a node changes worth by twice the difference of two gains, so a
visit keeps all labels or raises worth.

The next level keeps worth. Its nodes with labels of their own are worth as much as the labels that
they stand for. So the last level is the first one, or it is worth more.
-/

open Finset (range)

namespace CallAtlas

/-- A sum over some of the first numbers, with one number taken out of it. -/
theorem sum_filter_range {n i : Nat} (hi : i < n) (p : Nat → Prop) [DecidablePred p]
    (f : Nat → Rat) :
    ∑ j ∈ range n with p j, f j =
      (if p i then f i else 0) + ∑ j ∈ (range n).erase i with p j, f j := by
  rw [Finset.sum_filter, Finset.sum_filter]
  exact (Finset.add_sum_erase _ (fun j => if p j then f j else 0) (Finset.mem_range.mpr hi)).symm

/-- A new label for one number does not change which of the others have some label. -/
theorem filter_update (n i : Nat) (label : Nat → Nat) (c d : Nat) :
    {j ∈ (range n).erase i | Function.update label i c j = d} =
      {j ∈ (range n).erase i | label j = d} := by
  refine Finset.filter_congr fun j hj => ?_
  rw [Function.update_of_ne (Finset.ne_of_mem_erase hj)]

namespace Network

variable (net : Network Rat) (resolution volume : Rat)

/-- The weight between two nodes above what their degrees let expect. -/
def surplus (i j : Nat) : Rat :=
  net.weight i j - resolution * net.degree j * net.degree i / volume

/-- The surplus between nodes with equal labels: the modularity of labels, times the volume. -/
def worth (label : Nat → Nat) : Rat :=
  ∑ i ∈ range net.size, ∑ j ∈ range net.size with label j = label i,
    net.surplus resolution volume i j

/-- The surplus between a node and the other nodes with a label. -/
def pull (label : Nat → Nat) (i c : Nat) : Rat :=
  ∑ j ∈ (range net.size).erase i with label j = c, net.surplus resolution volume i j

/-- Where every node has a label of its own, only the nodes by themselves count. -/
theorem worth_id :
    net.worth resolution volume id = ∑ i ∈ range net.size, net.surplus resolution volume i i := by
  refine Finset.sum_congr rfl fun i hi => ?_
  simp only [id, Finset.sum_filter]
  rw [Finset.sum_ite_eq', if_pos hi]

variable {net resolution volume} {label : Nat → Nat} {i : Nat}

theorem Undirected.surplus_symm (undirected : net.Undirected) (i j : Nat) :
    net.surplus resolution volume i j = net.surplus resolution volume j i := by
  rw [surplus, surplus, undirected.symm i j]
  ring

/-- A node adds to worth its surplus with itself, and from both sides its pull to its label. -/
theorem worth_eq (undirected : net.Undirected) (hi : i < net.size) :
    net.worth resolution volume label =
      ∑ a ∈ (range net.size).erase i, ∑ b ∈ (range net.size).erase i with label b = label a,
          net.surplus resolution volume a b +
        2 * net.pull resolution volume label i (label i) + net.surplus resolution volume i i := by
  have mirrored : ∑ a ∈ (range net.size).erase i,
      (if label i = label a then net.surplus resolution volume a i else 0) =
        net.pull resolution volume label i (label i) := by
    rw [pull, Finset.sum_filter]
    refine Finset.sum_congr rfl fun a _ => ?_
    rw [undirected.surplus_symm a i]
    exact if_congr eq_comm rfl rfl
  simp only [worth, sum_filter_range hi]
  rw [← Finset.add_sum_erase _ _ (Finset.mem_range.mpr hi), Finset.sum_add_distrib, mirrored,
    if_pos rfl, ← pull]
  ring

/-- A node with another label changes worth by twice the difference of its pulls. -/
theorem worth_update (undirected : net.Undirected) (hi : i < net.size) (c : Nat) :
    net.worth resolution volume (Function.update label i c) =
      net.worth resolution volume label +
        2 * (net.pull resolution volume label i c -
          net.pull resolution volume label i (label i)) := by
  have rest : ∑ a ∈ (range net.size).erase i, ∑ b ∈ (range net.size).erase i with
        Function.update label i c b = Function.update label i c a,
          net.surplus resolution volume a b =
      ∑ a ∈ (range net.size).erase i, ∑ b ∈ (range net.size).erase i with label b = label a,
          net.surplus resolution volume a b := by
    refine Finset.sum_congr rfl fun a ha => ?_
    rw [filter_update, Function.update_of_ne (Finset.ne_of_mem_erase ha)]
  have pulled : net.pull resolution volume (Function.update label i c) i c =
      net.pull resolution volume label i c := by
    rw [pull, pull, filter_update]
  rw [worth_eq undirected hi, worth_eq undirected hi, rest, Function.update_self, pulled]
  ring

end Network

namespace Labelling

variable {net : Network Rat} {s : Labelling Rat} {resolution volume : Rat} {i : Nat}

/-- The label chosen is the node's own, or its gain is above that of the node's own. -/
theorem bestLabel_gains (own : Nat) (ownGain : Rat) (gains : List (Nat × Rat)) :
    bestLabel own ownGain gains = own ∨
      ∃ candidate ∈ gains, bestLabel own ownGain gains = candidate.1 ∧ ownGain < candidate.2 := by
  let improves (best : Nat × Rat) : Prop := 0 ≤ best.2 ∧
    (best.1 = own ∨ ∃ candidate ∈ gains, best.1 = candidate.1 ∧ ownGain < candidate.2)
  obtain ⟨_, -, chosen⟩ : ∃ delta, improves (bestLabel own ownGain gains, delta) := by
    apply bestLabel_induction
    · exact ⟨le_rfl, .inl rfl⟩
    · rintro best candidate hcandidate ⟨nonneg, -⟩ better
      have above : 0 < candidate.2 - ownGain := nonneg.trans_lt (of_decide_eq_true better)
      exact ⟨above.le, .inr ⟨candidate, hcandidate, rfl, sub_pos.mp above⟩⟩
  exact chosen

variable (net s) in
/-- Labels are numbers of nodes, and each mass is the summed degree of the nodes with that label. -/
structure Consistent : Prop extends s.Bounded net where
  mass_eq : ∀ c, s.mass c = ∑ j ∈ range net.size with s.label j = c, net.degree j

theorem initial_consistent (net : Network Rat) : (initial net).Consistent net := by
  refine ⟨initial_bounded net, fun c => ?_⟩
  simp only [label_initial, Finset.sum_filter, Finset.sum_ite_eq', Finset.mem_range]
  by_cases hc : c < net.size
  · simp [initial, mass, hc]
  · simp [initial, mass, hc, Weight.ofNat]

/-- The weights around a node are those to the other nodes with a label. -/
theorem total_weightsNear (closed : net.Closed) (s : Labelling Rat) (i c : Nat) :
    Tally.total (weightsNear net s i) c =
      ∑ j ∈ (range net.size).erase i with s.label j = c, net.weight i j := by
  have gathered : Tally.total (weightsNear net s i) c =
      ((net.row i).map fun entry =>
        if entry.1 ≠ i ∧ s.label entry.1 = c then entry.2 else 0).sum := by
    have chosen := List.sum_map_ite (fun entry => entry.1 ≠ i)
      (fun entry : Nat × Rat => if s.label entry.1 = c then entry.2 else 0) (fun _ => 0) (net.row i)
    have others : (net.row i).filter (fun entry => decide (entry.1 ≠ i)) =
        (net.row i).filter (·.1 != i) :=
      List.filter_congr fun entry _ => Bool.eq_iff_iff.mpr (by simp)
    rw [weightsNear, Tally.total_ofList, Tally.total, List.map_map]
    simp only [ite_and]
    rw [chosen, List.sum_map_zero, add_zero, others]
    rfl
  have others : (range net.size).filter (fun j => j ≠ i ∧ s.label j = c) =
      ((range net.size).erase i).filter (s.label · = c) := by
    ext j
    simp only [Finset.mem_filter, Finset.mem_erase]
    tauto
  rw [gathered, Tally.sum_entries (closed i) fun j => j ≠ i ∧ s.label j = c, others]
  rfl

namespace Consistent

variable (h : s.Consistent net) (hi : i < net.size)

include h hi

theorem mass_without (c : Nat) :
    (s.adjust (s.label i) (· - net.degree i)).mass c =
      ∑ j ∈ (range net.size).erase i with s.label j = c, net.degree j := by
  have inside : s.label i < s.masses.size := h.masses_size ▸ h.label_lt i hi
  have split := sum_filter_range hi (s.label · = c) net.degree
  rw [mass_adjust inside, h.mass_eq, split]
  by_cases same : s.label i = c
  · rw [if_pos same, if_pos same]
    exact add_sub_cancel_left _ _
  · rw [if_neg same, if_neg same, zero_add]

/-- The gain of a label is the pull of the nodes that have it. -/
theorem gain_eq_pull (closed : net.Closed) (c : Nat) :
    gain resolution volume (net.degree i)
        ((s.adjust (s.label i) (· - net.degree i)).mass c)
        (Tally.total (weightsNear net s i) c) =
      net.pull resolution volume s.label i c := by
  rw [h.mass_without hi, total_weightsNear closed, Network.pull]
  simp only [Network.surplus, Finset.sum_sub_distrib, ← Finset.sum_div, ← Finset.sum_mul,
    ← Finset.mul_sum]
  rfl

/-- A node keeps its label or takes one that pulls more. -/
theorem choice_pull (closed : net.Closed) :
    s.choice net resolution volume i = s.label i ∨
      net.pull resolution volume s.label i (s.label i) <
        net.pull resolution volume s.label i (s.choice net resolution volume i) := by
  have increasing : Tally.Increasing (weightsNear net s i) := Tally.increasing_ofList _
  rcases bestLabel_gains _ _ _ with own | ⟨_, hcandidate, taken, above⟩
  · exact .inl own
  · obtain ⟨entry, hentry, rfl⟩ := List.mem_map.mp hcandidate
    refine .inr ?_
    have choice : s.choice net resolution volume i = entry.1 := taken
    rw [choice, ← h.gain_eq_pull hi closed, ← h.gain_eq_pull hi closed,
      ← Tally.get_eq_total increasing, Tally.total_of_mem increasing hentry]
    exact above

theorem label_visit_eq :
    (s.visit net resolution volume i).label =
      Function.update s.label i (s.choice net resolution volume i) := by
  funext j
  rw [label_visit, Function.update_apply]
  simp [h.labels_size, hi]

/-- A visit moves the degree of a node along with its label. -/
theorem visit (closed : net.Closed) : (s.visit net resolution volume i).Consistent net := by
  refine ⟨h.toBounded.visit closed hi, fun c => ?_⟩
  have inside : s.choice net resolution volume i < s.masses.size :=
    h.masses_size ▸ h.toBounded.choice_lt closed hi
  have before := h.mass_without hi c
  rw [sum_filter_range hi, h.label_visit_eq hi, filter_update, Function.update_self, ← before,
    visit_eq, mass_adjust (by simpa [adjust, relabel] using inside)]
  split
  · exact add_comm _ _
  · exact (zero_add _).symm

/-- A visit keeps all labels or raises worth. -/
theorem worth_visit (undirected : net.Undirected) :
    (s.visit net resolution volume i).label = s.label ∨
      net.worth resolution volume s.label <
        net.worth resolution volume (s.visit net resolution volume i).label := by
  rw [h.label_visit_eq hi]
  rcases h.choice_pull hi undirected.closed with own | above
  · refine .inl ?_
    rw [own, Function.update_eq_self]
  · refine .inr ?_
    rw [Network.worth_update undirected hi]
    linarith

end Consistent

/-- A level settles on the labels that it began with, or on labels that are worth more. -/
theorem worth_settle (undirected : net.Undirected) (resolution volume : Rat) (sweeps : Nat) :
    ((initial net).settle net resolution volume sweeps).label = id ∨
      net.worth resolution volume id <
        net.worth resolution volume ((initial net).settle net resolution volume sweeps).label := by
  let motive (s : Labelling Rat) : Prop := s.Consistent net ∧
    (s.label = id ∨ net.worth resolution volume id < net.worth resolution volume s.label)
  have start : motive (initial net) :=
    ⟨initial_consistent net, .inl (funext fun i => label_initial net i)⟩
  have reset : ∀ s, motive s → motive { s with moved := false } := fun s h =>
    ⟨⟨⟨h.1.labels_size, h.1.masses_size, h.1.label_lt⟩, h.1.mass_eq⟩, h.2⟩
  have step : ∀ s, ∀ i < net.size, motive s → motive (s.visit net resolution volume i) := by
    rintro s i hi ⟨consistent, before⟩
    refine ⟨consistent.visit hi undirected.closed, ?_⟩
    rcases consistent.worth_visit hi undirected with same | above
    · rwa [same]
    · refine .inr ?_
      rcases before with first | more
      · rwa [first] at above
      · exact more.trans above
  exact (settle_induction reset step sweeps start).2

end Labelling

namespace Level

variable {level : Level Rat} {resolution volume : Rat}

/-- The surplus between two nodes of the next level is that between the nodes with their numbers. -/
theorem surplus_contract (closed : level.net.Closed) (s : Labelling Rat) (k l : Nat) :
    (level.contract s).net.surplus resolution volume k l =
      ∑ i ∈ range level.net.size with s.number level.net i = k,
        ∑ j ∈ range level.net.size with s.number level.net j = l,
          level.net.surplus resolution volume i j := by
  simp only [Network.surplus, Finset.sum_sub_distrib, weight_contract closed,
    degree_contract closed, ← Finset.sum_div, ← Finset.mul_sum, ← Finset.sum_mul]

/-- The nodes of the next level are worth as much as the labels that they stand for. -/
theorem worth_contract (closed : level.net.Closed) (s : Labelling Rat) :
    (level.contract s).net.worth resolution volume id =
      level.net.worth resolution volume s.label := by
  have alike : ∀ k, ∀ i ∈ (range level.net.size).filter (s.number level.net · = k),
      ∑ j ∈ range level.net.size with s.number level.net j = k,
          level.net.surplus resolution volume i j =
        ∑ j ∈ range level.net.size with s.label j = s.label i,
          level.net.surplus resolution volume i j := by
    intro k i hi
    obtain ⟨-, rfl⟩ := Finset.mem_filter.mp hi
    refine Finset.sum_congr (Finset.filter_congr fun j hj => ?_) fun _ _ => rfl
    exact Labelling.number_inj (Finset.mem_range.mp hj)
  rw [Network.worth_id, Network.worth]
  simp only [surplus_contract closed]
  refine Eq.trans ?_ (sum_numbers s fun i => ∑ j ∈ range level.net.size with s.label j = s.label i,
    level.net.surplus resolution volume i j)
  exact Finset.sum_congr rfl fun k _ => Finset.sum_congr rfl (alike k)

/-- What is known of the levels that the search goes on to: the volume stays, and a level other
than the first is worth more. -/
structure Improves (first level : Level Rat) (resolution volume : Rat) : Prop where
  undirected : level.net.Undirected
  volume_eq : level.net.volume = first.net.volume
  raised : level = first ∨
    first.net.worth resolution volume id < level.net.worth resolution volume id

theorem finish_improves (undirected : level.net.Undirected) (resolution volume : Rat) :
    level.Improves (level.finish resolution volume) resolution volume := by
  let first := level
  refine finish_induction (motive := fun level => first.Improves level resolution volume) ?_
    ⟨undirected, rfl, .inl rfl⟩
  intro level before smaller
  let s := level.settled resolution volume
  refine ⟨undirected_contract before.undirected s, ?_, .inr ?_⟩
  · rw [volume_contract before.undirected.closed, before.volume_eq]
  · -- Where no node has moved, the next level is no smaller.
    have moved : s.label ≠ id := by
      intro same
      have all : level.net.size ≤ (s.names level.net).length := Labelling.size_le_length_names same
      rw [← size_contract] at all
      exact absurd smaller (Nat.not_lt.mpr all)
    have above := Labelling.worth_settle before.undirected resolution volume maxSweeps
    have above := above.resolve_left moved
    rw [worth_contract before.undirected.closed]
    rcases before.raised with same | more
    · exact same ▸ above
    · exact more.trans above

end Level

end CallAtlas
