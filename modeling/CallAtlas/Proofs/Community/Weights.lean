import CallAtlas.Proofs.Community.Moves
import Mathlib.Algebra.BigOperators.Group.Finset.Piecewise
import Mathlib.Algebra.BigOperators.Group.Finset.Sigma
import Mathlib.Algebra.Order.Field.Rat
import Mathlib.Algebra.BigOperators.Group.List.Basic
import Mathlib.Data.List.Sort
import Mathlib.Tactic.Ring

/-!
# Weights that add up

With exact arithmetic the rows of a network are sums. `Tally.total` is the weight that a list of
entries gives to a number, and building a tally keeps these totals, so `Network.weight` may be read
off the entries that went into a row. The weight between two nodes of the next level is then the sum
over the pairs of nodes that have their numbers, and degrees and the volume follow from it.
-/

open Finset (range)

namespace CallAtlas

theorem Weight.sum_eq (weights : List Rat) : Weight.sum weights = weights.sum :=
  List.sum_eq_foldl.symm

/-- A sum over what is gathered from a list is the sum of the sums. -/
theorem sum_flatMap {β γ : Type} (xs : List β) (f : β → List γ) (g : γ → Rat) :
    ((xs.flatMap f).map g).sum = (xs.map fun x => ((f x).map g).sum).sum := by
  rw [List.map_flatMap, List.flatMap_def, List.sum_flatten, List.map_map]
  rfl

/-- Ones for what has a property sum to how many there are. -/
theorem sum_ones {β : Type} (p : β → Prop) [DecidablePred p] (xs : List β) :
    (xs.map fun x => if p x then (1 : Rat) else 0).sum = xs.countP fun x => p x := by
  rw [List.sum_map_ite, List.countP_eq_length_filter]
  simp

namespace Tally

variable {tally other : Tally Rat} {c : Nat}

/-- The weight that entries give to a number. -/
def total (entries : List (Nat × Rat)) (c : Nat) : Rat :=
  (entries.map fun entry => if entry.1 = c then entry.2 else 0).sum

@[simp] theorem total_nil (c : Nat) : total [] c = 0 := rfl

@[simp] theorem total_cons (entry : Nat × Rat) (entries : List (Nat × Rat)) (c : Nat) :
    total (entry :: entries) c = (if entry.1 = c then entry.2 else 0) + total entries c := rfl

theorem total_append (entries more : List (Nat × Rat)) (c : Nat) :
    total (entries ++ more) c = total entries c + total more c := by
  simp [total]

theorem total_flatMap {β : Type} (xs : List β) (f : β → List (Nat × Rat)) (c : Nat) :
    total (xs.flatMap f) c = (xs.map fun x => total (f x) c).sum := by
  induction xs with
  | nil => rfl
  | cons x rest ih => rw [List.flatMap_cons, total_append, ih, List.map_cons, List.sum_cons]

/-- A number without entries has no weight. -/
theorem total_eq_zero (h : c ∉ keys tally) : total tally c = 0 := by
  induction tally with
  | nil => rfl
  | cons entry rest ih =>
      rw [keys_cons, List.mem_cons, not_or] at h
      rw [total_cons, if_neg (Ne.symm h.1), ih h.2, add_zero]

theorem total_add (tally : Tally Rat) (number : Nat) (weight : Rat) (c : Nat) :
    total (tally.add number weight) c = total tally c + if number = c then weight else 0 := by
  induction tally with
  | nil => simp [add]
  | cons entry rest ih =>
      simp only [add]
      split
      · rw [total_cons, total_cons]
        ring
      · split
        · next same =>
          rw [total_cons, total_cons, same]
          by_cases here : entry.1 = c
          · rw [if_pos here, if_pos here, if_pos here]
            exact add_right_comm entry.2 weight (total rest c)
          · rw [if_neg here, if_neg here, if_neg here, add_zero]
        · rw [total_cons, ih, total_cons]
          ring

/-- A tally keeps the totals of the entries that it is made of. -/
theorem total_ofList (entries : List (Nat × Rat)) (c : Nat) :
    total (ofList entries) c = total entries c := by
  have gathered : ∀ tally : Tally Rat,
      total (entries.foldl (fun tally entry => add tally entry.1 entry.2) tally) c =
        total tally c + total entries c := by
    induction entries with
    | nil => simp
    | cons entry rest ih =>
        intro tally
        rw [List.foldl_cons, ih, total_add, total_cons]
        ring
  simpa [ofList] using gathered []

/-- The weight of an entry is all that its number has. -/
theorem total_of_mem (h : Increasing tally) {entry : Nat × Rat} (hentry : entry ∈ tally) :
    total tally entry.1 = entry.2 := by
  induction tally with
  | nil => cases hentry
  | cons first rest ih =>
      obtain ⟨before, later⟩ := List.pairwise_cons.mp h
      rw [total_cons]
      rcases List.mem_cons.mp hentry with rfl | hentry
      · have fresh : entry.1 ∉ keys rest := by
          intro again
          obtain ⟨other, hother, same⟩ := List.mem_map.mp again
          exact absurd (before other hother) (by omega)
        rw [if_pos rfl, total_eq_zero fresh, add_zero]
      · have smaller := before entry hentry
        rw [if_neg (by omega), zero_add, ih later hentry]

theorem mem_iff_total (h : Increasing tally) {entry : Nat × Rat} :
    entry ∈ tally ↔ entry.1 ∈ keys tally ∧ total tally entry.1 = entry.2 := by
  constructor
  · intro listed
    exact ⟨List.mem_map_of_mem listed, total_of_mem h listed⟩
  · rintro ⟨known, weight⟩
    obtain ⟨found, listed, number⟩ := List.mem_map.mp known
    have same : found = entry := by
      apply Prod.ext number
      rw [← weight, ← number, total_of_mem h listed]
    exact same ▸ listed

/-- Tallies with the same numbers and the same weights are equal. -/
theorem Increasing.ext (h : Increasing tally) (h' : Increasing other)
    (numbers : ∀ c, c ∈ keys tally ↔ c ∈ keys other)
    (weights : ∀ c, total tally c = total other c) : tally = other := by
  have irreflexive : Std.Irrefl fun a b : Nat × Rat => a.1 < b.1 := ⟨fun _ => lt_irrefl _⟩
  apply List.Pairwise.eq_of_mem_iff h h'
  intro entry
  rw [mem_iff_total h, mem_iff_total h', numbers, weights]

/-- The order in which a tally is made does not matter. -/
theorem ofList_eq_of_perm {entries more : List (Nat × Rat)} (h : entries.Perm more) :
    ofList entries = ofList more := by
  apply (increasing_ofList entries).ext (increasing_ofList more)
  · intro c
    rw [mem_keys_ofList, mem_keys_ofList]
    exact (h.map Prod.fst).mem_iff
  · intro c
    rw [total_ofList, total_ofList]
    exact (h.map _).sum_eq

theorem get_eq_total (h : Increasing tally) (c : Nat) : tally.get c = total tally c := by
  rw [get]
  cases found : tally.lookup c with
  | none =>
      have unknown : c ∉ keys tally := by
        intro known
        obtain ⟨entry, hentry, rfl⟩ := List.mem_map.mp known
        simpa using List.lookup_eq_none_iff.mp found entry hentry
      exact (total_eq_zero unknown).symm
  | some weight =>
      obtain ⟨before, after, rfl, -⟩ := List.lookup_eq_some_iff.mp found
      exact (total_of_mem h (List.mem_append_right before List.mem_cons_self)).symm

/-- Entries may be summed by their numbers. -/
theorem sum_entries {n : Nat} (bounded : ∀ c ∈ keys tally, c < n) (p : Nat → Prop)
    [DecidablePred p] :
    (tally.map fun entry => if p entry.1 then entry.2 else 0).sum =
      ∑ c ∈ range n with p c, total tally c := by
  induction tally with
  | nil => simp
  | cons entry rest ih =>
      have inside := bounded entry.1 List.mem_cons_self
      have own : (∑ c ∈ range n with p c, if entry.1 = c then entry.2 else 0) =
          if p entry.1 then entry.2 else 0 := by
        rw [Finset.sum_ite_eq]
        simp [inside]
      have later := ih fun c hc => bounded c (List.mem_cons_of_mem _ hc)
      simp only [List.map_cons, List.sum_cons, total_cons, Finset.sum_add_distrib, later, own]

end Tally

namespace Network

/-- The weight between two nodes, zero for nodes that are not joined. -/
def weight (net : Network Rat) (i j : Nat) : Rat := Tally.total (net.row i) j

variable {net : Network Rat} {i j : Nat}

theorem weight_eq_zero (h : ¬ net.Joins i j) : net.weight i j = 0 := Tally.total_eq_zero h

/-- The degree of a node is the weight to all nodes. -/
theorem degree_eq (closed : net.Closed) (i : Nat) :
    net.degree i = ∑ j ∈ range net.size, net.weight i j := by
  have summed := Tally.sum_entries (closed i) fun _ => True
  simpa [degree, Weight.sum_eq, weight] using summed

theorem volume_eq (net : Network Rat) : net.volume = ∑ i ∈ range net.size, net.degree i :=
  Weight.sum_eq _

theorem isZero_totalWeight_iff {net : Network Rat} :
    Weight.isZero net.totalWeight = true ↔ net.volume = 0 := by
  have zero : ∀ w : Rat, Weight.isZero w = true ↔ w = 0 := fun w => beq_iff_eq
  have two : (Weight.ofNat 2 : Rat) ≠ 0 := Nat.cast_ne_zero.mpr (by decide)
  rw [zero, totalWeight, div_eq_zero_iff, or_iff_left two]

/-- Where there is weight, the communities are the groups of the last level. -/
theorem communities_of_volume_ne_zero {net : Network Rat} (filled : net.volume ≠ 0)
    (resolution : Rat) : net.communities resolution =
      ((Level.initial net).finish resolution net.volume).groups.toList := by
  rw [communities, if_neg (mt isZero_totalWeight_iff.mp filled)]

/-- The weight between two nodes is the same from both sides, and there is none beyond the nodes. -/
structure Undirected (net : Network Rat) : Prop where
  closed : net.Closed
  symm : ∀ i j, net.weight i j = net.weight j i

end Network

namespace Level

variable {level : Level Rat}

/-- The weight between two nodes of the next level is the weight between the nodes with their
numbers. Inside one of them each edge is counted from both ends. -/
theorem weight_contract (closed : level.net.Closed) (s : Labelling Rat) (k l : Nat) :
    (level.contract s).net.weight k l =
      ∑ i ∈ range level.net.size with s.number level.net i = k,
        ∑ j ∈ range level.net.size with s.number level.net j = l, level.net.weight i j := by
  have moved : ∀ i, Tally.total ((level.net.row i).map fun entry =>
      (s.number level.net entry.1, entry.2)) l =
        ∑ j ∈ range level.net.size with s.number level.net j = l, level.net.weight i j := by
    intro i
    rw [Tally.total, List.map_map]
    exact Tally.sum_entries (closed i) fun j => s.number level.net j = l
  rw [Network.weight, row_contract, Tally.total_ofList, Tally.total_flatMap]
  simp only [moved]
  rfl

/-- Summing over the nodes of the next level, and for each of them over the nodes with its number,
is summing over all nodes. -/
theorem sum_numbers (s : Labelling Rat) (f : Nat → Rat) :
    ∑ k ∈ range (level.contract s).net.size,
      ∑ i ∈ range level.net.size with s.number level.net i = k, f i =
        ∑ i ∈ range level.net.size, f i := by
  refine Finset.sum_fiberwise_of_maps_to (fun i hi => Finset.mem_range.mpr ?_) f
  rw [size_contract]
  exact Labelling.number_lt (Finset.mem_range.mp hi)

theorem degree_contract (closed : level.net.Closed) (s : Labelling Rat) (k : Nat) :
    (level.contract s).net.degree k =
      ∑ i ∈ range level.net.size with s.number level.net i = k, level.net.degree i := by
  simp only [Network.degree_eq (closed_contract closed s), weight_contract closed s,
    Network.degree_eq closed]
  rw [Finset.sum_comm]
  exact Finset.sum_congr rfl fun i _ => sum_numbers s (level.net.weight i)

theorem volume_contract (closed : level.net.Closed) (s : Labelling Rat) :
    (level.contract s).net.volume = level.net.volume := by
  simp only [Network.volume_eq, degree_contract closed s]
  exact sum_numbers s level.net.degree

theorem undirected_contract (undirected : level.net.Undirected) (s : Labelling Rat) :
    (level.contract s).net.Undirected := by
  refine ⟨closed_contract undirected.closed s, fun k l => ?_⟩
  rw [weight_contract undirected.closed, weight_contract undirected.closed, Finset.sum_comm]
  exact Finset.sum_congr rfl fun j _ => Finset.sum_congr rfl fun i _ => undirected.symm i j

end Level

end CallAtlas
