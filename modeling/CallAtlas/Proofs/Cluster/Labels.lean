import CallAtlas.Proofs.CallGraph.Identity
import CallAtlas.Proofs.Cluster.Partition
import Mathlib.Data.Nat.Find

/-!
# Labels of clusters are distinct

Clusters are labelled one after another, and each label is chosen against those in use. A label that
a cluster has by itself is kept when it is neither shared nor taken; otherwise the first extension
that is free replaces it. The extensions that the members suggest may all be taken, also by labels
that only look like extensions. Numbers settle it: different numbers give different labels, so of
one more number than there are labels in use, some number is free.

Nothing is asked of names, scopes and files. They may hold any of the signs that labels are made of.
-/

namespace CallAtlas

namespace Cluster

variable {label : String} {used : List String}

/-- The number is read off a numbered label. -/
theorem numbered_injective (label : String) :
    Function.Injective fun k : Nat => s!"{label} #{k + 2}" := by
  intro j k same
  have digits : (toString (j + 2)).toList = (toString (k + 2)).toList := by
    simpa using congrArg String.toList same
  exact Nat.add_right_cancel (toList_toString_inj digits)

/-- Of one more number than there are labels in use, some number is free. -/
theorem exists_free_number (label : String) (used : List String) :
    ∃ k ≤ used.length, s!"{label} #{k + 2}" ∉ used := by
  by_contra taken
  push Not at taken
  have within : numbered label used ⊆ used := by
    intro candidate hcandidate
    obtain ⟨k, hk, rfl⟩ := List.mem_map.mp hcandidate
    exact taken k (Nat.le_of_lt_succ (List.mem_range.mp hk))
  have distinct : (numbered label used).Nodup :=
    List.nodup_range.map (numbered_injective label)
  have short := (List.subperm_of_subset distinct within).length_le
  rw [numbered, List.length_map, List.length_range] at short
  omega

/-- The number at which the search for a free one ends. -/
theorem exists_first_free_number (label : String) (used : List String) :
    ∃ k ≤ used.length, s!"{label} #{k + 2}" ∉ used ∧ ∀ j < k, s!"{label} #{j + 2}" ∈ used := by
  have free := exists_free_number label used
  have some_free : ∃ k, s!"{label} #{k + 2}" ∉ used := free.imp fun _ h => h.2
  obtain ⟨k, small, hk⟩ := free
  refine ⟨Nat.find some_free, (Nat.find_min' some_free hk).trans small, Nat.find_spec some_free, ?_⟩
  exact fun j hj => not_not.mp (Nat.find_min some_free hj)

/-- A free label is the first extension that is free, or has the first free number. -/
theorem freeLabel_eq (members : List FunctionNode) {k : Nat} (small : k ≤ used.length)
    (free : s!"{label} #{k + 2}" ∉ used) (taken : ∀ j < k, s!"{label} #{j + 2}" ∈ used) :
    freeLabel label members used =
      ((extensions label members).find? (· ∉ used)).getD s!"{label} #{k + 2}" := by
  have number : (numbered label used).find? (· ∉ used) = some s!"{label} #{k + 2}" := by
    rw [numbered, List.find?_map, Option.map_eq_some_iff]
    refine ⟨k, List.find?_range_eq_some.mpr ⟨by simpa using free, ?_, ?_⟩, rfl⟩
    · exact List.mem_range.mpr (Nat.lt_succ_of_le small)
    · intro j hj
      simpa using taken j hj
  have unused : (!used.contains ·) = fun candidate => decide (candidate ∉ used) := by
    funext candidate
    simp
  rw [freeLabel, unused, List.find?_append, number]
  cases (extensions label members).find? (· ∉ used) <;> rfl

theorem freeLabel_not_mem (label : String) (members : List FunctionNode) (used : List String) :
    freeLabel label members used ∉ used := by
  obtain ⟨k, small, free, taken⟩ := exists_first_free_number label used
  rw [freeLabel_eq members small free taken]
  cases found : (extensions label members).find? (· ∉ used) with
  | none => exact free
  | some extension => simpa using List.find?_some found

/-- The labels that are chosen are distinct, and none of them was in use before. -/
theorem distinctLabels_fresh (shared : String → Bool) (used : List String)
    (clusters : List (List FunctionNode)) :
    (distinctLabels shared used clusters).Nodup ∧
      ∀ label ∈ distinctLabels shared used clusters, label ∉ used := by
  induction clusters generalizing used with
  | nil => simp [distinctLabels]
  | cons members rest ih =>
      rw [distinctLabels]
      -- The invariant is about all labels in use, so it covers what later clusters avoid.
      set label := if shared (baseLabel members) || used.contains (baseLabel members) then
        freeLabel (baseLabel members) members used else baseLabel members with chosen
      obtain ⟨distinct, fresh⟩ := ih (label :: used)
      have unused : label ∉ used := by
        rw [chosen]
        split
        · exact freeLabel_not_mem _ members used
        · next kept =>
          simp only [Bool.or_eq_true, List.contains_iff_mem, not_or] at kept
          exact kept.2
      refine ⟨List.nodup_cons.mpr ⟨fun again => ?_, distinct⟩, ?_⟩
      · exact fresh label again List.mem_cons_self
      · rintro other (_ | ⟨_, later⟩)
        · exact unused
        · exact fun hother => fresh other later (List.mem_cons_of_mem label hother)

theorem labels_nodup (clusters : List (List FunctionNode)) : (labels clusters).Nodup :=
  (distinctLabels_fresh _ [] clusters).1

/-- The clusters of some communities have the labels of their functions. -/
theorem map_label_ofCommunities {α : Type} (graph : CallGraph) (net : Network α)
    (communities : List (List Nat)) :
    (ofCommunities graph net communities).map Cluster.label =
      labels (communities.map (·.filterMap (graph.nodes[·]?))) := by
  refine List.ext_getElem (by simp [labels]) fun k _ _ => ?_
  simp [ofCommunities]

end Cluster

namespace CallGraph

/-- No two clusters have the same label, whatever functions and files are called. A label that has
to be extended gets the first extension that its members suggest and that is free, or else a number;
the search for a free number ends at the first one, after at most as many steps as there are labels
in use. -/
theorem cluster?_labels_distinct {α : Type} [Weight α] (graph : CallGraph) (maxClusterSize : Nat)
    (resolution : α) :
    (∀ clusters result, graph.cluster? maxClusterSize resolution = some (clusters, result) →
      (clusters.map Cluster.label).Nodup) ∧
    ∀ (label : String) (members : List FunctionNode) (used : List String),
      ∃ k ≤ used.length,
        s!"{label} #{k + 2}" ∉ used ∧ (∀ j < k, s!"{label} #{j + 2}" ∈ used) ∧
        Cluster.freeLabel label members used =
          ((Cluster.extensions label members).find? (· ∉ used)).getD s!"{label} #{k + 2}" ∧
        Cluster.freeLabel label members used ∉ used := by
  constructor
  · intro clusters result answered
    obtain ⟨communities, -, rfl, -⟩ := exists_arranged_of_cluster? answered
    rw [Cluster.map_label_ofCommunities]
    exact Cluster.labels_nodup _
  · intro label members used
    obtain ⟨k, small, free, taken⟩ := Cluster.exists_first_free_number label used
    exact ⟨k, small, free, taken, Cluster.freeLabel_eq members small free taken,
      Cluster.freeLabel_not_mem label members used⟩

/-- Four functions without calls. The second and the third share a label and have nothing to extend
it by but a number, and the labels of the others look like theirs with a number. -/
def lookalikes : CallGraph :=
  let function (id name scope : String) : FunctionNode :=
    ⟨id, name, "a.py", some scope, "", 1, 1, "", none⟩
  empty.addFunctions
    [function "a" "run" "Svc #2", function "b" "Svc" "Svc", function "c" "Svc" "Svc",
      function "d" "run" "Svc #3"]

/-- Each function is a cluster. Two is taken when the second one looks for a number, and the number
that it finds makes the label of the last. -/
theorem labels_lookalikes :
    (lookalikes.cluster? 50 (1 : Rat)).map (·.1.map Cluster.label) =
      some ["Svc #2", "Svc #3", "Svc #4", "Svc #3:run"] := by
  let net := Network.ofGraph Rat lookalikes
  have single : net.communities 1 = [[0], [1], [2], [3]] := by
    rw [Network.communities, if_pos (by decide +kernel)]
    decide +kernel
  have tuned : net.tune 50 (Weight.doublings (1 : Rat)) 1 = some [[0], [1], [2], [3]] := by
    rw [Network.tune.eq_def, single]
    rfl
  have kept (i : Nat) : net.split 50 [i] = [[i]] := by
    rw [Network.split]
    simp
  have parts : net.partition? (max 1 50) 1 = some [[0], [1], [2], [3]] := by
    have ranked : [[0], [1], [2], [3]].mergeSort Network.precedes = [[0], [1], [2], [3]] :=
      List.mergeSort_of_pairwise (by decide)
    simp [Network.partition?, tuned, kept, ranked]
  rw [cluster?, parts, Option.map_some, Option.map_some, Cluster.map_label_ofCommunities]
  decide +kernel

theorem cluster?_labels_distinct_lookalikes :
    ∃ clusters result, lookalikes.cluster? 50 (1 : Rat) = some (clusters, result) ∧
      clusters.map Cluster.label = ["Svc #2", "Svc #3", "Svc #4", "Svc #3:run"] ∧
      (clusters.map Cluster.label).Nodup := by
  obtain ⟨⟨clusters, result⟩, answered, labelled⟩ := Option.map_eq_some_iff.mp labels_lookalikes
  obtain ⟨distinct, -⟩ := cluster?_labels_distinct lookalikes 50 (1 : Rat)
  exact ⟨clusters, result, answered, labelled, distinct clusters result answered⟩

end CallGraph

end CallAtlas
