import CallAtlas.Community.Partition
import CallAtlas.Proofs.Ordered
import CallAtlas.Proofs.SharesOut
import Mathlib.Data.Nat.Basic

/-!
# Communities share out the nodes

Whatever the weights are and however they compare, the search for communities only regroups nodes:
no node is lost and none is in two groups. The argument never looks at a gain. A level groups the
nodes behind it by label, and grouping a list by any key keeps its elements.

`SharesOut` is the property of groups that says this. It is kept by every level of the search, by
the doubling of the resolution, and by the division of large communities among their own members.
-/

namespace CallAtlas

namespace Level

variable {α : Type}

theorem groups_initial (net : Network α) : (initial net).groups.toList = net.singletons := rfl

/-- A level that has a group for each of its nodes, and whose groups share out the nodes that the
search began with. -/
structure Covers (level : Level α) (nodes : List Nat) : Prop where
  size : level.groups.size = level.net.size
  shares : SharesOut nodes level.groups.toList

theorem initial_covers (net : Network α) : (initial net).Covers (List.range net.size) where
  size := by simp [initial]
  shares := by simpa [initial] using SharesOut.singletons (List.range net.size)

/-- The groups of a level, read by the numbers of its nodes. -/
theorem groups_toList {level : Level α} {nodes : List Nat} (h : level.Covers nodes) :
    level.groups.toList = (List.range level.net.size).map level.group := by
  refine List.ext_getElem (by simp [h.size]) fun i hi _ => ?_
  have hi : i < level.groups.size := by simpa using hi
  simp [group, hi]

/-- Taking each label once leaves no label twice. -/
theorem nodup_eraseDups (labels : List Nat) : labels.eraseDups.Nodup := by
  induction hn : labels.length using Nat.strongRecOn generalizing labels with
  | ind n ih =>
      cases labels with
      | nil => simp
      | cons c rest =>
          rw [List.eraseDups_cons]
          have shorter : (rest.filter fun d => !d == c).length < n := by
            have := List.length_filter_le (fun d => !d == c) rest
            simp only [List.length_cons] at hn
            omega
          refine List.nodup_cons.mpr ⟨?_, ih _ shorter _ rfl⟩
          intro hc
          simpa using (List.mem_filter.mp (List.mem_eraseDups.mp hc)).2

variable [Weight α]

/-- Grouping by label covers what was covered before, whatever the labels are. -/
theorem contract_covers {level : Level α} {nodes : List Nat} (h : level.Covers nodes)
    (s : Labelling α) : (level.contract s).Covers nodes := by
  let indices := List.range level.net.size
  let labels := (indices.map s.label).eraseDups
  have known : ∀ i ∈ indices, s.label i ∈ labels := fun i hi =>
    List.mem_eraseDups.mpr (List.mem_map_of_mem hi)
  have groups : (level.contract s).groups.toList =
      labels.map fun c => (indices.filter (s.label · == c)).flatMap level.group := by
    simp [contract, labels, indices]
  refine ⟨by simp [contract, Network.size], ?_, ?_⟩
  · intro members hmembers
    rw [groups] at hmembers
    obtain ⟨c, hc, rfl⟩ := List.mem_map.mp hmembers
    obtain ⟨i, hi, rfl⟩ := List.mem_map.mp (List.mem_eraseDups.mp hc)
    have filled : level.group i ≠ [] := by
      refine h.shares.nonempty _ ?_
      rw [groups_toList h]
      exact List.mem_map_of_mem hi
    obtain ⟨x, hx⟩ := List.exists_mem_of_ne_nil _ filled
    have hfilter : i ∈ indices.filter (s.label · == s.label i) := List.mem_filter.mpr ⟨hi, by simp⟩
    exact List.ne_nil_of_mem (List.mem_flatMap.mpr ⟨i, hfilter, hx⟩)
  · have regrouped := SharesOut.flatMap_filter_perm s.label (nodup_eraseDups _) known
    have gathered :
        (level.contract s).groups.toList.flatten.Perm (indices.flatMap level.group) := by
      rw [groups, List.flatten_eq_flatMap, List.flatMap_map]
      simpa [List.flatMap_assoc] using regrouped.flatMap_right level.group
    have before : indices.flatMap level.group = level.groups.toList.flatten := by
      rw [groups_toList h, List.flatMap_def]
    exact (before ▸ gathered).trans h.shares.perm

/-- Every level that the search goes on to covers what its first level covers. -/
theorem finish_covers {level : Level α} {nodes : List Nat} (h : level.Covers nodes)
    (resolution volume : α) : (level.finish resolution volume).Covers nodes := by
  fun_induction finish resolution volume level with
  | case1 level next smaller ih => exact ih (contract_covers h _)
  | case2 level next settled => exact h

end Level

namespace Network

variable {α : Type}

/-- The members of a list at their positions are the list again. -/
theorem map_getD_range {β : Type} (members : List β) (default : β) :
    (List.range members.length).map (fun i => members.getD i default) = members := by
  refine List.ext_getElem (by simp) fun i hi _ => ?_
  have hi : i < members.length := by simpa using hi
  simp [hi]

/-- Of two lists, one precedes the other. -/
theorem precedes_total (a b : List Nat) : (precedes a b || precedes b a) = true := by
  simp only [precedes, Bool.or_eq_true, decide_eq_true_eq, Bool.and_eq_true, beq_iff_eq]
  omega

theorem precedes_trans (a b c : List Nat) (hab : precedes a b = true) (hbc : precedes b c = true) :
    precedes a c = true := by
  simp only [precedes, Bool.or_eq_true, decide_eq_true_eq, Bool.and_eq_true, beq_iff_eq] at *
  omega

variable [Weight α]

@[simp] theorem size_addEnd (net : Network α) (i j : Nat) (weight : α) :
    (net.addEnd i j weight).size = net.size := by
  simp [addEnd, size]

@[simp] theorem size_addEdge (net : Network α) (edge : Edge α) :
    (net.addEdge edge).size = net.size := by
  simp [addEdge]

@[simp] theorem size_ofEdges (size : Nat) (edges : List (Edge α)) :
    (ofEdges size edges).size = size := by
  have kept : ∀ net : Network α, (edges.foldl addEdge net).size = net.size := by
    induction edges with
    | nil => exact fun net => rfl
    | cons edge rest ih =>
        intro net
        rw [List.foldl_cons, ih, size_addEdge]
  rw [ofEdges, kept]
  simp [blank, Network.size]

@[simp] theorem size_restrict (net : Network α) (nodes : List Nat) :
    (net.restrict nodes).size = nodes.length :=
  size_ofEdges _ _

theorem communities_sharesOut (net : Network α) (resolution : α) :
    SharesOut (List.range net.size) (net.communities resolution) := by
  rw [communities]
  split
  · exact SharesOut.singletons (List.range net.size)
  · exact (Level.finish_covers (Level.initial_covers net) resolution net.volume).shares

/-- Tuning only chooses among the communities at several resolutions. -/
theorem exists_communities_of_tune {net : Network α} {limit doublings : Nat} {resolution : α}
    {communities : List (List Nat)}
    (h : net.tune limit doublings resolution = some communities) :
    ∃ chosen, communities = net.communities chosen := by
  induction doublings generalizing resolution with
  | zero =>
      simp only [tune] at h
      split at h
      · cases h
      · cases h
        exact ⟨resolution, rfl⟩
  | succ doublings ih =>
      rw [tune] at h
      split at h
      · exact ih h
      · cases h
        exact ⟨resolution, rfl⟩

theorem tune_sharesOut {net : Network α} {limit doublings : Nat} {resolution : α}
    {communities : List (List Nat)}
    (h : net.tune limit doublings resolution = some communities) :
    SharesOut (List.range net.size) communities := by
  obtain ⟨chosen, rfl⟩ := exists_communities_of_tune h
  exact communities_sharesOut net chosen

/-- A division is made of the communities at some resolution, and there are several. -/
theorem exists_communities_of_division? {net : Network α} {attempts : Nat} {resolution : α}
    {parts : List (List Nat)} (h : net.division? attempts resolution = some parts) :
    1 < parts.length ∧ ∃ chosen, parts = net.communities chosen := by
  induction attempts generalizing resolution with
  | zero => cases h
  | succ attempts ih =>
      simp only [division?] at h
      split at h
      · next several =>
        cases h
        exact ⟨several, resolution, rfl⟩
      · exact ih h

theorem division?_sharesOut {net : Network α} {attempts : Nat} {resolution : α}
    {parts : List (List Nat)} (h : net.division? attempts resolution = some parts) :
    SharesOut (List.range net.size) parts := by
  obtain ⟨-, chosen, rfl⟩ := exists_communities_of_division? h
  exact communities_sharesOut net chosen

/-- The parts of a community are numbered by position among its sorted members. Named again, they
share out the community. -/
theorem named_sharesOut {net : Network α} {community : List Nat} {attempts : Nat} {resolution : α}
    {parts : List (List Nat)}
    (h : (net.restrict community.mergeSort).division? attempts resolution = some parts) :
    SharesOut community (parts.map (List.map fun i => community.mergeSort.getD i 0)) := by
  have shared := (division?_sharesOut h).map fun i => community.mergeSort.getD i 0
  rw [size_restrict, map_getD_range] at shared
  exact shared.of_perm (List.mergeSort_perm community _)

/-- A division of a community loses none of its members. -/
theorem split_sharesOut (net : Network α) (limit : Nat) {community : List Nat}
    (h : community ≠ []) : SharesOut community (net.split limit community) := by
  fun_induction split net limit community with
  | case1 community members inner stop => exact SharesOut.whole h
  | case2 community members inner go undivided => exact SharesOut.whole h
  | case3 community members inner go parts found ih =>
      have named := named_sharesOut found
      let divide (outer : List Nat) : List (List Nat) :=
        if outer.length < community.length then net.split limit outer else [outer]
      have divided : (parts.flatMap fun part =>
          let outer := part.map fun i => members.getD i 0
          if part.length < community.length then net.split limit outer else [outer]) =
          (parts.map (List.map fun i => members.getD i 0)).flatMap divide := by
        simp [divide, List.flatMap_map]
      rw [divided]
      refine named.flatMap fun outer houter => ?_
      have filled := named.nonempty outer houter
      obtain ⟨part, hpart, rfl⟩ := List.mem_map.mp houter
      simp only [divide]
      split
      · next smaller => exact ih part (by simpa using smaller) filled
      · exact SharesOut.whole filled

/-- Numbers that are not repeated increase once they are sorted. -/
theorem increasing_mergeSort {nodes : List Nat} (distinct : nodes.Nodup) :
    nodes.mergeSort.Pairwise (· < ·) := by
  have sorted : nodes.mergeSort.Pairwise (· ≤ ·) :=
    Ordered.pairwise_mergeSort_key (fun node => node) nodes
  have apart : nodes.mergeSort.Nodup := (List.mergeSort_perm nodes _).nodup_iff.mpr distinct
  exact (sorted.and apart).imp fun hab => Nat.lt_of_le_of_ne hab.1 hab.2

/-- Communities as they are handed out: they share out the first `n` numbers, each increases, and
they stand in the order of `precedes`. -/
structure Arranged (n : Nat) (communities : List (List Nat)) : Prop where
  shares : SharesOut (List.range n) communities
  increasing : ∀ community ∈ communities, community.Pairwise (· < ·)
  ranked : communities.Pairwise fun a b => precedes a b = true

/-- Every community that is handed out is part of a community at some resolution. -/
theorem exists_split_of_mem_partition? {net : Network α} {limit : Nat} {resolution : α}
    {communities : List (List Nat)} (h : net.partition? limit resolution = some communities)
    {community : List Nat} (hcommunity : community ∈ communities) :
    ∃ chosen, ∃ whole ∈ net.communities chosen, ∃ part ∈ net.split limit whole,
      community = part.mergeSort := by
  obtain ⟨tuned, htuned, rfl⟩ := Option.map_eq_some_iff.mp h
  obtain ⟨chosen, rfl⟩ := exists_communities_of_tune htuned
  have listed := (List.mergeSort_perm _ precedes).mem_iff.mp hcommunity
  obtain ⟨part, hpart, rfl⟩ := List.mem_map.mp listed
  obtain ⟨whole, hwhole, hpart⟩ := List.mem_flatMap.mp hpart
  exact ⟨chosen, whole, hwhole, part, hpart, rfl⟩

theorem partition?_arranged {net : Network α} {limit : Nat} {resolution : α}
    {communities : List (List Nat)} (h : net.partition? limit resolution = some communities) :
    Arranged net.size communities := by
  obtain ⟨tuned, htuned, rfl⟩ := Option.map_eq_some_iff.mp h
  have covered := tune_sharesOut htuned
  have divided : SharesOut (List.range net.size) (tuned.flatMap (net.split limit)) :=
    covered.flatMap fun community hcommunity =>
      split_sharesOut net limit (covered.nonempty community hcommunity)
  have shares := divided.rearrange (·.mergeSort) (fun group => List.mergeSort_perm group _)
    (List.mergeSort_perm _ precedes)
  refine ⟨shares, ?_, List.pairwise_mergeSort precedes_trans precedes_total _⟩
  intro community hcommunity
  -- The members are sorted, and no member is repeated since no node is.
  have distinct : community.Nodup := shares.nodup_of_mem List.nodup_range hcommunity
  have hsorted := (List.mergeSort_perm _ precedes).mem_iff.mp hcommunity
  obtain ⟨group, _, rfl⟩ := List.mem_map.mp hsorted
  exact increasing_mergeSort ((List.mergeSort_perm group _).nodup_iff.mp distinct)

end Network

end CallAtlas
