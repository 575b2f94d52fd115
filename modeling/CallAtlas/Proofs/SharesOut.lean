import Mathlib.Data.List.Nodup
import Mathlib.Data.List.Perm.Basic

/-!
# Lists shared out in groups

Communities share out nodes, and the answers of an index share out definitions: no group is empty,
none of the elements is lost, and none is in two groups unless it stands in the list twice. Groups
by a key are like that whatever the key is, and to divide each group further keeps it so.
-/

namespace CallAtlas

/-- Groups that share out a list: none is empty, and together they hold its elements, each as often
as the list does. -/
structure SharesOut {α : Type} (elements : List α) (groups : List (List α)) : Prop where
  nonempty : ∀ group ∈ groups, group ≠ []
  perm : groups.flatten.Perm elements

namespace SharesOut

variable {α β κ : Type}

/-- Groups by key, one for each name, hold every element whose key has a name. -/
theorem flatMap_filter_perm [BEq κ] [LawfulBEq κ] (key : α → κ) {names : List κ} {xs : List α}
    (distinct : names.Nodup) (known : ∀ x ∈ xs, key x ∈ names) :
    (names.flatMap fun c => xs.filter (key · == c)).Perm xs := by
  induction names generalizing xs with
  | nil =>
      have hxs : xs = [] := List.eq_nil_iff_forall_not_mem.mpr fun x hx => by simpa using known x hx
      simp [hxs]
  | cons c names ih =>
      obtain ⟨fresh, distinct⟩ := List.nodup_cons.mp distinct
      -- The other names see the same groups in what is left after the group of `c`.
      have rest : ∀ d ∈ names,
          xs.filter (key · == d) = (xs.filter (!key · == c)).filter (key · == d) := by
        intro d hd
        rw [List.filter_filter]
        refine List.filter_congr fun x _ => ?_
        by_cases hx : key x = d
        · have hne : key x ≠ c := fun h => fresh (h ▸ hx ▸ hd)
          simp [hx, hx ▸ hne]
        · simp [hx]
      have left : ∀ x ∈ xs.filter (!key · == c), key x ∈ names := by
        intro x hx
        obtain ⟨hmem, hne⟩ := List.mem_filter.mp hx
        exact (List.mem_cons.mp (known x hmem)).resolve_left (by simpa using hne)
      rw [List.flatMap_cons, List.flatMap_congr rest]
      exact ((ih distinct left).append_left _).trans (List.filter_append_perm _ xs)

/-- Every element is a group of its own. -/
theorem singletons (elements : List α) : SharesOut elements (elements.map fun x => [x]) where
  nonempty := by simp
  perm := by simp [List.flatten_eq_flatMap, List.flatMap_map]

/-- A list is a single group of its elements. -/
theorem whole {elements : List α} (h : elements ≠ []) : SharesOut elements [elements] where
  nonempty := by simpa using h
  perm := by simp

theorem of_perm {elements elements' : List α} {groups : List (List α)}
    (h : SharesOut elements groups) (perm : elements.Perm elements') :
    SharesOut elements' groups :=
  ⟨h.nonempty, h.perm.trans perm⟩

/-- The groups may come in another order, and each may be arranged anew. -/
theorem rearrange {elements : List α} {groups groups' : List (List α)}
    (h : SharesOut elements groups) (arrange : List α → List α)
    (keeps : ∀ group, (arrange group).Perm group) (perm : groups'.Perm (groups.map arrange)) :
    SharesOut elements groups' := by
  refine ⟨?_, ?_⟩
  · intro group hgroup
    obtain ⟨original, horiginal, rfl⟩ := List.mem_map.mp (perm.mem_iff.mp hgroup)
    intro hnil
    exact h.nonempty original horiginal (List.nil_perm.mp (hnil ▸ keeps original))
  · have arranged : (groups.map arrange).flatten.Perm groups.flatten := by
      rw [List.flatten_eq_flatMap, List.flatten_eq_flatMap, List.flatMap_map]
      exact List.Perm.flatMap_left _ fun group _ => keeps group
    exact (perm.flatten.trans arranged).trans h.perm

/-- Dividing each group further divides the whole. -/
theorem flatMap {elements : List α} {groups : List (List α)} {divide : List α → List (List α)}
    (h : SharesOut elements groups) (each : ∀ group ∈ groups, SharesOut group (divide group)) :
    SharesOut elements (groups.flatMap divide) := by
  refine ⟨?_, ?_⟩
  · intro part hpart
    obtain ⟨group, hgroup, hpart⟩ := List.mem_flatMap.mp hpart
    exact (each group hgroup).nonempty part hpart
  · have divided : (groups.flatMap divide).flatten.Perm groups.flatten := by
      rw [List.flatten_eq_flatMap, List.flatten_eq_flatMap, List.flatMap_assoc]
      refine List.Perm.flatMap_left _ fun group hgroup => ?_
      have hperm := (each group hgroup).perm
      rwa [List.flatten_eq_flatMap] at hperm
    exact divided.trans h.perm

/-- Elements that are given other names are shared out under these. -/
theorem map {elements : List α} {groups : List (List α)} (h : SharesOut elements groups)
    (f : α → β) : SharesOut (elements.map f) (groups.map (List.map f)) := by
  refine ⟨?_, ?_⟩
  · intro group hgroup
    obtain ⟨original, horiginal, rfl⟩ := List.mem_map.mp hgroup
    simpa using h.nonempty original horiginal
  · rw [← List.map_flatten]
    exact h.perm.map f

/-- The members of a group are elements. -/
theorem mem_of_mem {elements group : List α} {groups : List (List α)}
    (h : SharesOut elements groups)
    (hgroup : group ∈ groups) {x : α} (hx : x ∈ group) : x ∈ elements :=
  h.perm.mem_iff.mp (List.mem_flatten.mpr ⟨group, hgroup, hx⟩)

/-- When no element is repeated, no group repeats one. -/
theorem nodup_of_mem {elements group : List α} {groups : List (List α)}
    (h : SharesOut elements groups) (distinct : elements.Nodup) (hgroup : group ∈ groups) :
    group.Nodup :=
  (List.nodup_flatten.mp (h.perm.nodup_iff.mpr distinct)).1 group hgroup

/-- When no element is repeated, no two groups have one in common. -/
theorem disjoint {elements : List α} {groups : List (List α)} (h : SharesOut elements groups)
    (distinct : elements.Nodup) : groups.Pairwise List.Disjoint :=
  (List.nodup_flatten.mp (h.perm.nodup_iff.mpr distinct)).2

/-- Where there are several groups, each is smaller than the whole, since no other is empty. -/
theorem length_lt_of_mem {elements group : List α} {groups : List (List α)}
    (h : SharesOut elements groups) (several : 1 < groups.length) (hgroup : group ∈ groups) :
    group.length < elements.length := by
  obtain ⟨before, after, rfl⟩ := List.append_of_mem hgroup
  have total := h.perm.length_eq
  rw [List.flatten_append, List.flatten_cons, List.length_append, List.length_append] at total
  have others : before ++ after ≠ [] := by
    intro alone
    have counted := congrArg List.length alone
    simp only [List.length_append, List.length_cons, List.length_nil] at several counted
    omega
  obtain ⟨other, hother⟩ := List.exists_mem_of_ne_nil _ others
  have filled : 0 < other.length := by
    apply List.length_pos_of_ne_nil
    apply h.nonempty other
    simp only [List.mem_append, List.mem_cons] at hother ⊢
    tauto
  have counted : other.length ≤ (before ++ after).flatten.length :=
    (List.sublist_flatten_of_mem hother).length_le
  rw [List.flatten_append, List.length_append] at counted
  omega

end SharesOut

end CallAtlas
