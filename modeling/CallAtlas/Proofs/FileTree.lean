import CallAtlas.FileTree
import CallAtlas.Path
import Mathlib.Data.List.Nodup

/-!
# What a walk finds in a tree

In a tree whose directories have distinct names, the walk over admitted names finds exactly what can
be looked up: a sequence of names is found, and found once, when each of the names is admitted and a
wanted tree stands at the end of them. Since looking up follows no link and opens no locked
directory, neither does the walk.
-/

namespace CallAtlas.FileTree

variable {wanted : FileTree → Bool} {admits : Bytes → Bool} {tree : FileTree} {entries : List (Bytes × FileTree)}
  {above names : List Bytes}

/-- The names in every directory are distinct, and none has a slash in it. -/
inductive WellNamed : FileTree → Prop where
  | file (content : Content) : WellNamed (.file content)
  | link (target : Bytes) : WellNamed (.link target)
  | locked : WellNamed .locked
  | dir {entries : List (Bytes × FileTree)} (distinct : (entries.map Prod.fst).Nodup)
      (undivided : ∀ entry ∈ entries, PathUnit.slash ∉ entry.1)
      (below : ∀ entry ∈ entries, WellNamed entry.2) : WellNamed (.dir entries)

theorem lookup_eq_some_iff (distinct : (entries.map Prod.fst).Nodup) {name : Bytes} :
    entries.lookup name = some tree ↔ (name, tree) ∈ entries := by
  induction entries with
  | nil => simp
  | cons entry entries ih =>
      obtain ⟨fresh, distinct⟩ := List.nodup_cons.mp distinct
      rw [List.lookup_cons, List.mem_cons]
      by_cases same : name = entry.1
      · subst same
        have missing : (entry.1, tree) ∉ entries := fun h =>
          fresh (List.mem_map.mpr ⟨_, h, rfl⟩)
        simp [missing, Prod.ext_iff, eq_comm]
      · have other : (name, tree) ≠ entry := fun h => same (congrArg Prod.fst h)
        simp only [beq_eq_false_iff_ne.mpr same, other, false_or]
        exact ih distinct

theorem get?_cons {name : Bytes} (distinct : (entries.map Prod.fst).Nodup)
    (listed : (name, tree) ∈ entries) (rest : List Bytes) :
    (dir entries).get? (name :: rest) = tree.get? rest := by
  rw [get?, (lookup_eq_some_iff distinct).mpr listed, Option.bind_some]

/-- What stands at some names of a well-named tree is well-named, and the names have no slash. -/
theorem WellNamed.get? {found : FileTree} (h : tree.WellNamed)
    (stands : tree.get? names = some found) :
    found.WellNamed ∧ ∀ name ∈ names, PathUnit.slash ∉ name := by
  induction names generalizing tree with
  | nil =>
      obtain rfl := Option.some.inj stands
      exact ⟨h, by simp⟩
  | cons name names ih =>
      cases h with
      | file content => cases stands
      | link target => cases stands
      | locked => cases stands
      | dir distinct undivided below =>
          obtain ⟨entry, looked, stands⟩ := Option.bind_eq_some_iff.mp stands
          have listed := (lookup_eq_some_iff distinct).mp looked
          obtain ⟨wellNamed, later⟩ := ih (below _ listed) stands
          exact ⟨wellNamed, List.forall_mem_cons.mpr ⟨undivided _ listed, later⟩⟩

theorem findAmong_eq_flatMap (entries : List (Bytes × FileTree)) :
    findAmong wanted admits above entries = entries.flatMap fun entry =>
      if admits entry.1 then find wanted admits (above ++ [entry.1]) entry.2 else [] := by
  induction entries with
  | nil => rfl
  | cons entry entries ih => rw [findAmong, ih, List.flatMap_cons]

/-- A tree that is no open directory is all that there is at its place. -/
theorem mem_find_leaf_iff (leaf : ∀ name rest, tree.get? (name :: rest) = none)
    (whole : tree.find wanted admits above = if wanted tree then [above] else []) :
    names ∈ tree.find wanted admits above ↔
      ∃ rest, names = above ++ rest ∧ (∃ met, tree.get? rest = some met ∧ wanted met = true) ∧
        ∀ name ∈ rest, admits name = true := by
  rw [whole, List.mem_ite_nil_right, List.mem_singleton]
  constructor
  · rintro ⟨met, rfl⟩
    exact ⟨[], (List.append_nil _).symm, ⟨tree, rfl, met⟩, by simp⟩
  · rintro ⟨rest, rfl, ⟨met, stands, accepted⟩, -⟩
    cases rest with
    | nil =>
        obtain rfl := Option.some.inj stands
        exact ⟨accepted, List.append_nil above⟩
    | cons name rest => cases (leaf name rest).symm.trans stands

/-- The walk finds what can be looked up through admitted names. -/
theorem mem_find_iff (h : tree.WellNamed) (closed : ∀ entries, wanted (dir entries) = false) :
    names ∈ tree.find wanted admits above ↔
      ∃ rest, names = above ++ rest ∧ (∃ met, tree.get? rest = some met ∧ wanted met = true) ∧
        ∀ name ∈ rest, admits name = true := by
  induction h generalizing above names with
  | file content => exact mem_find_leaf_iff (fun _ _ => rfl) rfl
  | link target => exact mem_find_leaf_iff (fun _ _ => rfl) rfl
  | locked => exact mem_find_leaf_iff (fun _ _ => rfl) rfl
  | @dir entries distinct undivided below ih =>
      rw [find, findAmong_eq_flatMap, List.mem_flatMap]
      constructor
      · rintro ⟨⟨name, tree⟩, listed, found⟩
        obtain ⟨admitted, found⟩ := List.mem_ite_nil_right.mp found
        obtain ⟨rest, rfl, ⟨met, stands, accepted⟩, later⟩ := (ih _ listed).mp found
        exact ⟨name :: rest, (List.append_cons ..).symm,
          ⟨met, (get?_cons distinct listed rest).trans stands, accepted⟩,
          List.forall_mem_cons.mpr ⟨admitted, later⟩⟩
      · rintro ⟨rest, rfl, ⟨met, stands, accepted⟩, admitted⟩
        cases rest with
        | nil =>
            obtain rfl := Option.some.inj stands
            cases (closed entries).symm.trans accepted
        | cons name rest =>
            obtain ⟨tree, looked, stands⟩ := Option.bind_eq_some_iff.mp stands
            obtain ⟨first, later⟩ := List.forall_mem_cons.mp admitted
            have listed := (lookup_eq_some_iff distinct).mp looked
            refine ⟨(name, tree), listed, ?_⟩
            rw [if_pos first, ih _ listed]
            exact ⟨rest, List.append_cons .., ⟨met, stands, accepted⟩, later⟩

theorem mem_findAmong_iff (h : (dir entries).WellNamed)
    (closed : ∀ entries, wanted (dir entries) = false) :
    names ∈ findAmong wanted admits [] entries ↔
      (∃ met, (dir entries).get? names = some met ∧ wanted met = true) ∧
        ∀ name ∈ names, admits name = true := by
  have walked : names ∈ (dir entries).find wanted admits [] ↔ _ := mem_find_iff h closed
  rw [find] at walked
  simpa using walked

/-- Nothing is found twice. -/
theorem nodup_find (h : tree.WellNamed) (closed : ∀ entries, wanted (dir entries) = false) :
    (tree.find wanted admits above).Nodup := by
  have single : ∀ (above : List Bytes) (met : Bool), (if met then [above] else []).Nodup := by
    intro above met
    cases met <;> simp
  induction h generalizing above with
  | file content => exact single above _
  | link target => exact single above _
  | locked => exact single above _
  | @dir entries distinct undivided below ih =>
      rw [find, findAmong_eq_flatMap, List.nodup_flatMap]
      constructor
      · intro entry listed
        split
        · exact ih entry listed
        · exact List.nodup_nil
      · -- What is found under two names differs where the names stand.
        refine (List.pairwise_map.mp distinct).imp_of_mem fun {a b} ha hb different => ?_
        intro names left right
        have left := (List.mem_ite_nil_right.mp left).2
        have right := (List.mem_ite_nil_right.mp right).2
        obtain ⟨rest, rfl, -⟩ := (mem_find_iff (below a ha) closed).mp left
        obtain ⟨rest', same, -⟩ := (mem_find_iff (below b hb) closed).mp right
        rw [List.append_assoc, List.append_assoc, List.append_right_inj] at same
        exact different (List.cons.inj same).1

theorem isFile_iff : tree.isFile = true ↔ ∃ content, tree = file content := by
  cases tree <;> simp [isFile]

theorem isLocked_iff : tree.isLocked = true ↔ tree = locked := by
  cases tree <;> simp [isLocked]

end CallAtlas.FileTree
