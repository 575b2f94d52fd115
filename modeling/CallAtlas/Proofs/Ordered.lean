import CallAtlas.Ordered
import Mathlib.Data.List.Nodup
import Mathlib.Data.List.Perm.Basic
import Mathlib.Order.Lattice

/-!
# Elements of ordered lists

Insertion in order adds one element and loses none. Sorting by a key gives the same elements in the
order of their keys, and always the same list of them when keys are distinct. A list that is in
order already is made again from its elements.
-/

namespace CallAtlas.Ordered

variable {α κ : Type} [Ord κ] {key : α → κ}

/-- An element whose key is new is added, and nothing else changes. -/
theorem insert_perm [Std.LawfulEqOrd κ] {x : α} {xs : List α}
    (fresh : ∀ y ∈ xs, key y ≠ key x) : (insert key x xs).Perm (x :: xs) := by
  induction xs with
  | nil => exact List.Perm.refl _
  | cons y ys ih =>
      simp only [insert]
      split
      · exact List.Perm.refl _
      · next same =>
        exact absurd (Std.LawfulEqOrd.eq_of_compare same).symm (fresh y List.mem_cons_self)
      · have rest := ih fun z hz => fresh z (List.mem_cons_of_mem y hz)
        exact (rest.cons y).trans (List.Perm.swap x y ys)

/-- Elements with distinct new keys are all added. -/
theorem foldl_insert_perm [Std.LawfulEqOrd κ] {xs acc : List α}
    (distinct : ((xs ++ acc).map key).Nodup) :
    (xs.foldl (fun acc x => insert key x acc) acc).Perm (xs ++ acc) := by
  induction xs generalizing acc with
  | nil => exact List.Perm.refl _
  | cons x xs ih =>
      obtain ⟨new, -⟩ := List.nodup_cons.mp distinct
      have added : (insert key x acc).Perm (x :: acc) := insert_perm fun y hy same =>
        new (same ▸ List.mem_map_of_mem (List.mem_append_right xs hy))
      have shifted : (xs ++ insert key x acc).Perm (x :: (xs ++ acc)) :=
        (added.append_left xs).trans List.perm_middle
      exact (ih ((shifted.map key).nodup_iff.mpr distinct)).trans shifted

theorem ofList_perm [Std.LawfulEqOrd κ] {xs : List α} (distinct : (xs.map key).Nodup) :
    (ofList key xs).Perm xs := by
  have perm : (ofList key xs).Perm (xs ++ []) := foldl_insert_perm (by simpa using distinct)
  simpa using perm

theorem mem_of_mem_ofList {a : α} {xs : List α} (h : a ∈ ofList key xs) : a ∈ xs := by
  have gathered : ∀ acc : List α,
      a ∈ xs.foldl (fun acc x => insert key x acc) acc → a ∈ xs ∨ a ∈ acc := by
    clear h
    induction xs with
    | nil => exact fun acc h => .inr h
    | cons x xs ih =>
        intro acc h
        cases ih (insert key x acc) h with
        | inl later => exact .inl (List.mem_cons_of_mem x later)
        | inr now =>
            cases mem_of_mem_insert now with
            | inl same => exact .inl (same ▸ List.mem_cons_self)
            | inr before => exact .inr before
  exact (gathered [] h).resolve_right List.not_mem_nil

theorem ofList_concat (key : α → κ) (xs : List α) (x : α) :
    ofList key (xs ++ [x]) = insert key x (ofList key xs) := by
  rw [ofList, List.foldl_append]
  rfl

/-- Changes that leave the keys leave the order. -/
theorem map_insert {f : α → α} (keeps : ∀ x, key (f x) = key x) (x : α) (xs : List α) :
    (insert key x xs).map f = insert key (f x) (xs.map f) := by
  induction xs with
  | nil => rfl
  | cons y ys ih =>
      simp only [insert, List.map_cons, keeps]
      split
      · rfl
      · rfl
      · rw [List.map_cons, ih]

theorem map_ofList {f : α → α} (keeps : ∀ x, key (f x) = key x) (xs : List α) :
    (ofList key xs).map f = ofList key (xs.map f) := by
  have gathered : ∀ acc : List α, (xs.foldl (fun acc x => insert key x acc) acc).map f =
      (xs.map f).foldl (fun acc x => insert key x acc) (acc.map f) := by
    induction xs with
    | nil => exact fun acc => rfl
    | cons x xs ih =>
        intro acc
        rw [List.foldl_cons, ih, map_insert keeps, List.map_cons, List.foldl_cons]
  exact gathered []

/-- Where the key is the element itself, insertion adds it to the elements. -/
theorem mem_insert_id {x a : κ} [Std.LawfulEqOrd κ] {xs : List κ} :
    a ∈ insert id x xs ↔ a = x ∨ a ∈ xs := by
  constructor
  · exact mem_of_mem_insert
  · rintro (rfl | h)
    · by_cases known : a ∈ xs
      · exact mem_insert_of_mem known
      · refine (insert_perm fun y hy same => known ?_).mem_iff.mpr List.mem_cons_self
        exact (show y = a from same) ▸ hy
    · exact mem_insert_of_mem h

/-- Where the key is the element itself, the ordered list has the same elements. -/
theorem mem_ofList_id {a : κ} [Std.LawfulEqOrd κ] {xs : List κ} : a ∈ ofList id xs ↔ a ∈ xs := by
  have gathered : ∀ acc : List κ,
      a ∈ xs.foldl (fun acc x => insert id x acc) acc ↔ a ∈ xs ∨ a ∈ acc := by
    induction xs with
    | nil => simp
    | cons x xs ih =>
        intro acc
        rw [List.foldl_cons, ih, mem_insert_id, List.mem_cons]
        exact ⟨fun h => h.elim (.inl ∘ .inr) fun h => h.elim (.inl ∘ .inl) .inr,
          fun h => h.elim (fun h => h.elim (.inr ∘ .inl) .inl) (.inr ∘ .inr)⟩
  simpa [ofList] using gathered []

theorem Increasing.nodup_keys [Std.TransOrd κ] [Std.LawfulEqOrd κ] {xs : List α}
    (increasing : Increasing key xs) : (xs.map key).Nodup := by
  refine List.pairwise_map.mpr (increasing.imp fun {a b} before same => ?_)
  rw [Before, same, Std.ReflOrd.compare_self] at before
  cases before

/-- An element whose key is there already is not added. -/
theorem Increasing.insert_of_mem [Std.TransOrd κ] [Std.LawfulEqOrd κ] {x : α} {xs : List α}
    (increasing : Increasing key xs) (known : key x ∈ xs.map key) : insert key x xs = xs := by
  induction xs with
  | nil => cases known
  | cons y ys ih =>
      obtain ⟨before, later⟩ := List.pairwise_cons.mp increasing
      simp only [insert]
      split
      · next smaller =>
        -- The key is smaller than all others, so it cannot be one of them.
        obtain ⟨z, hz, same⟩ := List.mem_map.mp known
        rw [← same] at smaller
        rcases List.mem_cons.mp hz with rfl | hz
        · rw [Std.ReflOrd.compare_self] at smaller
          cases smaller
        · have greater : compare (key z) (key y) = .gt := Std.OrientedCmp.gt_iff_lt.mpr (before z hz)
          rw [greater] at smaller
          cases smaller
      · rfl
      · next larger =>
        rcases List.mem_cons.mp known with same | known
        · rw [same, Std.ReflOrd.compare_self] at larger
          cases larger
        · rw [ih later known]

theorem Increasing.eq_of_perm [Std.TransOrd κ] {xs ys : List α} (increasing : Increasing key xs)
    (increasing' : Increasing key ys) (perm : xs.Perm ys) : xs = ys := by
  refine List.Perm.eq_of_pairwise ?_ increasing increasing' perm
  intro a b _ _ before after
  have greater : compare (key a) (key b) = .gt := Std.OrientedCmp.gt_iff_lt.mpr after
  exact absurd (greater.symm.trans before) (by decide)

/-- A list in order is all that is made of its elements, in whatever order they come. -/
theorem ofList_eq_of_perm [Std.TransOrd κ] [Std.LawfulEqOrd κ] {xs ys : List α}
    (increasing : Increasing key xs) (perm : ys.Perm xs) : ofList key ys = xs := by
  have distinct : (ys.map key).Nodup := (perm.map key).nodup_iff.mpr increasing.nodup_keys
  exact (increasing_ofList key ys).eq_of_perm increasing ((ofList_perm distinct).trans perm)

/-- Where the key is the element itself, a list in order is made of its elements, however often
they come. -/
theorem ofList_id_eq_of_mem_iff [Std.TransOrd κ] [Std.LawfulEqOrd κ] {xs ys : List κ}
    (increasing : Increasing id xs) (members : ∀ a, a ∈ ys ↔ a ∈ xs) : ofList id ys = xs := by
  have made := increasing_ofList id ys
  refine made.eq_of_perm increasing ((List.perm_ext_iff_of_nodup ?_ ?_).mpr fun a => ?_)
  · simpa using made.nodup_keys
  · simpa using increasing.nodup_keys
  · rw [mem_ofList_id, members]

/-- A list that is sorted by a key is in the order of the keys. -/
theorem pairwise_mergeSort_key {α κ : Type} [LinearOrder κ] (key : α → κ) (xs : List α) :
    (xs.mergeSort fun a b => key a ≤ key b).Pairwise fun a b => key a ≤ key b := by
  have sorted : (xs.mergeSort fun a b => key a ≤ key b).Pairwise
      fun a b => decide (key a ≤ key b) = true := by
    refine List.pairwise_mergeSort ?_ ?_ xs
    · intro a b c hab hbc
      exact decide_eq_true (le_trans (of_decide_eq_true hab) (of_decide_eq_true hbc))
    · intro a b
      rcases le_total (key a) (key b) with h | h
      · simp [h]
      · simp [h]
  exact sorted.imp fun h => of_decide_eq_true h

/-- Where no two elements have the same key, sorting by key forgets the order before. -/
theorem mergeSort_key_eq_of_perm {α κ : Type} [LinearOrder κ] {key : α → κ} {xs ys : List α}
    (perm : xs.Perm ys) (distinct : (xs.map key).Nodup) :
    (xs.mergeSort fun a b => key a ≤ key b) = ys.mergeSort fun a b => key a ≤ key b := by
  have ofXs := List.mergeSort_perm xs fun a b => key a ≤ key b
  have ofYs := List.mergeSort_perm ys fun a b => key a ≤ key b
  apply List.Perm.eq_of_pairwise ?_ (pairwise_mergeSort_key key xs) (pairwise_mergeSort_key key ys)
    ((ofXs.trans perm).trans ofYs.symm)
  intro a b ha hb hab hba
  have inXs : a ∈ xs := ofXs.mem_iff.mp ha
  have inYs : b ∈ ys := ofYs.mem_iff.mp hb
  exact List.inj_on_of_nodup_map distinct inXs (perm.mem_iff.mpr inYs) (le_antisymm hab hba)

end CallAtlas.Ordered
