/-!
# Lists in increasing order of a key

Sets of call references, the functions of a graph and its calls are all kept as lists whose keys
increase strictly. Such a list shows its order without sorting, holds no key twice, and two of
them with the same elements are equal.

`insert` puts an element in its place, unless its key is there already; then the list stays as it
is. `increasing_insert` says that the order survives.
-/

namespace CallAtlas.Ordered

variable {α κ : Type} [Ord κ]

/-- One element comes before another when its key is smaller. -/
def Before (key : α → κ) (a b : α) : Prop := compare (key a) (key b) = .lt

/-- The keys of a list increase strictly. -/
def Increasing (key : α → κ) (xs : List α) : Prop := xs.Pairwise (Before key)

/-- A list with one more element in its place; an element with its key stays instead. -/
def insert (key : α → κ) (x : α) : List α → List α
  | [] => [x]
  | y :: ys =>
    match compare (key x) (key y) with
    | .lt => x :: y :: ys
    | .eq => y :: ys
    | .gt => y :: insert key x ys

/-- The elements of a list in order of their keys, of each key the first. -/
def ofList (key : α → κ) (xs : List α) : List α :=
  xs.foldl (fun acc x => insert key x acc) []

theorem mem_of_mem_insert {key : α → κ} {x a : α} {xs : List α} (h : a ∈ insert key x xs) :
    a = x ∨ a ∈ xs := by
  induction xs with
  | nil => simpa [insert] using h
  | cons y ys ih =>
    simp only [insert] at h
    split at h
    · simpa using h
    · exact Or.inr h
    · rcases List.mem_cons.mp h with rfl | h
      · exact Or.inr List.mem_cons_self
      · exact (ih h).imp id (List.mem_cons_of_mem _)

theorem mem_insert_of_mem {key : α → κ} {x a : α} {xs : List α} (h : a ∈ xs) :
    a ∈ insert key x xs := by
  induction xs with
  | nil => simp at h
  | cons y ys ih =>
    simp only [insert]
    split
    · exact List.mem_cons_of_mem _ h
    · exact h
    · rcases List.mem_cons.mp h with rfl | h
      · exact List.mem_cons_self
      · exact List.mem_cons_of_mem _ (ih h)

/-- Insertion adds its key, and no other. -/
theorem mem_keys_insert [Std.LawfulEqOrd κ] {key : α → κ} {x : α} {xs : List α} {k : κ} :
    k ∈ (insert key x xs).map key ↔ k ∈ xs.map key ∨ k = key x := by
  induction xs with
  | nil => simp [insert]
  | cons y ys ih =>
    simp only [insert]
    split
    · simp only [List.map_cons, List.mem_cons]
      exact ⟨fun h => h.elim .inr .inl, fun h => h.elim .inr .inl⟩
    · next same =>
      rw [Std.LawfulEqOrd.eq_of_compare same]
      simp only [List.map_cons, List.mem_cons]
      exact ⟨.inl, fun h => h.elim id .inl⟩
    · simp only [List.map_cons, List.mem_cons, ih, or_assoc]

theorem increasing_nil (key : α → κ) : Increasing key [] := List.Pairwise.nil

theorem increasing_insert [Std.TransOrd κ] {key : α → κ} {xs : List α} (x : α)
    (h : Increasing key xs) : Increasing key (insert key x xs) := by
  induction xs with
  | nil => exact List.pairwise_singleton _ _
  | cons y ys ih =>
    have hy := (List.pairwise_cons.mp h).1
    simp only [insert]
    split
    · next hlt =>
      refine List.pairwise_cons.mpr ⟨fun a ha => ?_, h⟩
      rcases List.mem_cons.mp ha with rfl | ha
      · exact hlt
      · exact Std.TransCmp.lt_trans hlt (hy a ha)
    · exact h
    · next hgt =>
      refine List.pairwise_cons.mpr ⟨fun a ha => ?_, ih (List.pairwise_cons.mp h).2⟩
      rcases mem_of_mem_insert ha with rfl | ha
      · exact Std.OrientedCmp.gt_iff_lt.mp hgt
      · exact hy a ha

theorem increasing_foldl_insert [Std.TransOrd κ] {key : α → κ} (xs : List α) {acc : List α}
    (h : Increasing key acc) :
    Increasing key (xs.foldl (fun acc x => insert key x acc) acc) := by
  induction xs generalizing acc with
  | nil => exact h
  | cons x xs ih => exact ih (increasing_insert x h)

theorem increasing_ofList [Std.TransOrd κ] (key : α → κ) (xs : List α) :
    Increasing key (ofList key xs) :=
  increasing_foldl_insert xs (increasing_nil key)

end CallAtlas.Ordered
