import CallAtlas.Dictionary
import CallAtlas.Proofs.Ordered
import Mathlib.Data.String.Basic

/-!
# Looking up names

A dictionary holds each name once, so what stands under a name is found there. A dictionary that is
made from a list with distinct names holds all that the list does, and one that is made from the
entries of another is the same.
-/

namespace CallAtlas.Dictionary

variable {α : Type} {d : Dictionary α} {name : String} {value : α}

/-- A dictionary is made again from its entries. -/
theorem ofList_entries (d : Dictionary α) : ofList d.entries = d := by
  cases d with
  | mk entries increasing =>
      simp only [ofList, Ordered.ofList_eq_of_perm increasing (List.reverse_perm entries)]

theorem mem_of_mem_ofList {entries : List (String × α)} {entry : String × α}
    (h : entry ∈ (ofList entries).entries) : entry ∈ entries :=
  List.mem_reverse.mp (Ordered.mem_of_mem_ofList h)

/-- The value under a name. -/
def get? (d : Dictionary α) (name : String) : Option α := d.entries.lookup name

theorem get?_of_mem (h : (name, value) ∈ d.entries) : d.get? name = some value := by
  obtain ⟨earlier, later, split⟩ := List.append_of_mem h
  refine List.lookup_eq_some_iff.mpr ⟨earlier, later, split, ?_⟩
  intro entry before
  have increasing := d.increasing
  rw [split] at increasing
  have smaller := (List.pairwise_append.mp increasing).2.2 entry before _ List.mem_cons_self
  exact bne_iff_ne.mpr (compare_lt_iff_lt.mp smaller).ne'

/-- A dictionary has the entries of a list with distinct names. -/
theorem entries_ofList_perm {entries : List (String × α)}
    (distinct : (entries.map Prod.fst).Nodup) : (ofList entries).entries.Perm entries := by
  have reversed : (entries.reverse.map Prod.fst).Nodup := by
    rw [List.map_reverse]
    exact List.nodup_reverse.mpr distinct
  exact (Ordered.ofList_perm reversed).trans (List.reverse_perm entries)

theorem get?_ofList {entries : List (String × α)} (distinct : (entries.map Prod.fst).Nodup)
    (h : (name, value) ∈ entries) : (ofList entries).get? name = some value :=
  get?_of_mem ((entries_ofList_perm distinct).mem_iff.mpr h)

end CallAtlas.Dictionary
