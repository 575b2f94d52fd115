import CallAtlas.Path
import Mathlib.Data.List.TakeWhile

/-!
# Pieces and extensions

Names without slashes are found again between the slashes of the path that they make, and a name
has an extension exactly when it is something, a point, and an extension without points.
-/

namespace CallAtlas.Path

variable {α : Type} [DecidableEq α] [PathUnit α] {a b name ext : List α}

theorem pieces_append_slash (undivided : PathUnit.slash ∉ a) (b : List α) :
    pieces (a ++ PathUnit.slash :: b) = a :: pieces b := by
  induction a with
  | nil => rw [List.nil_append, pieces, if_pos rfl]
  | cons c a ih =>
      obtain ⟨other, later⟩ := not_or.mp (mt List.mem_cons.mpr undivided)
      rw [List.cons_append, pieces, if_neg (Ne.symm other), ih later]

theorem pieces_of_notMem (undivided : PathUnit.slash ∉ a) : pieces a = [a] := by
  induction a with
  | nil => rfl
  | cons c a ih =>
      obtain ⟨other, later⟩ := not_or.mp (mt List.mem_cons.mpr undivided)
      rw [pieces, if_neg (Ne.symm other), ih later]

/-- Names that are not empty are the pieces of the path that they make. -/
theorem pieces_intercalate {names : List (List α)} (filled : names ≠ [])
    (undivided : ∀ name ∈ names, PathUnit.slash ∉ name) :
    pieces ([PathUnit.slash].intercalate names) = names := by
  induction names with
  | nil => exact absurd rfl filled
  | cons name names ih =>
      obtain ⟨first, later⟩ := List.forall_mem_cons.mp undivided
      cases names with
      | nil => rw [List.intercalate_singleton, pieces_of_notMem first]
      | cons next names =>
          rw [List.intercalate_cons_cons, List.append_assoc]
          exact (pieces_append_slash first _).trans (congrArg _ (ih (List.cons_ne_nil _ _) later))

theorem join_right_inj {path : List α} (h : join path a = join path b) : a = b := by
  unfold join at h
  split_ifs at h
  · exact List.append_cancel_left h
  · exact (List.cons.inj (List.append_cancel_left h)).2

theorem extension?_eq (name : List α) :
    extension? name =
      if (name.reverse.dropWhile (· ≠ PathUnit.dot)).tail = [] then none
      else some (name.reverse.takeWhile (· ≠ PathUnit.dot)).reverse := by
  simp only [extension?, splitName, List.reverse_eq_nil_iff, apply_ite Prod.snd]

/-- A name that has an extension is something, a point and the extension. -/
theorem extension?_eq_some_iff :
    extension? name = some ext ↔
      ∃ stem, stem ≠ [] ∧ name = stem ++ PathUnit.dot :: ext ∧ PathUnit.dot ∉ ext := by
  rw [extension?_eq]
  constructor
  · intro h
    split_ifs at h with before
    obtain rfl := Option.some.inj h
    -- The part from the last point on is not empty, and begins with the point.
    cases rest : name.reverse.dropWhile (· ≠ PathUnit.dot) with
    | nil =>
        rw [rest] at before
        exact absurd rfl before
    | cons c stem =>
        have point : c = PathUnit.dot := by
          have first := List.head?_dropWhile_not (· ≠ PathUnit.dot) name.reverse
          rw [rest] at first
          simpa using first
        rw [rest, List.tail_cons] at before
        refine ⟨stem.reverse, List.reverse_ne_nil_iff.mpr before, ?_, ?_⟩
        · calc name = (name.reverse.takeWhile (· ≠ PathUnit.dot) ++
                name.reverse.dropWhile (· ≠ PathUnit.dot)).reverse := by
                rw [List.takeWhile_append_dropWhile, List.reverse_reverse]
            _ = _ := by
                rw [rest, point, List.reverse_append, List.reverse_cons, List.append_assoc,
                  List.singleton_append]
        · intro h
          have other := List.mem_takeWhile_imp (List.mem_reverse.mp h)
          simp at other
  · rintro ⟨stem, nonempty, rfl, pointless⟩
    have other : ∀ c ∈ ext.reverse, decide (c ≠ PathUnit.dot) = true := by
      intro c hc
      rw [decide_eq_true_eq]
      rintro rfl
      exact pointless (List.mem_reverse.mp hc)
    have reverse : (stem ++ PathUnit.dot :: ext).reverse =
        ext.reverse ++ PathUnit.dot :: stem.reverse := by simp
    rw [reverse, List.takeWhile_append_of_pos other, List.dropWhile_append_of_pos other]
    simp [nonempty]

end CallAtlas.Path
