import CallAtlas.Proofs.Text.Utf8
import CallAtlas.Text.CommonPrefix
import Mathlib.Data.Nat.Find

/-!
# The longest common beginning

The bytes that a text shares with others are found by one comparison after another, and the cut is
the last place between characters of the first text that they reach. Since no character begins as
another one does, what stands before the cut is the beginning of every text in whole characters, and
there is no longer one: a character inside which texts part is not common to all of them.
-/

namespace CallAtlas.Text

open Utf8 (encode_isPrefix_encode_iff length_encode)

/-- The longest beginning, in whole characters, that the texts of a list have in common. -/
structure IsLongestCommonPrefix (texts : List String) (shared : String) : Prop where
  begins : ∀ text ∈ texts, shared.toList <+: text.toList
  longest : ∀ cs : List Char, (∀ text ∈ texts, cs <+: text.toList) → cs <+: shared.toList

section Bytes

variable {first other : Bytes} {others : List Bytes} {len k : Nat}

/-- Bytes begin another sequence if it has as many and they agree with it at each place. -/
theorem take_isPrefix_iff (inside : k ≤ first.length) :
    first.take k <+: other ↔ k ≤ other.length ∧
      ∀ i (h : i < (first.zip other).length), i < k →
        (first.zip other)[i].1 = (first.zip other)[i].2 := by
  have length : (first.take k).length = k := List.length_take_of_le inside
  rw [List.prefix_iff_getElem]
  constructor
  · rintro ⟨bound, same⟩
    refine ⟨length ▸ bound, fun i h before => ?_⟩
    simpa using same i (length.symm ▸ before)
  · rintro ⟨bound, same⟩
    refine ⟨length.symm ▸ bound, fun i before => ?_⟩
    rw [length] at before
    have paired : i < (first.zip other).length := by
      rw [List.length_zip]
      omega
    simpa using same i paired before

/-- The bytes that are left are those that the other text begins with. -/
theorem le_agreeing_iff (fits : len ≤ first.length) :
    k ≤ agreeing first len other ↔ k ≤ len ∧ first.take k <+: other := by
  rw [agreeing]
  split
  · next place found =>
    obtain ⟨paired, differ, same⟩ := List.findIdx?_eq_some_iff_getElem.mp found
    rw [le_min_iff, le_min_iff, and_assoc]
    refine and_congr_right fun within => ?_
    rw [take_isPrefix_iff (within.trans fits)]
    refine and_congr_right fun _ => ?_
    constructor
    · intro early i h before
      simpa using same i (Nat.lt_of_lt_of_le before early)
    · intro agree
      by_contra late
      exact bne_iff_ne.mp differ (agree place paired (Nat.lt_of_not_le late))
  · next alike =>
    rw [le_min_iff]
    refine and_congr_right fun within => ?_
    rw [take_isPrefix_iff (within.trans fits), iff_self_and]
    intro _ i h _
    simpa using List.findIdx?_eq_none_iff.mp alike _ (List.getElem_mem h)

/-- After all comparisons those bytes are left that every other text begins with. -/
theorem le_foldl_agreeing_iff (fits : len ≤ first.length) :
    k ≤ others.foldl (agreeing first) len ↔
      k ≤ len ∧ ∀ other ∈ others, first.take k <+: other := by
  induction others generalizing len with
  | nil => simp
  | cons other others ih =>
      have less : agreeing first len other ≤ len := ((le_agreeing_iff fits).mp le_rfl).1
      rw [List.foldl_cons, ih (less.trans fits), le_agreeing_iff fits, List.forall_mem_cons,
        and_assoc]

end Bytes

section Cut

variable {text head first : String} {rest : List String} {place k n : Nat}

/-- The shared length is the greatest number of bytes that all the texts begin with. -/
theorem le_sharedLength_iff : k ≤ sharedLength first rest ↔
    k ≤ (Utf8.encode first).length ∧
      ∀ text ∈ rest, (Utf8.encode first).take k <+: Utf8.encode text := by
  rw [sharedLength, le_foldl_agreeing_iff le_rfl, List.forall_mem_map]

theorem toList_isPrefix_iff : head.toList <+: text.toList ↔ ∃ tail, text = head ++ tail := by
  constructor
  · rintro ⟨tail, whole⟩
    refine ⟨String.ofList tail, ?_⟩
    rw [← String.toList_inj, String.toList_append, String.toList_ofList, whole]
  · rintro ⟨tail, rfl⟩
    rw [String.toList_append]
    exact List.prefix_append _ _

/-- A place between characters comes after the bytes of a beginning of the text. -/
theorem isValid_iff_exists_isPrefix : String.Pos.Raw.IsValid text ⟨place⟩ ↔
    ∃ head : String, head.toList <+: text.toList ∧ (Utf8.encode head).length = place := by
  simp only [String.Pos.Raw.isValid_iff_exists_append, toList_isPrefix_iff, length_encode,
    String.rawEndPos, String.Pos.Raw.mk.injEq, exists_and_right, eq_comm]

theorem lastBoundary_eq_findGreatest (text : String) (n : Nat) :
    lastBoundary text n = Nat.findGreatest (fun k => String.Pos.Raw.isValid text ⟨k⟩ = true) n := by
  induction n with
  | zero => rfl
  | succ n ih => rw [lastBoundary, Nat.findGreatest_succ, ih]

/-- Going back ends between two characters, since no character stands across the beginning. -/
theorem isValid_lastBoundary (text : String) (n : Nat) :
    String.Pos.Raw.IsValid text ⟨lastBoundary text n⟩ := by
  have start : String.Pos.Raw.isValid text ⟨0⟩ = true :=
    String.Pos.Raw.isValid_eq_true_iff.mpr String.Pos.Raw.isValid_zero
  rw [← String.Pos.Raw.isValid_eq_true_iff, lastBoundary_eq_findGreatest]
  exact Nat.findGreatest_spec (P := fun k => String.Pos.Raw.isValid text ⟨k⟩ = true)
    (Nat.zero_le n) start

/-- Going back passes no place between two characters. -/
theorem le_lastBoundary_iff (valid : String.Pos.Raw.IsValid text ⟨k⟩) :
    k ≤ lastBoundary text n ↔ k ≤ n := by
  rw [lastBoundary_eq_findGreatest]
  constructor
  · intro reached
    exact reached.trans (Nat.findGreatest_le n)
  · intro reached
    exact Nat.le_findGreatest reached (String.Pos.Raw.isValid_eq_true_iff.mpr valid)

/-- A beginning of the first text reaches no further than the cut just when all texts have it. -/
theorem length_encode_le_cut_iff (begins : head.toList <+: first.toList) :
    (Utf8.encode head).length ≤ cut first rest ↔ ∀ text ∈ rest, head.toList <+: text.toList := by
  have valid : String.Pos.Raw.IsValid first ⟨(Utf8.encode head).length⟩ :=
    isValid_iff_exists_isPrefix.mpr ⟨head, begins, rfl⟩
  have bytes : Utf8.encode head <+: Utf8.encode first := encode_isPrefix_encode_iff.mpr begins
  rw [cut, le_lastBoundary_iff valid, le_sharedLength_iff, ← List.prefix_iff_eq_take.mp bytes,
    and_iff_right bytes.length_le]
  simp only [encode_isPrefix_encode_iff]

/-- A beginning of the first text that reaches the cut is common to all texts, and the longest. -/
theorem isLongestCommonPrefix_of_reaches (begins : head.toList <+: first.toList)
    (reaches : (Utf8.encode head).length = cut first rest) :
    IsLongestCommonPrefix (first :: rest) head where
  begins := List.forall_mem_cons.mpr ⟨begins, (length_encode_le_cut_iff begins).mp reaches.le⟩
  longest cs common := by
    rw [← String.toList_ofList (l := cs)] at common ⊢
    obtain ⟨begins', common⟩ := List.forall_mem_cons.mp common
    have shorter := (length_encode_le_cut_iff begins').mpr common
    rw [← reaches] at shorter
    -- Of two beginnings of one sequence of bytes, the shorter one is a beginning of the other.
    rw [← encode_isPrefix_encode_iff] at begins begins' ⊢
    exact List.prefix_of_prefix_length_le begins' begins shorter

end Cut

section Slice

variable {text head : String} {place : Nat}

theorem pos?_eq_some_iff {pos : text.Pos} :
    text.pos? ⟨place⟩ = some pos ↔ pos.offset = ⟨place⟩ := by
  simp only [String.pos?, String.Slice.pos?, Option.map_dif]
  constructor
  · intro found
    split at found
    · cases found
      rfl
    · cases found
  · intro same
    have valid : String.Pos.Raw.isValidForSlice text.toSlice ⟨place⟩ = true := by
      rw [String.Pos.Raw.isValidForSlice_eq_true_iff, ← same]
      exact pos.isValid.toSlice
    rw [dif_pos valid]
    exact congrArg some (String.Pos.ext same.symm)

/-- What stands before a place is the beginning of the text with this number of bytes, and there is
nothing where no beginning has this number. -/
theorem before?_eq_some_iff : before? text place = some head ↔
    head.toList <+: text.toList ∧ (Utf8.encode head).length = place := by
  rw [before?, Option.map_eq_some_iff, length_encode, toList_isPrefix_iff]
  constructor
  · rintro ⟨pos, found, rfl⟩
    obtain ⟨whole, length⟩ := pos.splits
    rw [pos?_eq_some_iff.mp found] at length
    exact ⟨⟨_, whole⟩, (congrArg String.Pos.Raw.byteIdx length).symm⟩
  · rintro ⟨⟨tail, whole⟩, rfl⟩
    have valid : String.Pos.Raw.IsValid text head.rawEndPos :=
      String.Pos.Raw.isValid_iff_exists_append.mpr ⟨head, tail, whole, rfl⟩
    exact ⟨⟨_, valid⟩, pos?_eq_some_iff.mpr rfl, String.Pos.Splits.copy_sliceTo_eq ⟨whole, rfl⟩⟩

end Slice

/-- Of one or more texts there is always a longest common beginning. It is what stands before the
cut, and the cut is between characters in each of the texts, wherever they part. -/
theorem exists_longest_common_beginning (first : String) (rest : List String) :
    ∃ shared, commonPrefix? (first :: rest) = some shared ∧
      IsLongestCommonPrefix (first :: rest) shared ∧
      Utf8.encode shared = (Utf8.encode first).take (cut first rest) ∧
      ∀ text ∈ first :: rest, String.Pos.Raw.IsValid text ⟨cut first rest⟩ := by
  obtain ⟨shared, begins, reaches⟩ : ∃ shared : String, shared.toList <+: first.toList ∧
      (Utf8.encode shared).length = cut first rest :=
    isValid_iff_exists_isPrefix.mp (isValid_lastBoundary first (sharedLength first rest))
  have found : commonPrefix? (first :: rest) = some shared :=
    before?_eq_some_iff.mpr ⟨begins, reaches⟩
  have longest := isLongestCommonPrefix_of_reaches begins reaches
  refine ⟨shared, found, longest, ?_, fun text mem => ?_⟩
  · rw [← reaches]
    exact List.prefix_iff_eq_take.mp (encode_isPrefix_encode_iff.mpr begins)
  · exact isValid_iff_exists_isPrefix.mpr ⟨shared, longest.begins text mem, reaches⟩

/-- The two last letters have their first byte in common, which is not a character. -/
example : sharedLength "café" ["cafè"] = 4 ∧ cut "café" ["cafè"] = 3 ∧
    commonPrefix? ["café", "cafè"] = some "caf" := by
  decide +kernel

end CallAtlas.Text
