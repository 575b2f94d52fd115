import CallAtlas.Definition.Index
import Mathlib.Data.List.Perm.Basic
import Mathlib.Data.String.Basic

/-!
# Look-ups and the order of additions

A look-up answers definitions in the order of their ids, however they were added. Definitions with
the same id may come in several orders, but resolution only reads ids, and a sorted list of ids is
determined by its elements. So the answer of a resolution depends on which definitions were added
and not on when.

Every target of a call is the id of a definition with the name called, and a failure carries the
number of these definitions.
-/

namespace CallAtlas.Definition

/-- Definitions in the order of their ids; equal ids may stand side by side. -/
def Sorted (definitions : List Definition) : Prop := definitions.Pairwise fun a b => a.id ≤ b.id

theorem place_perm (new : Definition) (definitions : List Definition) :
    (place new definitions).Perm (new :: definitions) := by
  induction definitions with
  | nil => exact List.Perm.refl _
  | cons d rest ih =>
      simp only [place]
      split
      · exact List.Perm.refl _
      · exact (ih.cons d).trans (List.Perm.swap new d rest)

theorem place_sorted (new : Definition) {definitions : List Definition}
    (h : Sorted definitions) : Sorted (place new definitions) := by
  induction definitions with
  | nil => exact List.pairwise_singleton _ _
  | cons d rest ih =>
      obtain ⟨first, sorted⟩ := List.pairwise_cons.mp h
      simp only [place]
      split
      · next before =>
        have hle : new.id ≤ d.id := before.elim le_of_lt fun same => le_of_eq same.1.symm
        refine List.pairwise_cons.mpr ⟨fun e he => ?_, h⟩
        rcases List.mem_cons.mp he with rfl | he
        · exact hle
        · exact hle.trans (first e he)
      · next after =>
        have hle : d.id ≤ new.id := not_lt.mp fun hlt => after (Or.inl hlt)
        refine List.pairwise_cons.mpr ⟨fun e he => ?_, ih sorted⟩
        rcases List.mem_cons.mp ((place_perm new rest).mem_iff.mp he) with rfl | he
        · exact hle
        · exact first e he

theorem foldl_place_perm (definitions placed : List Definition) :
    (definitions.foldl (fun placed d => place d placed) placed).Perm (definitions ++ placed) := by
  induction definitions generalizing placed with
  | nil => exact List.Perm.refl _
  | cons d rest ih =>
      rw [List.foldl_cons]
      exact (ih (place d placed)).trans
        (((place_perm d placed).append_left rest).trans List.perm_middle)

theorem foldl_place_sorted (definitions : List Definition) {placed : List Definition}
    (h : Sorted placed) : Sorted (definitions.foldl (fun placed d => place d placed) placed) := by
  induction definitions generalizing placed with
  | nil => exact h
  | cons d rest ih => exact ih (place_sorted d h)

theorem arrange_perm (definitions : List Definition) :
    (arrange definitions).Perm definitions := by
  simpa [arrange] using foldl_place_perm definitions []

theorem arrange_sorted (definitions : List Definition) : Sorted (arrange definitions) :=
  foldl_place_sorted definitions List.Pairwise.nil

@[simp] theorem length_arrange (definitions : List Definition) :
    (arrange definitions).length = definitions.length :=
  (arrange_perm definitions).length_eq

/-- The ids of those definitions that are kept, in order. -/
def sortedIds (definitions : List Definition) (keep : Definition → Bool) : List String :=
  ((arrange definitions).filter keep).map (·.id)

theorem sortedIds_sorted (definitions : List Definition) (keep : Definition → Bool) :
    (sortedIds definitions keep).Pairwise (· ≤ ·) :=
  List.pairwise_map.mpr ((arrange_sorted definitions).filter keep)

theorem sortedIds_perm (definitions : List Definition) (keep : Definition → Bool) :
    (sortedIds definitions keep).Perm ((definitions.filter keep).map (·.id)) :=
  ((arrange_perm definitions).filter keep).map _

/-- Two sorted lists of the same ids are equal, so the order of additions is not seen. -/
theorem sortedIds_congr {definitions definitions' : List Definition}
    (perm : definitions.Perm definitions') (keep : Definition → Bool) :
    sortedIds definitions keep = sortedIds definitions' keep := by
  refine List.Perm.eq_of_pairwise (fun a b _ _ => le_antisymm)
    (sortedIds_sorted definitions keep) (sortedIds_sorted definitions' keep) ?_
  exact (sortedIds_perm definitions keep).trans
    (((perm.filter keep).map _).trans (sortedIds_perm definitions' keep).symm)

theorem mem_sortedIds {definitions : List Definition} {keep : Definition → Bool} {id : String} :
    id ∈ sortedIds definitions keep ↔ ∃ d ∈ definitions, keep d = true ∧ d.id = id := by
  rw [(sortedIds_perm definitions keep).mem_iff]
  simp [and_assoc]

namespace Index

/-- The choice between three tiers: the first that is not empty, but of the last only a single
target. -/
def chooseTier (sameScope sameFile everywhere : List String) (candidates : Nat) :
    Except Nat (List String) :=
  if sameScope ≠ [] then .ok sameScope
  else if sameFile ≠ [] then .ok sameFile
  else if everywhere.length = 1 then .ok everywhere
  else .error candidates

theorem eq_of_chooseTier_ok {sameScope sameFile everywhere targets : List String}
    {candidates : Nat} (h : chooseTier sameScope sameFile everywhere candidates = .ok targets) :
    targets = sameScope ∨ targets = sameFile ∨ targets = everywhere := by
  simp only [chooseTier] at h
  split at h
  · exact Or.inl (Except.ok.inj h).symm
  · split at h
    · exact Or.inr (Or.inl (Except.ok.inj h).symm)
    · split at h
      · exact Or.inr (Or.inr (Except.ok.inj h).symm)
      · cases h

theorem eq_of_chooseTier_error {sameScope sameFile everywhere : List String}
    {candidates n : Nat} (h : chooseTier sameScope sameFile everywhere candidates = .error n) :
    n = candidates := by
  simp only [chooseTier] at h
  split at h
  · cases h
  · split at h
    · cases h
    · split at h
      · cases h
      · exact (Except.error.inj h).symm

variable {index index' : Index} {caller : Place} {name : String} {keep : Definition → Bool}
variable {ref : CallRef} {targets : List String} {candidates : Nat}

/-- The definitions with a name that were added, in the order of additions. -/
def addedNamed (index : Index) (name : String) : List Definition :=
  index.definitions.filter (·.name = name)

/-- Resolution among some definitions is a choice between sorted lists of ids. -/
theorem resolveAmong_eq (index : Index) (caller : Place) (name : String)
    (keep : Definition → Bool) :
    index.resolveAmong caller name keep =
      chooseTier
        (sortedIds ((index.addedNamed name).filter fun d =>
          d.file = caller.file ∧ d.scope = caller.scope) keep)
        (sortedIds ((index.addedNamed name).filter fun d => d.file = caller.file) keep)
        (sortedIds (index.addedNamed name) keep) (index.addedNamed name).length := by
  have inScope : index.inScope caller.file caller.scope name =
      arrange ((index.addedNamed name).filter fun d =>
        d.file = caller.file ∧ d.scope = caller.scope) := by
    simp only [Index.inScope, addedNamed, List.filter_filter]
    congr 2
    funext d
    simp only [← Bool.decide_and, and_assoc]
  have inFile : index.inFile caller.file name =
      arrange ((index.addedNamed name).filter fun d => d.file = caller.file) := by
    simp only [Index.inFile, addedNamed, List.filter_filter, ← Bool.decide_and]
  rw [resolveAmong, inScope, inFile, named, length_arrange]
  rfl

theorem resolveAmong_congr (perm : index.definitions.Perm index'.definitions) :
    index.resolveAmong caller name keep = index'.resolveAmong caller name keep := by
  have same : (index.addedNamed name).Perm (index'.addedNamed name) := perm.filter _
  rw [resolveAmong_eq, resolveAmong_eq, sortedIds_congr (same.filter _) keep,
    sortedIds_congr (same.filter _) keep, sortedIds_congr same keep, same.length_eq]

/-- Resolution does not depend on the order in which definitions were added. -/
theorem resolve_congr (perm : index.definitions.Perm index'.definitions) :
    index.resolve caller ref = index'.resolve caller ref := by
  simp only [resolve, resolveAmong_congr perm]

/-- Every target is the id of a definition with the name called. -/
theorem exists_definition_of_resolveAmong
    (h : index.resolveAmong caller name keep = .ok targets) {target : String}
    (htarget : target ∈ targets) :
    ∃ d ∈ index.definitions, d.name = name ∧ keep d = true ∧ d.id = target := by
  have among : ∃ d ∈ index.addedNamed name, keep d = true ∧ d.id = target := by
    rw [resolveAmong_eq] at h
    rcases eq_of_chooseTier_ok h with rfl | rfl | rfl
    · obtain ⟨d, hd, kept⟩ := mem_sortedIds.mp htarget
      exact ⟨d, List.mem_of_mem_filter hd, kept⟩
    · obtain ⟨d, hd, kept⟩ := mem_sortedIds.mp htarget
      exact ⟨d, List.mem_of_mem_filter hd, kept⟩
    · exact mem_sortedIds.mp htarget
  obtain ⟨d, hd, kept⟩ := among
  obtain ⟨hd, named⟩ := List.mem_filter.mp hd
  exact ⟨d, hd, by simpa using named, kept⟩

/-- A resolution among some definitions that fails counts all that have the name. -/
theorem candidates_of_resolveAmong
    (h : index.resolveAmong caller name keep = .error candidates) :
    candidates = (index.addedNamed name).length := by
  rw [resolveAmong_eq] at h
  exact eq_of_chooseTier_error h

/-- An answer comes from the plain tiers, or from those that the qualifier narrows. -/
theorem exists_keep_of_resolve (h : index.resolve caller ref = .ok targets) :
    ∃ keep, index.resolveAmong caller ref.name keep = .ok targets := by
  simp only [resolve] at h
  split at h
  · exact ⟨_, h⟩
  · split at h
    · exact ⟨_, h⟩
    · split at h
      · next narrowed => exact ⟨_, narrowed.trans h⟩
      · exact ⟨_, h⟩

/-- A failure is a failure of the plain tiers. -/
theorem resolveAmong_of_resolve (h : index.resolve caller ref = .error candidates) :
    index.resolveAmong caller ref.name (fun _ => true) = .error candidates := by
  simp only [resolve] at h
  split at h
  · exact h
  · split at h
    · exact h
    · split at h
      · cases h
      · exact h

end Index

end CallAtlas.Definition
