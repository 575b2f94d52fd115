import CallAtlas.Proofs.Community.Moves
import Mathlib.Logic.Function.Iterate

/-!
# The course of a search

A search goes from level to level, and on each level from visit to visit. `Labelling.midway` is the
labelling between two visits, and `Level.after?` is the level after some contractions. Neither says
when the search stops: sweeps may be counted past the one that moves no node, and contractions go on
until a level would have as many nodes as the one before.

What single visits preserve holds between any two of them, by `midway_induction`, and what
contractions preserve holds of every level, by `after?_induction`. The labels that a level settles
on and the level that a search ends with are among these.
-/

namespace CallAtlas

variable {α : Type} [Weight α]

namespace Labelling

variable (net : Network α) (resolution volume : α)

/-- The labels after some whole sweeps and, in the next sweep, the visits to the first nodes. -/
def midway (sweeps visits : Nat) : Labelling α :=
  (List.range visits).foldl (visit net resolution volume)
    { (sweep net resolution volume)^[sweeps] (initial net) with moved := false }

theorem midway_size (sweeps : Nat) :
    midway net resolution volume sweeps net.size =
      (sweep net resolution volume)^[sweeps + 1] (initial net) := by
  rw [Function.iterate_succ_apply']
  rfl

variable {net resolution volume}

/-- What every visit preserves holds between any two of them. -/
theorem midway_induction {motive : Labelling α → Prop}
    (reset : ∀ s, motive s → motive { s with moved := false })
    (step : ∀ s, ∀ i < net.size, motive s → motive (s.visit net resolution volume i))
    (start : motive (initial net)) (sweeps : Nat) {visits : Nat} (within : visits ≤ net.size) :
    motive (midway net resolution volume sweeps visits) := by
  have visited : ∀ s, motive s → ∀ visits ≤ net.size,
      motive ((List.range visits).foldl (visit net resolution volume)
        { s with moved := false }) := by
    intro s hs visits within
    induction visits with
    | zero => exact reset s hs
    | succ visits ih =>
        rw [List.range_succ, List.foldl_concat]
        apply step _ visits within
        apply ih
        omega
  have swept : ∀ sweeps, motive ((sweep net resolution volume)^[sweeps] (initial net)) := by
    intro sweeps
    induction sweeps with
    | zero => exact start
    | succ sweeps ih =>
        rw [Function.iterate_succ_apply']
        exact visited _ ih net.size le_rfl
  exact visited _ (swept sweeps) visits within

/-- Settling is sweeping some number of times, at least once where a sweep is allowed. -/
theorem exists_iterate_eq_settle (sweeps : Nat) (s : Labelling α) :
    ∃ k ≤ sweeps, (0 < sweeps → 0 < k) ∧
      settle net resolution volume sweeps s = (sweep net resolution volume)^[k] s := by
  induction sweeps generalizing s with
  | zero => exact ⟨0, le_rfl, id, rfl⟩
  | succ sweeps ih =>
      rw [settle]
      split
      · obtain ⟨k, bounded, -, same⟩ := ih (s.sweep net resolution volume)
        refine ⟨k + 1, Nat.succ_le_succ bounded, fun _ => Nat.succ_pos k, ?_⟩
        rw [same, Function.iterate_succ_apply]
      · exact ⟨1, Nat.succ_le_succ (Nat.zero_le sweeps), fun _ => Nat.one_pos, rfl⟩

end Labelling

namespace Level

variable {level next last : Level α} {resolution volume : α} {n : Nat}

/-- The labels that a level settles on are those at the end of one of its sweeps. -/
theorem exists_midway_eq_settled (level : Level α) (resolution volume : α) :
    ∃ sweeps < maxSweeps, level.settled resolution volume =
      Labelling.midway level.net resolution volume sweeps level.net.size := by
  obtain ⟨k, bounded, swept, same⟩ : ∃ k ≤ maxSweeps, (0 < maxSweeps → 0 < k) ∧
      level.settled resolution volume =
        (Labelling.sweep level.net resolution volume)^[k] (Labelling.initial level.net) :=
    Labelling.exists_iterate_eq_settle maxSweeps _
  obtain ⟨sweeps, rfl⟩ := Nat.exists_eq_add_one.mpr (swept (by decide))
  exact ⟨sweeps, bounded, same.trans (Labelling.midway_size _ _ _ sweeps).symm⟩

/-- The level that follows, unless it would have as many nodes. -/
def next? (resolution volume : α) (level : Level α) : Option (Level α) :=
  let next := level.contract (level.settled resolution volume)
  if next.net.size = level.net.size then none else some next

/-- The level after so many contractions, if the search goes on for so long. -/
def after? (resolution volume : α) (level : Level α) : Nat → Option (Level α)
  | 0 => some level
  | n + 1 => (after? resolution volume level n).bind (next? resolution volume)

theorem next?_eq_some_iff :
    level.next? resolution volume = some next ↔
      next.net.size ≠ level.net.size ∧
        next = level.contract (level.settled resolution volume) := by
  rw [next?]
  split
  · next same =>
    constructor
    · intro h
      cases h
    · rintro ⟨different, rfl⟩
      exact absurd same different
  · next different =>
    constructor
    · intro h
      obtain rfl := Option.some.inj h
      exact ⟨different, rfl⟩
    · rintro ⟨-, rfl⟩
      rfl

/-- What every contraction preserves holds of every level that is reached. -/
theorem after?_induction {motive : Nat → Level α → Prop} (start : motive 0 level)
    (step : ∀ n current next, motive n current → current.next? resolution volume = some next →
      motive (n + 1) next)
    (reached : level.after? resolution volume n = some last) : motive n last := by
  induction n generalizing last with
  | zero =>
      obtain rfl := Option.some.inj reached
      exact start
  | succ n ih =>
      obtain ⟨current, before, follows⟩ := Option.bind_eq_some_iff.mp reached
      exact step n current last (ih before) follows

/-- The course from a level goes through the level that follows it. -/
theorem after?_succ_of_next? (follows : level.next? resolution volume = some next) (n : Nat) :
    level.after? resolution volume (n + 1) = next.after? resolution volume n := by
  induction n with
  | zero => exact follows
  | succ n ih => rw [after?, ih, after?]

/-- There are no more labels than nodes. -/
theorem size_contract_le (level : Level α) (s : Labelling α) :
    (level.contract s).net.size ≤ level.net.size := by
  have used : ∀ c ∈ s.names level.net, c ∈ (List.range level.net.size).map s.label :=
    fun c hc => List.mem_eraseDups.mp hc
  have counted := (Labelling.names_nodup.subperm used).length_le
  rw [size_contract]
  simpa using counted

/-- A contraction that does not end the search leaves fewer nodes. -/
theorem size_lt_of_next? (follows : level.next? resolution volume = some next) :
    next.net.size < level.net.size := by
  obtain ⟨different, rfl⟩ := next?_eq_some_iff.mp follows
  exact lt_of_le_of_ne (size_contract_le level _) different

/-- Every contraction takes a node away at least. -/
theorem size_add_le_of_after? (reached : level.after? resolution volume n = some last) :
    last.net.size + n ≤ level.net.size := by
  refine after?_induction (motive := fun n last => last.net.size + n ≤ level.net.size) le_rfl ?_
    reached
  intro n current next before follows
  have fewer := size_lt_of_next? follows
  omega

/-- The level that a search ends with is reached, and no level follows it. -/
theorem exists_after?_eq_finish (resolution volume : α) (level : Level α) :
    ∃ n, level.after? resolution volume n = some (level.finish resolution volume) ∧
      (level.finish resolution volume).next? resolution volume = none := by
  fun_induction finish resolution volume level with
  | case1 level next smaller ih =>
      obtain ⟨n, reached, ended⟩ := ih
      have follows : level.next? resolution volume = some next :=
        next?_eq_some_iff.mpr ⟨smaller.ne, rfl⟩
      refine ⟨n + 1, ?_, ended⟩
      rw [after?_succ_of_next? follows, reached]
  | case2 level next settled =>
      have same : next.net.size = level.net.size :=
        le_antisymm (size_contract_le level _) (not_lt.mp settled)
      exact ⟨0, rfl, if_pos same⟩

end Level

end CallAtlas
