import CallAtlas.Proofs.Community.Course
import CallAtlas.Proofs.Community.Simple

/-!
# The search and the division of communities end

Nothing bounds the number of levels of a search or the depth of a division beforehand. Both end
because something shrinks, whatever the weights are and however they compare. A level has no more
labels than nodes, so a next level with another number of nodes has fewer. A division goes on with
several parts of a community, none of them empty, so each is shorter.

For the same reasons no number leads nowhere on the way: labels and neighbours are numbers of nodes
between any two visits, and every node of a level has nodes behind it.
-/

namespace CallAtlas

variable {α : Type} [Weight α]

namespace Labelling

/-- Labels are numbers of nodes between any two visits. -/
theorem midway_bounded {net : Network α} (closed : net.Closed) (resolution volume : α)
    (sweeps : Nat) {visits : Nat} (within : visits ≤ net.size) :
    (midway net resolution volume sweeps visits).Bounded net := by
  apply midway_induction (motive := fun s => s.Bounded net) _ _ (initial_bounded net) sweeps within
  · exact fun s h => ⟨h.labels_size, h.masses_size, h.label_lt⟩
  · exact fun s i hi h => h.visit closed hi

end Labelling

namespace Level

/-- All numbers in use on a level are numbers of its nodes: there is a group for each node and none
is empty, neighbours are nodes, and so are labels between any two visits. The labels by which the
level is contracted are those at the end of a sweep. -/
structure InBounds (level : Level α) (resolution volume : α) : Prop where
  groups_size : level.groups.size = level.net.size
  group_ne_nil : ∀ i < level.net.size, level.group i ≠ []
  closed : level.net.Closed
  bounded : ∀ sweeps, ∀ visits ≤ level.net.size,
    (Labelling.midway level.net resolution volume sweeps visits).Bounded level.net
  settled_eq : ∃ sweeps < maxSweeps, level.settled resolution volume =
    Labelling.midway level.net resolution volume sweeps level.net.size

theorem inBounds_of_covers {level : Level α} {nodes : List Nat} (covers : level.Covers nodes)
    (closed : level.net.Closed) (resolution volume : α) : level.InBounds resolution volume := by
  refine ⟨covers.size, ?_, closed, ?_, exists_midway_eq_settled level resolution volume⟩
  · intro i hi
    apply covers.shares.nonempty
    rw [groups_toList covers]
    exact List.mem_map_of_mem (List.mem_range.mpr hi)
  · intro sweeps visits within
    exact Labelling.midway_bounded closed resolution volume sweeps within

/-- Every level that a search reaches groups the nodes that it began with, and is closed. -/
theorem covers_of_after? {net : Network α} (closed : net.Closed) {resolution volume : α} {n : Nat}
    {level : Level α} (reached : (initial net).after? resolution volume n = some level) :
    level.Covers (List.range net.size) ∧ level.net.Closed := by
  refine after?_induction
    (motive := fun _ level => level.Covers (List.range net.size) ∧ level.net.Closed) ?_ ?_ reached
  · exact ⟨initial_covers net, closed⟩
  · rintro n current next ⟨covers, closed⟩ follows
    obtain ⟨-, rfl⟩ := next?_eq_some_iff.mp follows
    exact ⟨contract_covers covers _, closed_contract closed _⟩

end Level

namespace Network

/-- The parts with which the division of a community goes on. There are none for a community that
stays whole: one that is small enough, has no weight inside, or is a single community at all
resolutions. -/
def parts? (net : Network α) (limit : Nat) (community : List Nat) : Option (List (List Nat)) :=
  let members := community.mergeSort
  let inner := net.restrict members
  if community.length ≤ limit || Weight.isZero inner.totalWeight then none
  else (inner.division? maxAttempts (Weight.ofNat 2)).map fun parts =>
    parts.map (List.map fun i => members.getD i 0)

/-- The division of a community goes on with a part of it. -/
def PartOf (net : Network α) (limit : Nat) (part whole : List Nat) : Prop :=
  ∃ parts, net.parts? limit whole = some parts ∧ part ∈ parts

variable {net : Network α} {limit : Nat} {whole part : List Nat} {parts : List (List Nat)}

/-- The parts of a community share out its members, and there are several. -/
theorem sharesOut_of_parts? (divided : net.parts? limit whole = some parts) :
    SharesOut whole parts ∧ 1 < parts.length := by
  simp only [parts?] at divided
  split at divided
  · cases divided
  · obtain ⟨found, same, rfl⟩ := Option.map_eq_some_iff.mp divided
    refine ⟨named_sharesOut same, ?_⟩
    rw [List.length_map]
    exact (exists_communities_of_division? same).1

namespace PartOf

variable (h : net.PartOf limit part whole)

include h

theorem ne_nil : part ≠ [] := by
  obtain ⟨parts, divided, listed⟩ := h
  exact (sharesOut_of_parts? divided).1.nonempty part listed

/-- A division goes on with shorter communities only. -/
theorem length_lt : part.length < whole.length := by
  obtain ⟨parts, divided, listed⟩ := h
  obtain ⟨shares, several⟩ := sharesOut_of_parts? divided
  exact shares.length_lt_of_mem several listed

theorem nodup (distinct : whole.Nodup) : part.Nodup := by
  obtain ⟨parts, divided, listed⟩ := h
  exact (sharesOut_of_parts? divided).1.nodup_of_mem distinct listed

end PartOf

/-- There is no endless chain of parts of parts. -/
theorem wellFounded_partOf (net : Network α) (limit : Nat) : WellFounded (net.PartOf limit) := by
  refine Subrelation.wf ?_ (measure List.length).wf
  intro part whole h
  exact h.length_lt

/-- A division is made of the divisions of the parts, with no regard to their lengths. -/
theorem split_eq_elim (net : Network α) (limit : Nat) (whole : List Nat) :
    net.split limit whole =
      (net.parts? limit whole).elim [whole] fun parts => parts.flatMap (net.split limit) := by
  rw [split]
  simp only [parts?]
  split
  · rfl
  · next go =>
    cases found : (net.restrict whole.mergeSort).division? maxAttempts (Weight.ofNat 2) with
    | none => rfl
    | some parts =>
        have divided : net.parts? limit whole =
            some (parts.map (List.map fun i => whole.mergeSort.getD i 0)) := by
          rw [parts?, if_neg go, found]
          rfl
        simp only [Option.map_some, Option.elim_some, List.flatMap_map]
        refine List.flatMap_congr fun part listed => ?_
        have shorter := PartOf.length_lt ⟨_, divided, List.mem_map_of_mem listed⟩
        rw [List.length_map] at shorter
        rw [if_pos shorter]

/-- A search keeps to its nodes and ends, and so does a division. On every level all numbers in use
are numbers of nodes, and a contraction that does not end the search leaves fewer nodes, so that
there are no more contractions than nodes. The communities are the groups of the last level; without
any weight they are the single nodes, and no level is asked for. A division goes on with parts that
are not empty and shorter than what is divided, of which there is no endless chain, and it searches
closed networks again. -/
theorem search_and_division_end (net : Network α) (closed : net.Closed) (resolution : α) :
    (∀ n level, (Level.initial net).after? resolution net.volume n = some level →
      level.InBounds resolution net.volume ∧ level.net.size + n ≤ net.size ∧
        ∀ next, level.next? resolution net.volume = some next →
          next.net.size < level.net.size) ∧
    (∃ n ≤ net.size, ∃ last, (Level.initial net).after? resolution net.volume n = some last ∧
      last.next? resolution net.volume = none ∧
        net.communities resolution =
          if Weight.isZero net.totalWeight then net.singletons else last.groups.toList) ∧
    ∀ limit,
      (∀ part whole, net.PartOf limit part whole →
        part ≠ [] ∧ part.length < whole.length ∧ (whole.Nodup → part.Nodup)) ∧
      WellFounded (net.PartOf limit) ∧
      ∀ community, (net.restrict community.mergeSort).Closed ∧
        net.split limit community = (net.parts? limit community).elim [community]
          fun parts => parts.flatMap (net.split limit) := by
  refine ⟨?_, ?_, ?_⟩
  · intro n level reached
    obtain ⟨covers, inside⟩ := Level.covers_of_after? closed reached
    exact ⟨Level.inBounds_of_covers covers inside resolution net.volume,
      Level.size_add_le_of_after? reached, fun next => Level.size_lt_of_next?⟩
  · obtain ⟨n, reached, ended⟩ :=
      Level.exists_after?_eq_finish resolution net.volume (Level.initial net)
    have counted : _ + n ≤ net.size := Level.size_add_le_of_after? reached
    exact ⟨n, by omega, _, reached, ended, rfl⟩
  · intro limit
    refine ⟨?_, wellFounded_partOf net limit, ?_⟩
    · intro part whole h
      exact ⟨h.ne_nil, h.length_lt, h.nodup⟩
    · intro community
      exact ⟨closed_restrict net _, split_eq_elim net limit community⟩

/-- Two functions that call each other become one node of a second level, which is the last. As one
community they are divided into two, and these are not divided any more. -/
theorem search_and_division_end_mutualCalls :
    let net := ofGraph Rat CallGraph.mutualCalls
    net.Closed ∧
      (∃ level, (Level.initial net).after? (1 / 2) net.volume 1 = some level ∧
        level.net.size + 1 ≤ net.size ∧ level.InBounds (1 / 2) net.volume) ∧
      (Level.initial net).after? (1 / 2) net.volume 2 = none ∧
      net.PartOf 1 [1] [0, 1] ∧ net.split 1 [0, 1] = [[0], [1]] := by
  intro net
  have closed : net.Closed := closed_ofGraph CallGraph.mutualCalls
  obtain ⟨levels, -, division⟩ := search_and_division_end net closed (1 / 2)
  obtain ⟨-, -, divided⟩ := division 1
  have sized : ((Level.initial net).after? (1 / 2) net.volume 1).isSome = true := by
    decide +kernel
  obtain ⟨level, reached⟩ := Option.isSome_iff_exists.mp sized
  obtain ⟨inBounds, fewer, -⟩ := levels 1 level reached
  have ended : ((Level.initial net).after? (1 / 2) net.volume 2).isNone = true := by
    decide +kernel
  have both : net.parts? 1 [0, 1] = some [[0], [1]] := by
    have sorted : [0, 1].mergeSort = [0, 1] := List.mergeSort_of_pairwise (by decide)
    rw [parts?, sorted]
    decide +kernel
  have first : net.parts? 1 [0] = none := by decide +kernel
  have second : net.parts? 1 [1] = none := by decide +kernel
  refine ⟨closed, ⟨level, reached, fewer, inBounds⟩, Option.isNone_iff_eq_none.mp ended,
    ⟨_, both, by decide⟩, ?_⟩
  rw [(divided [0, 1]).2, both, Option.elim_some, List.flatMap_cons, List.flatMap_singleton,
    (divided [0]).2, (divided [1]).2, first, second]
  rfl

end Network

end CallAtlas
