import CallAtlas.CallGraph
import CallAtlas.Error

/-!
# Impact of a change

Editing a function concerns its direct callers. The radius of a function is wider: every function
that reaches it by a chain of calls, with the number of calls on the shortest chain, as far as a
given number of calls.

The radius is found from the function outwards. A search keeps the functions it has met with their
distances, and a queue of those whose callers it has not looked at yet. A function is met once, by
the first of its callees that leaves the queue.
-/

namespace CallAtlas.CallGraph

/-- Where a search stands. -/
structure Search where
  /-- The functions that were met, in order of ids, with their distances. -/
  met : List (String × Nat)
  /-- Those whose callers are still to be looked at, in the order in which they were met. -/
  queue : List (String × Nat)

namespace Search

/-- A search that comes upon a function at some distance. One that was met before is passed over. -/
def meet (distance : Nat) (search : Search) (id : String) : Search :=
  if id ∈ search.met.map Prod.fst then search
  else
    { met := Ordered.insert Prod.fst (id, distance) search.met
      queue := search.queue ++ [(id, distance)] }

/-- How often a search can go on: for every function in its queue, and for every one that it may
still meet. -/
def left (graph : CallGraph) (search : Search) : Nat :=
  (graph.ids.filter (· ∉ search.met.map Prod.fst)).length + search.queue.length

theorem left_meet_le {graph : CallGraph} {id : String} (known : id ∈ graph.ids) (distance : Nat)
    (search : Search) : (search.meet distance id).left graph ≤ search.left graph := by
  unfold meet
  split
  · exact Nat.le_refl _
  · next fresh =>
    have narrower :
        graph.ids.filter (· ∉ (Ordered.insert Prod.fst (id, distance) search.met).map Prod.fst) =
          (graph.ids.filter (· ∉ search.met.map Prod.fst)).filter (· ≠ id) := by
      rw [List.filter_filter]
      refine List.filter_congr fun other _ => ?_
      simp only [Ordered.mem_keys_insert, not_or, Bool.decide_and, Bool.and_comm, ne_eq]
    have shorter : ((graph.ids.filter (· ∉ search.met.map Prod.fst)).filter (· ≠ id)).length <
        (graph.ids.filter (· ∉ search.met.map Prod.fst)).length := by
      refine List.length_filter_lt_length_iff_exists.mpr ⟨id, ?_, by simp⟩
      exact List.mem_filter.mpr ⟨known, by simpa using fresh⟩
    simp only [left, narrower, List.length_append, List.length_singleton]
    omega

theorem left_foldl_meet_le {graph : CallGraph} {ids : List String}
    (known : ∀ id ∈ ids, id ∈ graph.ids) (distance : Nat) (search : Search) :
    (ids.foldl (meet distance) search).left graph ≤ search.left graph := by
  induction ids generalizing search with
  | nil => exact Nat.le_refl _
  | cons id ids ih =>
      have rest := ih (fun other h => known other (List.mem_cons_of_mem id h)) (search.meet distance id)
      exact Nat.le_trans rest (left_meet_le (known id List.mem_cons_self) distance search)

end Search

theorem mem_ids_of_mem_callers {graph : CallGraph} {id caller : String}
    (h : caller ∈ (graph.callers? id).getD []) : caller ∈ graph.ids := by
  rw [callers?] at h
  split at h
  · obtain ⟨call, made, rfl⟩ := List.mem_map.mp h
    exact (graph.closed call (List.mem_filter.mp made).1).1
  · simp at h

/-- The functions that a search meets, when it goes no farther than `depth`. -/
def explore (graph : CallGraph) (depth : Nat) (search : Search) : List (String × Nat) :=
  match h : search.queue with
  | [] => search.met
  | (current, distance) :: queue =>
    if depth ≤ distance then graph.explore depth { search with queue }
    else
      graph.explore depth
        (((graph.callers? current).getD []).foldl (Search.meet (distance + 1)) { search with queue })
termination_by search.left graph
decreasing_by
  · simp [Search.left, h]
  · have shorter : Search.left graph { search with queue } < search.left graph := by
      simp [Search.left, h]
    refine Nat.lt_of_le_of_lt ?_ shorter
    exact Search.left_foldl_meet_le (fun _ => mem_ids_of_mem_callers) (distance + 1) _

/-- Every other function that reaches the one with an id within `depth` calls, in order of ids,
with the least number of calls it takes. -/
def radius (graph : CallGraph) (id : String) (depth : Nat) : Except Error (List (String × Nat)) :=
  if id ∈ graph.ids then
    .ok ((graph.explore depth ⟨[(id, 0)], [(id, 0)]⟩).filter (·.1 ≠ id))
  else .error (.nodeNotFound id)

/-- The direct callers of a function. -/
def callers (graph : CallGraph) (id : String) : Except Error (List String) :=
  match graph.callers? id with
  | some callers => .ok callers
  | none => .error (.nodeNotFound id)

/-- The functions that a function calls. -/
def callees (graph : CallGraph) (id : String) : Except Error (List String) :=
  match graph.callees? id with
  | some callees => .ok callees
  | none => .error (.nodeNotFound id)

/-- What an edit concerns. -/
structure Ripple where
  /-- The function that was edited. -/
  node : String
  /-- Its direct callers, in order. -/
  affected : List String
  deriving DecidableEq, Repr

/-- A graph with new code for a function, and whom that concerns. Nothing else changes. -/
def updateCode (graph : CallGraph) (id code : String) : Except Error (CallGraph × Ripple) :=
  match graph.callers? id with
  | some affected => .ok (graph.setCode id code, ⟨id, affected⟩)
  | none => .error (.nodeNotFound id)

end CallAtlas.CallGraph
