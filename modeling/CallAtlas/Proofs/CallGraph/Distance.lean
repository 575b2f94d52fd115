import CallAtlas.CallGraph.Impact
import CallAtlas.CallGraph.Linking
import CallAtlas.Proofs.CallGraph.Changes

/-!
# Distances in a call graph

A chain of calls leads from a function to another one, and the distance of the two is the length of
a shortest chain. The radius of a function is found by a search with a queue. `Explored` says what
holds of the search all along: there is a chain for every distance it notes, its queue is in the
order of distances and spans at most two of them, and a function that left the queue has all its
callers met, none of them farther than one more call.

When the queue is empty the last fact holds of every function within the depth, so a chain can be
followed from its end, and what was noted for its beginning is no more than its length.
-/

namespace CallAtlas.CallGraph

/-- A chain of so many calls leads from one function to another. -/
inductive Chain (graph : CallGraph) : Nat → String → String → Prop where
  | refl (id : String) : Chain graph 0 id id
  | call {length : Nat} {caller callee target : String} (called : ⟨caller, callee⟩ ∈ graph.calls)
      (rest : Chain graph length callee target) : Chain graph (length + 1) caller target

/-- The shortest chains from one function to another have this length. -/
structure Distance (graph : CallGraph) (source target : String) (d : Nat) : Prop where
  chain : graph.Chain d source target
  least : ∀ length, graph.Chain length source target → d ≤ length

variable {graph : CallGraph} {source target y : String} {d : Nat}

/-- A chain that ends in a graph begins there. -/
theorem Chain.mem_ids (chain : graph.Chain d source target) (known : target ∈ graph.ids) :
    source ∈ graph.ids := by
  cases chain with
  | refl => exact known
  | call called rest => exact (graph.closed _ called).1

/-- The callers of a function are listed, and an unknown function has none. -/
theorem mem_getD_callers?_iff : y ∈ (graph.callers? target).getD [] ↔ ⟨y, target⟩ ∈ graph.calls := by
  by_cases known : target ∈ graph.ids
  · have found : graph.callers? target = some _ := if_pos known
    rw [found, Option.getD_some]
    exact mem_callers_iff found
  · rw [callers?_eq_none_iff.mpr known]
    exact iff_of_false List.not_mem_nil fun called => known (graph.closed _ called).2

namespace Search

variable {search : Search} {distance : Nat} {id : String} {ids : List String}

theorem mem_met_meet :
    (y, d) ∈ (search.meet distance id).met ↔
      (y, d) ∈ search.met ∨ d = distance ∧ y = id ∧ y ∉ search.met.map Prod.fst := by
  unfold meet
  split
  · next known =>
    refine ⟨.inl, fun h => h.resolve_right ?_⟩
    rintro ⟨-, rfl, unknown⟩
    exact unknown known
  · next fresh =>
    have added : (Ordered.insert Prod.fst (id, distance) search.met).Perm
        ((id, distance) :: search.met) :=
      Ordered.insert_perm fun reached met same =>
        fresh (List.mem_map.mpr ⟨reached, met, same⟩)
    rw [added.mem_iff, List.mem_cons, Prod.mk.injEq, or_comm]
    refine or_congr_right ⟨?_, ?_⟩
    · rintro ⟨rfl, rfl⟩
      exact ⟨rfl, rfl, fresh⟩
    · rintro ⟨rfl, rfl, -⟩
      exact ⟨rfl, rfl⟩

theorem mem_keys_meet :
    y ∈ (search.meet distance id).met.map Prod.fst ↔ y ∈ search.met.map Prod.fst ∨ y = id := by
  unfold meet
  split
  · next known =>
    refine ⟨.inl, ?_⟩
    rintro (met | rfl)
    · exact met
    · exact known
  · exact Ordered.mem_keys_insert

/-- A search that comes upon some functions meets those that it had not met. -/
theorem mem_met_foldl_meet :
    (y, d) ∈ (ids.foldl (meet distance) search).met ↔
      (y, d) ∈ search.met ∨ d = distance ∧ y ∈ ids ∧ y ∉ search.met.map Prod.fst := by
  induction ids generalizing search with
  | nil => simp
  | cons id ids ih =>
      rw [List.foldl_cons, ih, mem_met_meet, mem_keys_meet, List.mem_cons]
      by_cases first : y = id <;> simp [first]

/-- The functions that it meets go to the end of its queue. -/
theorem exists_queue_foldl_meet (search : Search) (distance : Nat) (ids : List String) :
    ∃ new, (ids.foldl (meet distance) search).queue = search.queue ++ new ∧
      ∀ y d, (y, d) ∈ new ↔ d = distance ∧ y ∈ ids ∧ y ∉ search.met.map Prod.fst := by
  induction ids generalizing search with
  | nil => exact ⟨[], by simp⟩
  | cons id ids ih =>
      obtain ⟨rest, queue, listed⟩ := ih (search.meet distance id)
      rw [List.foldl_cons, queue]
      by_cases known : id ∈ search.met.map Prod.fst
      · refine ⟨rest, by rw [meet, if_pos known], fun y d => ?_⟩
        rw [listed, mem_keys_meet, List.mem_cons]
        by_cases first : y = id <;> simp [first, known]
      · refine ⟨(id, distance) :: rest, by simp [meet, if_neg known], fun y d => ?_⟩
        rw [List.mem_cons, listed, mem_keys_meet, List.mem_cons, Prod.mk.injEq]
        by_cases first : y = id <;> simp [first, known]

theorem increasing_foldl_meet (increasing : Ordered.Increasing Prod.fst search.met) :
    Ordered.Increasing Prod.fst (ids.foldl (meet distance) search).met := by
  induction ids generalizing search with
  | nil => exact increasing
  | cons id ids ih =>
      apply ih
      unfold meet
      split
      · exact increasing
      · exact Ordered.increasing_insert _ increasing

end Search

/-- What holds of a search around a function. -/
structure Explored (graph : CallGraph) (target : String) (depth : Nat) (search : Search) :
    Prop where
  increasing : Ordered.Increasing Prod.fst search.met
  start : (target, 0) ∈ search.met
  chain : ∀ y d, (y, d) ∈ search.met → d ≤ depth ∧ graph.Chain d y target
  queued : ∀ waiting ∈ search.queue, waiting ∈ search.met
  ordered : search.queue.Pairwise (·.2 ≤ ·.2)
  /-- Nothing that was met is more than a call beyond what waits. -/
  near : ∀ reached ∈ search.met, ∀ waiting ∈ search.queue, reached.2 ≤ waiting.2 + 1
  /-- The callers of a function that no longer waits were met. -/
  settled : ∀ y d, (y, d) ∈ search.met → (y, d) ∉ search.queue → d < depth →
    ∀ x, ⟨x, y⟩ ∈ graph.calls → ∃ e ≤ d + 1, (x, e) ∈ search.met

namespace Explored

variable {depth : Nat} {search : Search}

/-- Before the first step the search has met the function itself. -/
theorem begin (graph : CallGraph) (target : String) (depth : Nat) :
    graph.Explored target depth ⟨[(target, 0)], [(target, 0)]⟩ := by
  refine ⟨List.pairwise_singleton _ _, by simp, ?_, by simp, by simp, by simp, by simp⟩
  intro y d met
  obtain ⟨rfl, rfl⟩ := Prod.mk.inj (List.mem_singleton.mp met)
  exact ⟨Nat.zero_le depth, .refl y⟩

section Step

variable {current : String} {distance : Nat} {queue : List (String × Nat)}

/-- A function at the greatest distance leaves the queue. -/
theorem skip (h : graph.Explored target depth search)
    (first : search.queue = (current, distance) :: queue) (far : depth ≤ distance) :
    graph.Explored target depth { search with queue } := by
  have waiting : ∀ reached ∈ queue, reached ∈ search.queue := fun reached later =>
    first ▸ List.mem_cons_of_mem _ later
  have ordered := h.ordered
  rw [first] at ordered
  refine ⟨h.increasing, h.start, h.chain, fun reached later => h.queued reached (waiting _ later),
    ordered.of_cons, fun reached met later hlater => h.near reached met later (waiting _ hlater), ?_⟩
  intro y d met gone within
  refine h.settled y d met ?_ within
  rw [first, List.mem_cons, Prod.mk.injEq]
  rintro (⟨rfl, rfl⟩ | later)
  · exact absurd far (Nat.not_le.mpr within)
  · exact gone later

/-- The callers of the function that leaves the queue were met before, or are met now. -/
theorem exists_met_of_call (h : graph.Explored target depth search)
    (head : (current, distance) ∈ search.queue) {x : String} (called : ⟨x, current⟩ ∈ graph.calls) :
    ∃ e ≤ distance + 1, (x, e) ∈
      (((graph.callers? current).getD []).foldl (Search.meet (distance + 1))
        { search with queue }).met := by
  by_cases known : x ∈ search.met.map Prod.fst
  · obtain ⟨⟨_, e⟩, before, rfl⟩ := List.mem_map.mp known
    exact ⟨e, h.near _ before _ head, Search.mem_met_foldl_meet.mpr (.inl before)⟩
  · refine ⟨distance + 1, le_rfl, Search.mem_met_foldl_meet.mpr (.inr ⟨rfl, ?_, known⟩)⟩
    exact mem_getD_callers?_iff.mpr called

/-- A function leaves the queue, and those of its callers that are new are met. -/
theorem advance (h : graph.Explored target depth search)
    (first : search.queue = (current, distance) :: queue) (within : distance < depth) :
    graph.Explored target depth
      (((graph.callers? current).getD []).foldl (Search.meet (distance + 1))
        { search with queue }) := by
  have head : (current, distance) ∈ search.queue := first ▸ List.mem_cons_self
  have waiting : ∀ reached ∈ queue, reached ∈ search.queue := fun reached later =>
    first ▸ List.mem_cons_of_mem _ later
  obtain ⟨after, ordered⟩ := List.pairwise_cons.mp (first ▸ h.ordered)
  obtain ⟨new, queue_eq, listed⟩ := Search.exists_queue_foldl_meet { search with queue }
    (distance + 1) ((graph.callers? current).getD [])
  have newcomer : ∀ reached ∈ new, reached.2 = distance + 1 := fun reached met =>
    ((listed reached.1 reached.2).mp met).1
  refine ⟨Search.increasing_foldl_meet h.increasing, Search.mem_met_foldl_meet.mpr (.inl h.start),
    ?_, ?_, ?_, ?_, ?_⟩
  · intro y d met
    rcases Search.mem_met_foldl_meet.mp met with old | ⟨rfl, caller, -⟩
    · exact h.chain y d old
    · exact ⟨within, .call (mem_getD_callers?_iff.mp caller) (h.chain _ _ (h.queued _ head)).2⟩
  · rintro ⟨y, d⟩ later
    rw [queue_eq, List.mem_append, listed] at later
    exact Search.mem_met_foldl_meet.mpr (later.imp_left fun old => h.queued _ (waiting _ old))
  · rw [queue_eq]
    refine List.pairwise_append.mpr ⟨ordered, ?_, ?_⟩
    · refine List.pairwise_of_forall_mem_list fun a ha b hb => ?_
      rw [newcomer a ha, newcomer b hb]
    · intro a ha b hb
      rw [newcomer b hb]
      exact h.near a (h.queued a (waiting a ha)) _ head
  · rintro ⟨y, d⟩ met reached later
    have far : d ≤ distance + 1 := by
      rcases Search.mem_met_foldl_meet.mp met with old | ⟨rfl, -⟩
      · exact h.near _ old _ head
      · exact le_rfl
    rw [queue_eq, List.mem_append] at later
    rcases later with old | now
    · exact far.trans (Nat.succ_le_succ (after _ old))
    · rw [newcomer reached now]
      exact far.trans (Nat.le_succ _)
  · intro y d met gone near x called
    rw [queue_eq, List.mem_append, not_or] at gone
    rcases Search.mem_met_foldl_meet.mp met with old | now
    · by_cases leaving : (y, d) = (current, distance)
      · obtain ⟨rfl, rfl⟩ := Prod.mk.inj leaving
        exact h.exists_met_of_call head called
      · have elsewhere : (y, d) ∉ search.queue := by
          rw [first, List.mem_cons, not_or]
          exact ⟨leaving, gone.1⟩
        obtain ⟨e, hle, before⟩ := h.settled y d old elsewhere near x called
        exact ⟨e, hle, Search.mem_met_foldl_meet.mpr (.inl before)⟩
    · exact absurd ((listed y d).mpr now) gone.2

end Step

/-- A search keeps all this to its end, when nothing waits. -/
theorem explore (h : graph.Explored target depth search) :
    graph.Explored target depth ⟨graph.explore depth search, []⟩ := by
  fun_induction CallGraph.explore graph depth search with
  | case1 search done =>
      obtain ⟨met, queue⟩ := search
      obtain rfl : queue = [] := done
      exact h
  | case2 search current distance queue first far ih => exact ih (h.skip first far)
  | case3 search current distance queue first within ih =>
      exact ih (h.advance first (Nat.lt_of_not_le within))

/-- After a search, a chain within the depth has its length or less noted for its beginning. -/
theorem exists_le_of_chain {met : List (String × Nat)}
    (h : graph.Explored target depth ⟨met, []⟩) (chain : graph.Chain d y target)
    (within : d ≤ depth) : ∃ e ≤ d, (y, e) ∈ met := by
  induction chain with
  | refl id => exact ⟨0, le_rfl, h.start⟩
  | call called rest ih =>
      obtain ⟨e, hle, reached⟩ := ih h (by omega)
      obtain ⟨e', hle', caller⟩ :=
        h.settled _ e reached List.not_mem_nil (by omega) _ called
      exact ⟨e', by omega, caller⟩

/-- After a search, what it has met is what is no farther than the depth, with the distances. -/
theorem mem_met_iff {met : List (String × Nat)} (h : graph.Explored target depth ⟨met, []⟩) :
    (y, d) ∈ met ↔ d ≤ depth ∧ graph.Distance y target d := by
  constructor
  · intro reached
    obtain ⟨within, chain⟩ := h.chain y d reached
    refine ⟨within, chain, ?_⟩
    intro length shorter
    by_contra less
    obtain ⟨e, hle, noted⟩ := h.exists_le_of_chain shorter (by omega)
    have same := List.inj_on_of_nodup_map h.increasing.nodup_keys noted reached rfl
    obtain ⟨-, rfl⟩ := Prod.mk.inj same
    omega
  · rintro ⟨within, hd⟩
    obtain ⟨e, hle, reached⟩ := h.exists_le_of_chain hd.chain within
    obtain rfl : e = d := Nat.le_antisymm hle (hd.least e (h.chain y e reached).2)
    exact reached

end Explored

/-- A known function has a radius: the others that are no farther than the depth. -/
theorem exists_radius_eq_ok {id : String} (known : id ∈ graph.ids) (depth : Nat) :
    ∃ reached, graph.radius id depth = .ok reached ∧ (reached.map Prod.fst).Pairwise (· < ·) ∧
      ∀ (y : String) (d : Nat), (y, d) ∈ reached ↔
        y ≠ id ∧ graph.Distance y id d ∧ d ≤ depth := by
  have explored := (Explored.begin graph id depth).explore
  refine ⟨_, by rw [radius, if_pos known], ?_, ?_⟩
  · refine List.pairwise_map.mpr ?_
    exact (explored.increasing.filter _).imp fun h => compare_lt_iff_lt.mp h
  · intro y d
    rw [List.mem_filter, explored.mem_met_iff, decide_eq_true_eq]
    constructor
    · rintro ⟨⟨within, hd⟩, other⟩
      exact ⟨other, hd, within⟩
    · rintro ⟨other, hd, within⟩
      exact ⟨⟨within, hd⟩, other⟩

theorem radius_of_notMem {id : String} (unknown : id ∉ graph.ids) (depth : Nat) :
    graph.radius id depth = .error (.nodeNotFound id) := by
  rw [radius, if_neg unknown]

/-- The radius of a function is the map of all other functions that are no farther than the depth
to their distances, in the order of ids. Only an unknown function has none. -/
theorem radius_eq_distances (graph : CallGraph) (id : String) (depth : Nat) :
    (id ∈ graph.ids → ∃ reached, graph.radius id depth = .ok reached ∧
      (reached.map Prod.fst).Pairwise (· < ·) ∧
      ∀ (y : String) (d : Nat), (y, d) ∈ reached ↔
        y ∈ graph.ids ∧ y ≠ id ∧ graph.Distance y id d ∧ d ≤ depth) ∧
    (id ∉ graph.ids → graph.radius id depth = .error (.nodeNotFound id)) := by
  refine ⟨?_, fun unknown => radius_of_notMem unknown depth⟩
  intro known
  obtain ⟨reached, answered, increasing, mem_iff⟩ := exists_radius_eq_ok known depth
  refine ⟨reached, answered, increasing, fun y d => ?_⟩
  rw [mem_iff]
  constructor
  · rintro ⟨other, hd, within⟩
    exact ⟨hd.chain.mem_ids known, other, hd, within⟩
  · exact And.right

/-- A cycle of three functions, one of which also calls itself, with a way in and a function that
nobody calls and that calls nobody. -/
def callCycle : CallGraph :=
  let function (id : String) : FunctionNode :=
    ⟨id, id, "cycle.py", none, id, 1, 1, "", none⟩
  (empty.addFunctions (["a", "b", "c", "d", "e"].map function)).addCalls
    [⟨"a", "b"⟩, ⟨"b", "c"⟩, ⟨"c", "a"⟩, ⟨"c", "c"⟩, ⟨"d", "b"⟩]

/-- Three functions reach the one that calls itself within two calls. It is not listed itself,
though chains lead back to it, and neither is the one apart. An unknown function is refused. -/
theorem radius_callCycle :
    "c" ∈ callCycle.ids ∧
      callCycle.radius "c" 2 = .ok [("a", 2), ("b", 1), ("d", 2)] ∧
      callCycle.Distance "a" "c" 2 ∧ (¬ ∃ d ≤ 2, callCycle.Distance "e" "c" d) ∧
      "f" ∉ callCycle.ids ∧ callCycle.radius "f" 2 = .error (.nodeNotFound "f") := by
  have known : "c" ∈ callCycle.ids := by decide +kernel
  have unknown : "f" ∉ callCycle.ids := by decide +kernel
  have found : callCycle.radius "c" 2 = .ok [("a", 2), ("b", 1), ("d", 2)] := by decide +kernel
  obtain ⟨reached, answered, -, distances⟩ := (radius_eq_distances callCycle "c" 2).1 known
  obtain rfl := Except.ok.inj (found.symm.trans answered)
  refine ⟨known, found, ((distances "a" 2).mp (by decide)).2.2.1, ?_, unknown,
    (radius_eq_distances callCycle "f" 2).2 unknown⟩
  rintro ⟨d, within, hd⟩
  have listed := (distances "e" d).mpr ⟨by decide +kernel, by decide, hd, within⟩
  simp at listed

end CallAtlas.CallGraph
