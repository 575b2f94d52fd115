import CallAtlas.Proofs.CallGraph.Changes

/-!
# Graphs kept in the order of additions

A graph need not be kept in order. In a store, functions stand in the order in which they were
added, a call is a pair of positions among them, and an index gives the position of each id, so that
no function is searched for. That the index has all positions and no others, and that calls are
between positions in use and not repeated, is part of the type.

`Store.graph` puts the functions and calls of a store in order. Every change of a store is the same
change of its graph, and every question is answered alike, so nobody who makes changes and asks
questions can tell the two apart.
-/

namespace CallAtlas.CallGraph

/-- Functions and calls in the order in which they were added, with the positions of ids. -/
structure Store where
  nodes : List FunctionNode
  index : List (String × Nat)
  edges : List (Nat × Nat)
  indexed : ∀ id i, index.lookup id = some i ↔ nodes[i]?.map FunctionNode.id = some id
  inside : ∀ edge ∈ edges, edge.1 < nodes.length ∧ edge.2 < nodes.length
  edges_nodup : edges.Nodup

namespace Store

/-- The store of no functions. -/
def empty : Store where
  nodes := []
  index := []
  edges := []
  indexed := by simp
  inside := by simp
  edges_nodup := List.nodup_nil

/-- The position of the function with an id. -/
def position? (store : Store) (id : String) : Option Nat := store.index.lookup id

/-- The position after the last one is that of a function with a new id. -/
theorem indexed_concat (store : Store) {node : FunctionNode} (fresh : store.position? node.id = none)
    (id : String) (i : Nat) :
    ((node.id, store.nodes.length) :: store.index).lookup id = some i ↔
      (store.nodes ++ [node])[i]?.map FunctionNode.id = some id := by
  have known := store.indexed id i
  rw [List.lookup_cons]
  rcases Nat.lt_trichotomy i store.nodes.length with earlier | rfl | beyond
  · rw [List.getElem?_append_left earlier, ← known]
    split
    · next same =>
      rw [beq_iff_eq.mp same, show store.index.lookup node.id = none from fresh]
      simp [Nat.ne_of_gt earlier]
    · rfl
  · rw [List.getElem?_concat_length, Option.map_some, Option.some_inj]
    split
    · next same => simp [beq_iff_eq.mp same]
    · next other =>
      rw [known, List.getElem?_eq_none (Nat.le_refl _), Option.map_none]
      refine ⟨nofun, fun same => ?_⟩
      simp [same] at other
  · rw [List.getElem?_eq_none (by simpa [Nat.succ_le_iff] using beyond), Option.map_none]
    split
    · simp [Nat.ne_of_lt beyond]
    · rw [known, List.getElem?_eq_none beyond.le, Option.map_none]

/-- A store with one more function at the end; none when its id is taken. -/
def addFunction? (store : Store) (node : FunctionNode) : Option Store :=
  match h : store.position? node.id with
  | some _ => none
  | none => some
    { store with
      nodes := store.nodes ++ [node]
      index := (node.id, store.nodes.length) :: store.index
      indexed := store.indexed_concat h
      inside := fun edge listed => by
        have within := store.inside edge listed
        simp only [List.length_append, List.length_singleton]
        omega }

theorem position_lt {store : Store} {id : String} {i : Nat} (h : store.position? id = some i) :
    i < store.nodes.length := by
  obtain ⟨node, found, -⟩ := Option.map_eq_some_iff.mp ((store.indexed id i).mp h)
  exact (List.getElem?_eq_some_iff.mp found).1

/-- A store with one more call; none when an end of it is no function of the store. A call that is
there already is not repeated. -/
def addCall? (store : Store) (call : Call) : Option Store :=
  match caller : store.position? call.caller, callee : store.position? call.callee with
  | some i, some j =>
    if known : (i, j) ∈ store.edges then some store
    else some
      { store with
        edges := store.edges ++ [(i, j)]
        inside := List.forall_mem_append.mpr ⟨store.inside,
          List.forall_mem_singleton.mpr ⟨position_lt caller, position_lt callee⟩⟩
        edges_nodup := by simpa using store.edges_nodup.concat known }
  | _, _ => none

/-- A store with its functions changed in ways that leave their ids. -/
def withNodes (store : Store) (nodes : List FunctionNode)
    (kept : nodes.map FunctionNode.id = store.nodes.map FunctionNode.id) : Store :=
  { store with
    nodes
    indexed := fun id i => by
      rw [store.indexed, ← List.getElem?_map, ← List.getElem?_map, kept]
    inside := by
      have length : nodes.length = store.nodes.length := by simpa using congrArg List.length kept
      rw [length]
      exact store.inside }

/-- A store in which the function with an id has other code; none when there is no such function. -/
def setCode? (store : Store) (id code : String) : Option Store :=
  (store.position? id).map fun i =>
    store.withNodes (store.nodes.modify i fun node => { node with code }) (by
      refine List.ext_getElem? fun k => ?_
      rw [List.getElem?_map, List.getElem?_modify, List.getElem?_map]
      cases store.nodes[k]? with
      | none => rfl
      | some node => split <;> rfl)

/-- A store whose functions are in the clusters that `cluster` gives their ids. -/
def assignClusters (store : Store) (cluster : String → Option Nat) : Store :=
  store.withNodes (store.nodes.map fun node => { node with cluster := cluster node.id }) (by simp)

/-- The store that a change makes of a store, none when the change is refused. -/
def change? (store : Store) : Change → Option Store
  | .function node => store.addFunction? node
  | .call call => store.addCall? call
  | .code id code => store.setCode? id code
  | .clusters cluster => some (store.assignClusters cluster)

/-- A store after some changes. A change that is refused leaves it as it is. -/
def after (store : Store) (changes : List Change) : Store :=
  changes.foldl (fun store change => (store.change? change).getD store) store

/-- How many functions there are. -/
def nodeCount (store : Store) : Nat := store.nodes.length

/-- How many calls there are. -/
def edgeCount (store : Store) : Nat := store.edges.length

/-- The function with an id. -/
def node? (store : Store) (id : String) : Option FunctionNode :=
  (store.position? id).bind fun i => store.nodes[i]?

/-- The id at a position. -/
def idAt (store : Store) (i : Nat) : String := (store.nodes[i]?.map FunctionNode.id).getD ""

/-- The call between two positions. -/
def callAt (store : Store) (edge : Nat × Nat) : Call :=
  ⟨store.idAt edge.1, store.idAt edge.2⟩

/-- The far ends of the calls whose near end is the function with an id, in order and each once;
none for an unknown id. -/
def neighbours? (store : Store) (near far : Nat × Nat → Nat) (a : String) : Option (List String) :=
  (store.position? a).map fun i =>
    Ordered.ofList id ((store.edges.filter (near · = i)).map fun edge => store.idAt (far edge))

/-- The functions that call the one with an id, in order; none for an unknown id. -/
def callers? (store : Store) : String → Option (List String) := store.neighbours? Prod.snd Prod.fst

/-- The functions that the one with an id calls, in order; none for an unknown id. -/
def callees? (store : Store) : String → Option (List String) := store.neighbours? Prod.fst Prod.snd

variable {store : Store} {a : String} {i j : Nat}

theorem idAt_of_lt (hi : i < store.nodes.length) : store.idAt i = store.nodes[i].id := by
  rw [idAt, List.getElem?_eq_getElem hi]
  rfl

/-- The index knows the id at a position, and at no other. -/
theorem position?_eq_some_iff (hi : i < store.nodes.length) :
    store.position? a = some i ↔ store.idAt i = a := by
  rw [position?, store.indexed, List.getElem?_eq_getElem hi, idAt_of_lt hi]
  simp

theorem idAt_of_position? (found : store.position? a = some i) : store.idAt i = a :=
  (position?_eq_some_iff (position_lt found)).mp found

theorem idAt_inj (hi : i < store.nodes.length) (hj : j < store.nodes.length)
    (same : store.idAt i = store.idAt j) : i = j := by
  have first := (position?_eq_some_iff hi).mpr same
  have second := (position?_eq_some_iff hj).mpr rfl
  exact Option.some.inj (first.symm.trans second)

theorem ids_nodup (store : Store) : (store.nodes.map FunctionNode.id).Nodup := by
  refine List.pairwise_map.mpr (List.pairwise_iff_getElem.mpr fun i j hi hj before same => ?_)
  rw [← idAt_of_lt hi, ← idAt_of_lt hj] at same
  exact absurd (idAt_inj hi hj same) before.ne

theorem nodes_perm (store : Store) : (Ordered.ofList FunctionNode.id store.nodes).Perm store.nodes :=
  Ordered.ofList_perm store.ids_nodup

theorem idAt_mem (hi : i < store.nodes.length) : store.idAt i ∈ store.nodes.map FunctionNode.id := by
  rw [idAt_of_lt hi]
  exact List.mem_map_of_mem (List.getElem_mem hi)

/-- The functions and calls of a store, in order. -/
def graph (store : Store) : CallGraph where
  nodes := Ordered.ofList FunctionNode.id store.nodes
  calls := Ordered.ofList id (store.edges.map store.callAt)
  nodes_increasing := Ordered.increasing_ofList _ _
  calls_increasing := Ordered.increasing_ofList _ _
  closed := fun call listed => by
    obtain ⟨edge, kept, rfl⟩ := List.mem_map.mp (Ordered.mem_of_mem_ofList listed)
    obtain ⟨one, other⟩ := store.inside edge kept
    simp only [(store.nodes_perm.map FunctionNode.id).mem_iff]
    exact ⟨idAt_mem one, idAt_mem other⟩

/-- The index knows the ids of the functions. -/
theorem exists_position?_iff : (∃ i, store.position? a = some i) ↔ a ∈ store.graph.ids := by
  have listed : a ∈ store.graph.ids ↔ a ∈ store.nodes.map FunctionNode.id :=
    (store.nodes_perm.map FunctionNode.id).mem_iff
  rw [listed, List.mem_iff_getElem?]
  refine exists_congr fun i => ?_
  rw [position?, store.indexed, List.getElem?_map]

theorem position?_eq_none_iff : store.position? a = none ↔ a ∉ store.graph.ids := by
  rw [← exists_position?_iff, Option.eq_none_iff_forall_ne_some, not_exists]

theorem mem_calls_graph {call : Call} :
    call ∈ store.graph.calls ↔ ∃ edge ∈ store.edges, store.callAt edge = call := by
  rw [graph, Ordered.mem_ofList_id, List.mem_map]

section Changes

theorem graph_addFunction? (store : Store) (node : FunctionNode) :
    (store.addFunction? node).map graph = store.graph.addFunction? node := by
  rw [addFunction?, CallGraph.addFunction?]
  split
  · next i found =>
    rw [if_pos (exists_position?_iff.mp ⟨i, found⟩)]
    rfl
  · next fresh =>
    rw [if_neg (position?_eq_none_iff.mp fresh), Option.map_some]
    refine congrArg some (eq_of_nodes_of_calls (Ordered.ofList_concat _ _ _) ?_)
    -- The functions that calls are between stand where they stood.
    refine congrArg (Ordered.ofList id) (List.map_congr_left fun edge listed => ?_)
    obtain ⟨one, other⟩ := store.inside edge listed
    simp only [callAt, idAt, List.getElem?_append_left one, List.getElem?_append_left other]

theorem graph_addCall? (store : Store) (call : Call) :
    (store.addCall? call).map graph = store.graph.addCall? call := by
  rw [addCall?, CallGraph.addCall?]
  split
  · next i j caller callee =>
    have ends : store.callAt (i, j) = call := by
      rw [callAt, idAt_of_position? caller, idAt_of_position? callee]
    have known : call.caller ∈ store.graph.ids ∧ call.callee ∈ store.graph.ids :=
      ⟨exists_position?_iff.mp ⟨i, caller⟩, exists_position?_iff.mp ⟨j, callee⟩⟩
    rw [dif_pos known]
    split
    · next repeated =>
      refine congrArg some (eq_of_nodes_of_calls rfl ?_)
      have listed := mem_calls_graph.mpr ⟨_, repeated, ends⟩
      exact (store.graph.calls_increasing.insert_of_mem (by simpa using listed)).symm
    · refine congrArg some (eq_of_nodes_of_calls rfl ?_)
      show Ordered.ofList id ((store.edges ++ [(i, j)]).map store.callAt) = _
      rw [List.map_append, List.map_singleton, ends, Ordered.ofList_concat]
      rfl
  · next unknown =>
    rw [dif_neg]
    · rfl
    · rintro ⟨caller, callee⟩
      obtain ⟨i, hi⟩ := exists_position?_iff.mpr caller
      obtain ⟨j, hj⟩ := exists_position?_iff.mpr callee
      exact unknown i j hi hj

/-- Changing functions and putting them in order may be done in either order. -/
theorem graph_withNodes {f : FunctionNode → FunctionNode} (keeps : ∀ node, (f node).id = node.id)
    {nodes : List FunctionNode} (changed : nodes = store.nodes.map f)
    (kept : nodes.map FunctionNode.id = store.nodes.map FunctionNode.id) :
    (store.withNodes nodes kept).graph = store.graph.mapNodes f keeps := by
  have named : (store.withNodes nodes kept).idAt = store.idAt := by
    funext i
    rw [idAt, idAt, ← List.getElem?_map, ← List.getElem?_map]
    exact congrArg (fun ids => (ids[i]?).getD "") kept
  refine eq_of_nodes_of_calls ?_ ?_
  · show Ordered.ofList FunctionNode.id nodes = _
    rw [changed, ← Ordered.map_ofList keeps]
    rfl
  · refine congrArg (Ordered.ofList id) (List.map_congr_left fun edge _ => ?_)
    rw [callAt, callAt, named]

theorem graph_setCode? (store : Store) (a code : String) :
    (store.setCode? a code).map graph =
      if a ∈ store.graph.ids then some (store.graph.setCode a code) else none := by
  rw [setCode?, Option.map_map]
  cases found : store.position? a with
  | none =>
      rw [if_neg (position?_eq_none_iff.mp found)]
      rfl
  | some i =>
      rw [if_pos (exists_position?_iff.mp ⟨i, found⟩)]
      refine congrArg some (graph_withNodes _ ?_ _)
      refine List.ext_getElem? fun k => ?_
      rw [List.getElem?_modify, List.getElem?_map]
      cases here : store.nodes[k]? with
      | none => rfl
      | some node =>
          -- The function has the id when it stands where the index says.
          obtain ⟨hk, rfl⟩ := List.getElem?_eq_some_iff.mp here
          have there : i = k ↔ store.nodes[k].id = a := by
            rw [← idAt_of_lt hk, ← position?_eq_some_iff hk, found, Option.some_inj]
          simp only [there, Option.map_some]
          split <;> rfl

theorem graph_assignClusters (store : Store) (cluster : String → Option Nat) :
    (store.assignClusters cluster).graph = store.graph.assignClusters cluster :=
  graph_withNodes (f := fun node => { node with cluster := cluster node.id }) (fun _ => rfl) rfl _

/-- A change of a store is accepted when it is accepted by the graph, and changes it likewise. -/
theorem graph_change? (store : Store) (change : Change) :
    (store.change? change).map graph = store.graph.change? change := by
  cases change with
  | function node => exact graph_addFunction? store node
  | call call => exact graph_addCall? store call
  | code id code => exact graph_setCode? store id code
  | clusters cluster => exact congrArg some (graph_assignClusters store cluster)

theorem graph_after (store : Store) (changes : List Change) :
    (store.after changes).graph = store.graph.after changes := by
  induction changes generalizing store with
  | nil => rfl
  | cons change rest ih =>
      have step : ((store.change? change).getD store).graph =
          (store.graph.change? change).getD store.graph := by
        rw [← graph_change?]
        cases store.change? change <;> rfl
      rw [after_cons, ← step]
      exact ih _

end Changes

section Questions

theorem node?_graph (store : Store) (a : String) : store.graph.node? a = store.node? a := by
  apply Option.ext
  intro node
  rw [node?_eq_some_iff, node?, Option.bind_eq_some_iff]
  constructor
  · rintro ⟨listed, rfl⟩
    obtain ⟨i, found⟩ := List.mem_iff_getElem?.mp (store.nodes_perm.mem_iff.mp listed)
    exact ⟨i, (store.indexed _ i).mpr (by rw [found]; rfl), found⟩
  · rintro ⟨i, known, found⟩
    have named := (store.indexed a i).mp known
    rw [found, Option.map_some, Option.some_inj] at named
    exact ⟨store.nodes_perm.mem_iff.mpr (List.mem_of_getElem? found), named⟩

/-- The neighbours of a function are the far ends of the calls that have it as their near end. -/
theorem neighbours?_eq {near far : Nat × Nat → Nat} {names : List String}
    (inside : ∀ edge ∈ store.edges, near edge < store.nodes.length)
    (found : store.position? a = some i) (increasing : names.Pairwise (· < ·))
    (members : ∀ b, b ∈ names ↔
      ∃ edge ∈ store.edges, store.idAt (near edge) = a ∧ store.idAt (far edge) = b) :
    store.neighbours? near far a = some names := by
  rw [neighbours?, found, Option.map_some, Option.some_inj]
  apply Ordered.ofList_id_eq_of_mem_iff (increasing.imp fun before => compare_lt_iff_lt.mpr before)
  intro b
  rw [members, List.mem_map]
  refine exists_congr fun edge => ?_
  rw [List.mem_filter, decide_eq_true_eq, and_assoc]
  refine and_congr_right fun listed => and_congr_left fun _ => ?_
  rw [← position?_eq_some_iff (inside edge listed), found, Option.some_inj, eq_comm]

theorem callers?_graph (store : Store) (a : String) :
    store.graph.callers? a = store.callers? a := by
  cases found : store.position? a with
  | none =>
      rw [callers?, neighbours?, found]
      exact callers?_eq_none_iff.mpr (position?_eq_none_iff.mp found)
  | some i =>
      have asked : store.graph.callers? a = some _ := if_pos (exists_position?_iff.mp ⟨i, found⟩)
      rw [asked, eq_comm]
      apply neighbours?_eq (fun edge listed => (store.inside edge listed).2) found
        (callers_increasing asked)
      intro b
      rw [mem_callers_iff asked, mem_calls_graph]
      simp only [callAt, Call.mk.injEq, and_comm]

theorem callees?_graph (store : Store) (a : String) :
    store.graph.callees? a = store.callees? a := by
  cases found : store.position? a with
  | none =>
      rw [callees?, neighbours?, found]
      exact callees?_eq_none_iff.mpr (position?_eq_none_iff.mp found)
  | some i =>
      have asked : store.graph.callees? a = some _ := if_pos (exists_position?_iff.mp ⟨i, found⟩)
      rw [asked, eq_comm]
      apply neighbours?_eq (fun edge listed => (store.inside edge listed).1) found
        (callees_increasing asked)
      intro b
      rw [mem_callees_iff asked, mem_calls_graph]
      simp only [callAt, Call.mk.injEq]

theorem nodeCount_graph (store : Store) : store.graph.nodeCount = store.nodeCount :=
  store.nodes_perm.length_eq

theorem edgeCount_graph (store : Store) : store.graph.edgeCount = store.edgeCount := by
  have distinct : (store.edges.map store.callAt).Nodup := by
    refine List.Nodup.map_on ?_ store.edges_nodup
    intro edge listed other listed' same
    obtain ⟨callers, callees⟩ := Call.mk.inj same
    obtain ⟨one, two⟩ := store.inside edge listed
    obtain ⟨one', two'⟩ := store.inside other listed'
    exact Prod.ext (idAt_inj one one' callers) (idAt_inj two two' callees)
  have perm : store.graph.calls.Perm (store.edges.map store.callAt) :=
    Ordered.ofList_perm (by simpa using distinct)
  rw [edgeCount, CallGraph.edgeCount, perm.length_eq, List.length_map]

end Questions

/-- A store that went through any changes cannot be told from the graph that went through the same
changes: it accepts the same changes, and it gives the same answers. -/
theorem after_agrees (changes : List Change) :
    let store := empty.after changes
    let graph := CallGraph.empty.after changes
    store.graph = graph ∧
      (∀ change, (store.change? change).map Store.graph = graph.change? change) ∧
      (∀ id, store.node? id = graph.node? id) ∧
      (∀ id, store.callers? id = graph.callers? id) ∧
      (∀ id, store.callees? id = graph.callees? id) ∧
      store.nodeCount = graph.nodeCount ∧ store.edgeCount = graph.edgeCount := by
  intro store graph
  have same : store.graph = graph := graph_after empty changes
  rw [← same]
  exact ⟨rfl, graph_change? store, fun id => (node?_graph store id).symm,
    fun id => (callers?_graph store id).symm, fun id => (callees?_graph store id).symm,
    (nodeCount_graph store).symm, (edgeCount_graph store).symm⟩

end Store

end CallAtlas.CallGraph
