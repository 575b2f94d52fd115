import CallAtlas.CallGraph.Linking
import CallAtlas.Proofs.Ordered
import Mathlib.Data.String.Basic

/-!
# What is in a graph that was built step by step

Functions and calls are added one after another, and an addition may be refused. These lemmas say
what is there in the end: an id, if some function with it was offered, and a call, if it was
offered and both its ends were there. When no two functions have the same id, no function is
refused.
-/

namespace CallAtlas

instance : Std.LawfulEqOrd Call where
  eq_of_compare {a b} h := by
    obtain ⟨callers, callees⟩ := Ordering.then_eq_eq.mp h
    cases a
    cases b
    simp only [compareOn, Std.LawfulEqOrd.compare_eq_iff_eq] at callers callees
    exact Call.mk.injEq .. ▸ ⟨callers, callees⟩

theorem Call.compare_eq_lt_iff {a b : Call} :
    compare a b = .lt ↔ a.caller < b.caller ∨ a.caller = b.caller ∧ a.callee < b.callee := by
  show (compare a.caller b.caller).then (compare a.callee b.callee) = .lt ↔ _
  rw [Ordering.then_eq_lt, compare_lt_iff_lt, compare_lt_iff_lt, compare_eq_iff_eq]

namespace CallGraph

theorem eq_of_nodes_of_calls {graph other : CallGraph} (nodes : graph.nodes = other.nodes)
    (calls : graph.calls = other.calls) : graph = other := by
  cases graph
  cases other
  cases nodes
  cases calls
  rfl

theorem ids_increasing (graph : CallGraph) : graph.ids.Pairwise (· < ·) :=
  List.pairwise_map.mpr (graph.nodes_increasing.imp fun h => compare_lt_iff_lt.mp h)

theorem ids_nodup (graph : CallGraph) : graph.ids.Nodup :=
  graph.ids_increasing.imp fun h => ne_of_lt h

@[simp] theorem length_ids (graph : CallGraph) : graph.ids.length = graph.nodes.length := by
  simp [ids]

@[simp] theorem ids_mapNodes (graph : CallGraph) (f : FunctionNode → FunctionNode)
    (keeps : ∀ node, (f node).id = node.id) : (graph.mapNodes f keeps).ids = graph.ids := by
  rw [ids, mapNodes, List.map_map]
  exact List.map_congr_left fun node _ => keeps node

variable {graph : CallGraph} {node : FunctionNode} {call : Call} {id : String}

/-- Offering one function: a known id leaves the graph as it is. -/
theorem getD_addFunction?_of_mem (h : node.id ∈ graph.ids) :
    (graph.addFunction? node).getD graph = graph := by
  simp [addFunction?, h]

theorem nodes_addFunction_perm (h : node.id ∉ graph.ids) :
    ((graph.addFunction? node).getD graph).nodes.Perm (node :: graph.nodes) := by
  simp only [addFunction?, h, if_false, Option.getD_some]
  refine Ordered.insert_perm fun other hother same => h ?_
  exact same ▸ List.mem_map_of_mem hother

@[simp] theorem calls_addFunction (graph : CallGraph) (node : FunctionNode) :
    ((graph.addFunction? node).getD graph).calls = graph.calls := by
  by_cases h : node.id ∈ graph.ids
  · rw [getD_addFunction?_of_mem h]
  · simp [addFunction?, h]

theorem mem_ids_addFunction :
    id ∈ ((graph.addFunction? node).getD graph).ids ↔ id = node.id ∨ id ∈ graph.ids := by
  by_cases h : node.id ∈ graph.ids
  · rw [getD_addFunction?_of_mem h]
    exact ⟨Or.inr, fun known => known.elim (fun same => same ▸ h) fun known => known⟩
  · rw [ids, ((nodes_addFunction_perm h).map FunctionNode.id).mem_iff]
    simp [ids]

@[simp] theorem addFunctions_cons (graph : CallGraph) (node : FunctionNode)
    (nodes : List FunctionNode) :
    graph.addFunctions (node :: nodes) =
      ((graph.addFunction? node).getD graph).addFunctions nodes := rfl

@[simp] theorem calls_addFunctions (graph : CallGraph) (nodes : List FunctionNode) :
    (graph.addFunctions nodes).calls = graph.calls := by
  induction nodes generalizing graph with
  | nil => rfl
  | cons node nodes ih => rw [addFunctions_cons, ih, calls_addFunction]

theorem mem_ids_addFunctions {nodes : List FunctionNode} :
    id ∈ (graph.addFunctions nodes).ids ↔ id ∈ graph.ids ∨ ∃ node ∈ nodes, node.id = id := by
  induction nodes generalizing graph with
  | nil => simp [addFunctions]
  | cons node nodes ih =>
      rw [addFunctions_cons, ih, mem_ids_addFunction]
      simp only [List.mem_cons, exists_eq_or_imp]
      rw [eq_comm, or_comm (a := node.id = id), or_assoc]

/-- When all ids are distinct, every function is added. -/
theorem nodes_addFunctions_perm {nodes : List FunctionNode}
    (distinct : (nodes.map FunctionNode.id ++ graph.ids).Nodup) :
    (graph.addFunctions nodes).nodes.Perm (nodes ++ graph.nodes) := by
  induction nodes generalizing graph with
  | nil => exact List.Perm.refl _
  | cons node nodes ih =>
      obtain ⟨fresh, rest⟩ := List.nodup_cons.mp distinct
      have new : node.id ∉ graph.ids := fun h => fresh (List.mem_append_right _ h)
      have added := nodes_addFunction_perm new
      rw [addFunctions_cons]
      refine (ih ?_).trans ((added.append_left nodes).trans List.perm_middle)
      have shifted : (nodes.map FunctionNode.id ++
          ((graph.addFunction? node).getD graph).ids).Perm
          (node.id :: (nodes.map FunctionNode.id ++ graph.ids)) :=
        ((added.map FunctionNode.id).append_left _).trans List.perm_middle
      exact shifted.nodup_iff.mpr distinct

/-- Only functions that were offered are added. -/
theorem mem_of_mem_nodes_addFunctions {nodes : List FunctionNode} {other : FunctionNode}
    (h : other ∈ (graph.addFunctions nodes).nodes) : other ∈ nodes ∨ other ∈ graph.nodes := by
  induction nodes generalizing graph with
  | nil => exact .inr h
  | cons node nodes ih =>
      rw [addFunctions_cons] at h
      rcases ih h with later | earlier
      · exact .inl (List.mem_cons_of_mem node later)
      · by_cases known : node.id ∈ graph.ids
        · rw [getD_addFunction?_of_mem known] at earlier
          exact .inr earlier
        · rcases List.mem_cons.mp ((nodes_addFunction_perm known).mem_iff.mp earlier) with rfl | old
          · exact .inl List.mem_cons_self
          · exact .inr old

@[simp] theorem nodes_addCall (graph : CallGraph) (call : Call) :
    ((graph.addCall? call).getD graph).nodes = graph.nodes := by
  unfold addCall?
  split <;> rfl

theorem mem_calls_addCall {other : Call} :
    other ∈ ((graph.addCall? call).getD graph).calls ↔
      other ∈ graph.calls ∨ other = call ∧ call.caller ∈ graph.ids ∧ call.callee ∈ graph.ids := by
  unfold addCall?
  split
  · next known =>
    simp only [Option.getD_some, Ordered.mem_insert_id]
    tauto
  · next unknown =>
    simp only [Option.getD_none]
    tauto

@[simp] theorem addCalls_cons (graph : CallGraph) (call : Call) (calls : List Call) :
    graph.addCalls (call :: calls) = ((graph.addCall? call).getD graph).addCalls calls := rfl

@[simp] theorem nodes_addCalls (graph : CallGraph) (calls : List Call) :
    (graph.addCalls calls).nodes = graph.nodes := by
  induction calls generalizing graph with
  | nil => rfl
  | cons call calls ih => rw [addCalls_cons, ih, nodes_addCall]

/-- The calls in the end are those that were there, and those offered whose ends are there. -/
theorem mem_calls_addCalls {calls : List Call} :
    call ∈ (graph.addCalls calls).calls ↔
      call ∈ graph.calls ∨ call ∈ calls ∧ call.caller ∈ graph.ids ∧ call.callee ∈ graph.ids := by
  induction calls generalizing graph with
  | nil => simp [addCalls]
  | cons first calls ih =>
      have sameIds : ((graph.addCall? first).getD graph).ids = graph.ids := by
        rw [ids, nodes_addCall, ids]
      rw [addCalls_cons, ih, mem_calls_addCall, sameIds, List.mem_cons]
      constructor
      · rintro ((h | ⟨rfl, ends⟩) | ⟨h, ends⟩)
        · exact Or.inl h
        · exact Or.inr ⟨Or.inl rfl, ends⟩
        · exact Or.inr ⟨Or.inr h, ends⟩
      · rintro (h | ⟨rfl | h, ends⟩)
        · exact Or.inl (Or.inl h)
        · exact Or.inl (Or.inr ⟨rfl, ends⟩)
        · exact Or.inr ⟨h, ends⟩

end CallGraph

end CallAtlas
