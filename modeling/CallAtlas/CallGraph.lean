import CallAtlas.Declaration

/-!
# Call graphs

The functions of a program and who calls whom. Functions stand in the order of their ids and calls
in the order of caller and callee, each once, and both ends of a call are functions of the graph.
These facts are part of the type, so every graph has them, however it was made.

A function and a call are added by `addFunction?` and `addCall?`, which answer `none` when they
refuse: a known id, or an unknown end. After that only the code and the cluster of a function
change. A graph that is kept in the order of additions, with an index of the ids, takes the same
changes and gives the same answers; `CallGraph.Store` is about this.
-/

namespace CallAtlas

/-- A function of a program. -/
structure FunctionNode where
  id : String
  name : String
  file : String
  scope : Option String
  signature : String
  startLine : Nat
  endLine : Nat
  code : String
  /-- The cluster that the function was put in. -/
  cluster : Option Nat
  deriving DecidableEq, Repr

namespace FunctionNode

/-- The function that a declaration in a file declares. -/
def ofDeclaration (id file : String) (d : Declaration) : FunctionNode :=
  { id, file, name := d.name, scope := d.scope, signature := d.signature,
    startLine := d.startLine, endLine := d.endLine, code := d.code, cluster := none }

end FunctionNode

/-- One function calls another. -/
structure Call where
  caller : String
  callee : String
  deriving DecidableEq, Repr

namespace Call

/-- Calls are ordered by caller, and of one caller by callee. -/
instance : Ord Call := ⟨compareLex (compareOn caller) (compareOn callee)⟩

instance : Std.TransOrd Call :=
  inferInstanceAs (Std.TransCmp (compareLex (compareOn caller) (compareOn callee)))

end Call

/-- The functions of a program and the calls between them. -/
structure CallGraph where
  nodes : List FunctionNode
  calls : List Call
  nodes_increasing : Ordered.Increasing FunctionNode.id nodes
  calls_increasing : Ordered.Increasing id calls
  closed : ∀ call ∈ calls,
    call.caller ∈ nodes.map FunctionNode.id ∧ call.callee ∈ nodes.map FunctionNode.id

namespace CallGraph

/-- The graph of no functions. -/
def empty : CallGraph where
  nodes := []
  calls := []
  nodes_increasing := Ordered.increasing_nil _
  calls_increasing := Ordered.increasing_nil _
  closed := by simp

/-- The ids of the functions, in order. -/
def ids (graph : CallGraph) : List String := graph.nodes.map FunctionNode.id

/-- How many functions there are. -/
def nodeCount (graph : CallGraph) : Nat := graph.nodes.length

/-- How many calls there are. -/
def edgeCount (graph : CallGraph) : Nat := graph.calls.length

/-- The function with an id. -/
def node? (graph : CallGraph) (id : String) : Option FunctionNode :=
  graph.nodes.find? (·.id = id)

theorem mem_ids_insert {graph : CallGraph} {node : FunctionNode} {id : String}
    (h : id ∈ graph.ids) : id ∈ (Ordered.insert FunctionNode.id node graph.nodes).map (·.id) := by
  obtain ⟨n, hn, rfl⟩ := List.mem_map.mp h
  exact List.mem_map.mpr ⟨n, Ordered.mem_insert_of_mem hn, rfl⟩

/-- A graph with one more function; none when its id is taken. -/
def addFunction? (graph : CallGraph) (node : FunctionNode) : Option CallGraph :=
  if node.id ∈ graph.ids then none
  else some
    { graph with
      nodes := Ordered.insert FunctionNode.id node graph.nodes
      nodes_increasing := Ordered.increasing_insert node graph.nodes_increasing
      closed := fun call h =>
        ⟨mem_ids_insert (graph.closed call h).1, mem_ids_insert (graph.closed call h).2⟩ }

/-- A graph with one more call; none when an end of it is no function of the graph. A call that
is there already is not repeated. -/
def addCall? (graph : CallGraph) (call : Call) : Option CallGraph :=
  if h : call.caller ∈ graph.ids ∧ call.callee ∈ graph.ids then
    some
      { graph with
        calls := Ordered.insert id call graph.calls
        calls_increasing := Ordered.increasing_insert call graph.calls_increasing
        closed := fun other hother => by
          rcases Ordered.mem_of_mem_insert hother with rfl | hother
          · exact h
          · exact graph.closed other hother }
  else none

/-- A graph with its functions changed in ways that leave their ids. -/
def mapNodes (graph : CallGraph) (f : FunctionNode → FunctionNode)
    (keeps : ∀ node, (f node).id = node.id) : CallGraph where
  nodes := graph.nodes.map f
  calls := graph.calls
  nodes_increasing := by
    refine List.pairwise_map.mpr (graph.nodes_increasing.imp fun {a b} h => ?_)
    rw [Ordered.Before, keeps a, keeps b]
    exact h
  calls_increasing := graph.calls_increasing
  closed := by
    have hid : (graph.nodes.map f).map FunctionNode.id = graph.nodes.map FunctionNode.id := by
      rw [List.map_map]
      exact List.map_congr_left fun node _ => keeps node
    rw [hid]
    exact graph.closed

/-- A graph in which the function with an id, if there is one, has other code. -/
def setCode (graph : CallGraph) (id code : String) : CallGraph :=
  graph.mapNodes (fun node => if node.id = id then { node with code } else node)
    fun node => by split <;> rfl

/-- A graph whose functions are in the clusters that `cluster` gives their ids. -/
def assignClusters (graph : CallGraph) (cluster : String → Option Nat) : CallGraph :=
  graph.mapNodes (fun node => { node with cluster := cluster node.id }) fun _ => rfl

/-- The functions that call the one with an id, in order; none for an unknown id. -/
def callers? (graph : CallGraph) (id : String) : Option (List String) :=
  if id ∈ graph.ids then some ((graph.calls.filter (·.callee = id)).map Call.caller) else none

/-- The functions that the one with an id calls, in order; none for an unknown id. -/
def callees? (graph : CallGraph) (id : String) : Option (List String) :=
  if id ∈ graph.ids then some ((graph.calls.filter (·.caller = id)).map Call.callee) else none

end CallGraph

end CallAtlas
