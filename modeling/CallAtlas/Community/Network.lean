import CallAtlas.CallGraph
import CallAtlas.Community.Weight

/-!
# Networks

A network is what clustering sees of a call graph: the functions as numbers, in the order of their
ids, and between two different functions the number of calls, whichever way they go. A function
that calls itself gains nothing by it.
-/

namespace CallAtlas

/-- An undirected weighted graph. Row `i` gives the neighbours of node `i` and their weights. -/
structure Network (α : Type) where
  rows : Array (Tally α)

namespace Network

variable {α : Type} [Weight α]

/-- The number of nodes. -/
def size (net : Network α) : Nat := net.rows.size

/-- The neighbours of a node, with weights. -/
def row (net : Network α) (i : Nat) : Tally α := net.rows.getD i []

/-- The weight at a node. -/
def degree (net : Network α) (i : Nat) : α := Weight.sum ((net.row i).map (·.2))

/-- The weight at all nodes: twice the weight of all edges. -/
def volume (net : Network α) : α := Weight.sum ((List.range net.size).map net.degree)

/-- The weight of all edges. -/
def totalWeight (net : Network α) : α := net.volume / Weight.ofNat 2

/-- Every node by itself. -/
def singletons (net : Network α) : List (List Nat) :=
  (List.range net.size).map fun i => [i]

/-- An edge with a weight. Its ends may be the same node. -/
structure Edge (α : Type) where
  one : Nat
  other : Nat
  weight : α

/-- Nodes without edges. -/
def blank (α : Type) (size : Nat) : Network α := ⟨Array.replicate size []⟩

/-- A network in which the first node gains the second as a neighbour, or weight to it. -/
def addEnd (net : Network α) (i j : Nat) (weight : α) : Network α :=
  ⟨net.rows.modify i fun row => row.add j weight⟩

/-- A network with one more edge, entered at both ends. -/
def addEdge (net : Network α) (edge : Edge α) : Network α :=
  (net.addEnd edge.one edge.other edge.weight).addEnd edge.other edge.one edge.weight

/-- The network that edges make between so many nodes. -/
def ofEdges (size : Nat) (edges : List (Edge α)) : Network α :=
  edges.foldl addEdge (blank α size)

/-- The edges from a node to larger ones among some nodes. The ends are numbered by their positions
among these. -/
def edgesFrom (net : Network α) (nodes : List Nat) (i : Nat) : List (Edge α) :=
  (net.row i).filterMap fun (j, weight) =>
    if i < j then (nodes.idxOf? j).map (⟨nodes.idxOf i, ·, weight⟩) else none

/-- The edges among some nodes, each from its smaller end. -/
def edgesAmong (net : Network α) (nodes : List Nat) : List (Edge α) :=
  nodes.flatMap (net.edgesFrom nodes)

/-- The part of a network between some of its nodes, which are numbered anew in their order. -/
def restrict (net : Network α) (nodes : List Nat) : Network α :=
  ofEdges nodes.length (net.edgesAmong nodes)

/-- A call as an edge of weight one between its functions. -/
def callEdge (α : Type) [Weight α] (graph : CallGraph) (call : Call) : Edge α where
  one := graph.ids.idxOf call.caller
  other := graph.ids.idxOf call.callee
  weight := Weight.ofNat 1

/-- The calls between different functions as edges. -/
def callEdges (α : Type) [Weight α] (graph : CallGraph) : List (Edge α) :=
  (graph.calls.filter fun call => call.caller ≠ call.callee).map (callEdge α graph)

/-- The network of a call graph. -/
def ofGraph (α : Type) [Weight α] (graph : CallGraph) : Network α :=
  ofEdges graph.ids.length (callEdges α graph)

end Network

end CallAtlas
