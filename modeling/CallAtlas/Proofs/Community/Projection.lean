import CallAtlas.Proofs.Cluster.Partition
import CallAtlas.Proofs.Community.Edges

/-!
# The network of a call graph

Two functions are linked when one of them calls the other. In the network of a graph the neighbours
of a function are the other functions linked with it; which of the two calls, and whether a
function calls itself, is no longer seen there.
-/

namespace CallAtlas

namespace CallGraph

variable {graph : CallGraph} {a b : String} {i j : Nat}

/-- One of two functions calls the other. -/
def Linked (graph : CallGraph) (a b : String) : Prop :=
  ⟨a, b⟩ ∈ graph.calls ∨ ⟨b, a⟩ ∈ graph.calls

theorem Linked.symm (h : graph.Linked a b) : graph.Linked b a := Or.symm h

theorem Linked.mem_ids (h : graph.Linked a b) : b ∈ graph.ids :=
  h.elim (fun call => (graph.closed _ call).2) fun call => (graph.closed _ call).1

theorem idAt_idxOf (h : a ∈ graph.ids) : graph.idAt (graph.ids.idxOf a) = a := by
  have inside := List.idxOf_lt_length_of_mem h
  rw [idAt, List.getD_eq_getElem _ _ inside, List.getElem_idxOf]

theorem idxOf_idAt (hi : i < graph.nodes.length) : graph.ids.idxOf (graph.idAt i) = i := by
  have inside : i < graph.ids.length := by simpa using hi
  rw [idAt, List.getD_eq_getElem _ _ inside]
  exact graph.ids_nodup.idxOf_getElem i inside

theorem eq_idxOf_iff (known : a ∈ graph.ids) (hi : i < graph.nodes.length) :
    i = graph.ids.idxOf a ↔ a = graph.idAt i := by
  constructor
  · rintro rfl
    exact (idAt_idxOf known).symm
  · rintro rfl
    exact (idxOf_idAt hi).symm

/-- Positions with the same id are equal. -/
theorem idAt_inj (hi : i < graph.nodes.length) (hj : j < graph.nodes.length) :
    graph.idAt i = graph.idAt j ↔ i = j :=
  ⟨fun same => (idxOf_idAt hi).symm.trans (same ▸ idxOf_idAt hj), fun same => same ▸ rfl⟩

end CallGraph

namespace Network

variable {α : Type} [Weight α] {graph : CallGraph} {i j : Nat}

/-- The edges are the calls between different functions, by position. -/
theorem mem_callEdges {edge : Edge α} :
    edge ∈ callEdges α graph ↔
      edge.one < graph.nodes.length ∧ edge.other < graph.nodes.length ∧ edge.one ≠ edge.other ∧
        ⟨graph.idAt edge.one, graph.idAt edge.other⟩ ∈ graph.calls ∧
        edge.weight = Weight.ofNat 1 := by
  constructor
  · intro listed
    obtain ⟨⟨caller, callee⟩, kept, rfl⟩ := List.mem_map.mp listed
    obtain ⟨made, different⟩ := List.mem_filter.mp kept
    have hcaller : caller ∈ graph.ids := (graph.closed _ made).1
    have hcallee : callee ∈ graph.ids := (graph.closed _ made).2
    refine ⟨?_, ?_, fun same => ?_, ?_, rfl⟩
    · simpa [callEdge] using List.idxOf_lt_length_of_mem hcaller
    · simpa [callEdge] using List.idxOf_lt_length_of_mem hcallee
    · have same : graph.idAt (graph.ids.idxOf caller) = graph.idAt (graph.ids.idxOf callee) :=
        congrArg graph.idAt same
      rw [CallGraph.idAt_idxOf hcaller, CallGraph.idAt_idxOf hcallee] at same
      simp [same] at different
    · simpa only [callEdge, CallGraph.idAt_idxOf hcaller, CallGraph.idAt_idxOf hcallee] using made
  · rintro ⟨hi, hj, different, made, weight⟩
    have apart := mt (CallGraph.idAt_inj hi hj).mp different
    refine List.mem_map.mpr ⟨_, List.mem_filter.mpr ⟨made, by simpa using apart⟩, ?_⟩
    simp only [callEdge, CallGraph.idxOf_idAt hi, CallGraph.idxOf_idAt hj, ← weight]

theorem within_callEdges (graph : CallGraph) : Within graph.ids.length (callEdges α graph) := by
  intro edge listed
  obtain ⟨one, other, -⟩ := mem_callEdges.mp listed
  simpa using And.intro one other

theorem increasing_row_ofGraph (i : Nat) : Tally.Increasing ((ofGraph α graph).row i) :=
  increasing_row_ofEdges (within_callEdges graph) i

theorem closed_ofGraph (graph : CallGraph) : (ofGraph α graph).Closed :=
  closed_ofEdges (within_callEdges graph)

/-- Neighbours are functions that are linked, and not the same. -/
theorem joins_ofGraph :
    (ofGraph α graph).Joins i j ↔
      i < graph.nodes.length ∧ j < graph.nodes.length ∧ i ≠ j ∧
        graph.Linked (graph.idAt i) (graph.idAt j) := by
  rw [ofGraph, joins_ofEdges (within_callEdges graph)]
  constructor
  · rintro ⟨edge, listed, links⟩
    obtain ⟨one, other, different, made, -⟩ := mem_callEdges.mp listed
    rcases links with ⟨rfl, rfl⟩ | ⟨rfl, rfl⟩
    · exact ⟨one, other, different, .inl made⟩
    · exact ⟨other, one, different.symm, .inr made⟩
  · rintro ⟨hi, hj, different, made | made⟩
    · exact ⟨⟨i, j, Weight.ofNat 1⟩, mem_callEdges.mpr ⟨hi, hj, different, made, rfl⟩,
        .inl ⟨rfl, rfl⟩⟩
    · exact ⟨⟨j, i, Weight.ofNat 1⟩, mem_callEdges.mpr ⟨hj, hi, different.symm, made, rfl⟩,
        .inr ⟨rfl, rfl⟩⟩

end Network

end CallAtlas
