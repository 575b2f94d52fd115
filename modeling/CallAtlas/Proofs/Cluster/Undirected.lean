import CallAtlas.Proofs.Cluster.Size
import CallAtlas.Proofs.Community.Rearrangement

/-!
# Clusters without directions

Clustering reads a graph through its undirected projection: the functions, by id, name, file and
scope, and the number of calls between each two different ones. Two graphs with the same projection
have the same network, since the row of a function counts the calls between it and each other
function, and functions that differ in nothing that labels are made of have the same labels. So the
clusters are the same, whichever way the calls go and whether or not functions call themselves, and
also when the rows of the network are gathered in another order.
-/

namespace CallAtlas

/-- A function with nothing but what clustering reads of it. -/
def FunctionNode.bare (node : FunctionNode) : FunctionNode :=
  { id := node.id, name := node.name, file := node.file, scope := node.scope
    signature := "", startLine := 0, endLine := 0, code := "", cluster := none }

namespace Cluster

variable (members : List FunctionNode)

@[simp] theorem filterMap_scope_bare :
    (members.map FunctionNode.bare).filterMap FunctionNode.scope =
      members.filterMap FunctionNode.scope :=
  List.filterMap_map

@[simp] theorem map_name_bare :
    (members.map FunctionNode.bare).map FunctionNode.name = members.map FunctionNode.name :=
  List.map_map

theorem commonDirectory?_bare (other : String) :
    commonDirectory? (members.map FunctionNode.bare) other = commonDirectory? members other := by
  rw [commonDirectory?, List.filterMap_map]
  rfl

theorem baseLabel_bare : baseLabel (members.map FunctionNode.bare) = baseLabel members := by
  simp only [baseLabel, scopeLabel?, nameLabel?, commonDirectory?_bare, filterMap_scope_bare,
    map_name_bare, List.length_map]

theorem freeLabel_bare (label : String) (used : List String) :
    freeLabel label (members.map FunctionNode.bare) used = freeLabel label members used := by
  simp only [freeLabel, extensions, rankedScopes, rankedNames, commonDirectory?_bare,
    filterMap_scope_bare, map_name_bare]

theorem distinctLabels_bare (shared : String → Bool) (used : List String)
    (clusters : List (List FunctionNode)) :
    distinctLabels shared used (clusters.map (List.map FunctionNode.bare)) =
      distinctLabels shared used clusters := by
  induction clusters generalizing used with
  | nil => rfl
  | cons members rest ih =>
      simp only [List.map_cons, distinctLabels, baseLabel_bare, freeLabel_bare, ih]

/-- Labels are made of what clustering reads of the functions. -/
theorem labels_bare (clusters : List (List FunctionNode)) :
    labels (clusters.map (List.map FunctionNode.bare)) = labels clusters := by
  have bases : (clusters.map (List.map FunctionNode.bare)).map baseLabel =
      clusters.map baseLabel := by
    rw [List.map_map]
    exact List.map_congr_left fun members _ => baseLabel_bare members
  rw [labels, bases, distinctLabels_bare, labels]

/-- The functions at the positions of some communities. -/
def functionsAt (graph : CallGraph) (communities : List (List Nat)) : List (List FunctionNode) :=
  communities.map (·.filterMap (graph.nodes[·]?))

theorem map_bare_functionsAt (graph : CallGraph) (communities : List (List Nat)) :
    (functionsAt graph communities).map (List.map FunctionNode.bare) =
      communities.map (·.filterMap ((graph.nodes.map FunctionNode.bare)[·]?)) := by
  simp only [functionsAt, List.map_map, Function.comp_def, List.map_filterMap, List.getElem?_map]

/-- A cluster shows the ids and the label of its functions, and the density of its community. -/
theorem ofCommunities_eq {α : Type} (graph : CallGraph) (net : Network α)
    (communities : List (List Nat)) :
    ofCommunities graph net communities =
      (communities.zip (((functionsAt graph communities).map (List.map FunctionNode.id)).zip
        (labels (functionsAt graph communities)))).zipIdx.map fun ((community, ids, label), id) =>
        { id, label, members := ids
          cohesion := roundThousandths (density (innerEnds net community) community.length) } := by
  rw [List.zip_map_left, List.zip_map_right, List.zipIdx_map, List.map_map]
  rfl

/-- Clusters are made of what clustering reads of the functions, and of the ends inside each
community. -/
theorem ofCommunities_congr {α : Type} {graph other : CallGraph} {net net' : Network α}
    (nodes : graph.nodes.map FunctionNode.bare = other.nodes.map FunctionNode.bare)
    (ends : innerEnds net = innerEnds net') (communities : List (List Nat)) :
    ofCommunities graph net communities = ofCommunities other net' communities := by
  have same : (functionsAt graph communities).map (List.map FunctionNode.bare) =
      (functionsAt other communities).map (List.map FunctionNode.bare) := by
    rw [map_bare_functionsAt, map_bare_functionsAt, nodes]
  have labelled : labels (functionsAt graph communities) = labels (functionsAt other communities) :=
    by rw [← labels_bare, same, labels_bare]
  have named (clusters : List (List FunctionNode)) : clusters.map (List.map FunctionNode.id) =
      (clusters.map (List.map FunctionNode.bare)).map (List.map FunctionNode.id) := by
    simp only [List.map_map, Function.comp_def]
    rfl
  rw [ofCommunities_eq, ofCommunities_eq, labelled, ends, named, same, ← named]

end Cluster

namespace CallGraph

/-- Two graphs have the same functions, as far as clustering reads them, and as many calls between
each two different ones, whichever way they go. -/
structure SameProjection (graph other : CallGraph) : Prop where
  nodes : (graph.nodes.map FunctionNode.bare).Perm (other.nodes.map FunctionNode.bare)
  calls : ∀ a ∈ graph.ids, ∀ b ∈ graph.ids, a ≠ b →
    graph.callsBetween a b = other.callsBetween a b

namespace SameProjection

variable {graph other : CallGraph}

/-- Functions stand in the order of their ids, so there is one list of them. -/
theorem nodes_eq (alike : SameProjection graph other) :
    graph.nodes.map FunctionNode.bare = other.nodes.map FunctionNode.bare := by
  have increasing (graph : CallGraph) :
      (graph.nodes.map FunctionNode.bare).Pairwise fun a b => a.id < b.id :=
    List.pairwise_map.mpr (List.pairwise_map.mp graph.ids_increasing)
  apply List.Perm.eq_of_pairwise ?_ (increasing graph) (increasing other) alike.nodes
  intro a b _ _ before after
  exact absurd (before.trans after) (lt_irrefl _)

theorem ids_eq (alike : SameProjection graph other) : graph.ids = other.ids := by
  have named (graph : CallGraph) :
      graph.ids = (graph.nodes.map FunctionNode.bare).map FunctionNode.id :=
    (List.map_map (f := FunctionNode.bare) (g := FunctionNode.id)).symm
  rw [named, named, alike.nodes_eq]

/-- There are as many calls between any two ids, for there is none at an unknown one. -/
theorem callsBetween_eq (alike : SameProjection graph other) {a b : String} (different : a ≠ b) :
    graph.callsBetween a b = other.callsBetween a b := by
  by_cases known : a ∈ graph.ids ∧ b ∈ graph.ids
  · exact alike.calls a known.1 b known.2 different
  · have without (graph' : CallGraph) (ids : graph'.ids = graph.ids) :
        graph'.callsBetween a b = 0 := by
      by_contra positive
      have linked := callsBetween_pos.mp (Nat.pos_of_ne_zero positive)
      exact known (ids ▸ ⟨linked.symm.mem_ids, linked.mem_ids⟩)
    rw [without graph rfl, without other alike.ids_eq.symm]

theorem idAt_eq (alike : SameProjection graph other) : graph.idAt = other.idAt := by
  funext i
  rw [idAt, idAt, alike.ids_eq]

theorem length_nodes_eq (alike : SameProjection graph other) :
    graph.nodes.length = other.nodes.length := by
  rw [← graph.length_ids, ← other.length_ids, alike.ids_eq]

theorem joins_iff (alike : SameProjection graph other) {i j : Nat} :
    (Network.ofGraph Rat graph).Joins i j ↔ (Network.ofGraph Rat other).Joins i j := by
  rw [Network.joins_ofGraph, Network.joins_ofGraph, ← alike.idAt_eq, ← alike.length_nodes_eq]
  refine and_congr_right fun hi => and_congr_right fun hj => and_congr_right fun different => ?_
  have apart := mt (idAt_inj hi hj).mp different
  rw [← callsBetween_pos, ← callsBetween_pos, alike.callsBetween_eq apart]

theorem weight_eq (alike : SameProjection graph other) (i j : Nat) :
    (Network.ofGraph Rat graph).weight i j = (Network.ofGraph Rat other).weight i j := by
  by_cases joined : (Network.ofGraph Rat graph).Joins i j
  · obtain ⟨hi, hj, different, -⟩ := Network.joins_ofGraph.mp joined
    have apart := mt (idAt_inj hi hj).mp different
    rw [Network.weight_ofGraph hi hj different, alike.callsBetween_eq apart]
    rw [alike.length_nodes_eq] at hi hj
    rw [Network.weight_ofGraph hi hj different, alike.idAt_eq]
  · rw [Network.weight_eq_zero joined, Network.weight_eq_zero (mt alike.joins_iff.mpr joined)]

/-- The network sees the projection alone: a row has each neighbour once, with the number of calls,
so rows with the same neighbours and weights are equal. -/
theorem ofGraph_eq (alike : SameProjection graph other) :
    Network.ofGraph Rat graph = Network.ofGraph Rat other := by
  apply Network.eq_of_row_eq
  · rw [size_ofGraph, size_ofGraph, alike.length_nodes_eq]
  · intro i
    apply (Network.increasing_row_ofGraph i).ext (Network.increasing_row_ofGraph i)
    · exact fun j => alike.joins_iff
    · exact alike.weight_eq i

end SameProjection

theorem map_cluster_assignClusters (graph : CallGraph) (cluster : String → Option Nat) :
    (graph.assignClusters cluster).nodes.map (fun node => (node.id, node.cluster)) =
      graph.ids.map fun id => (id, cluster id) := by
  rw [assignClusters, mapNodes, ids, List.map_map, List.map_map]
  rfl

/-- Clustering with exact arithmetic sees the undirected projection of a graph alone. Graphs with
the same projection have the same clusters, and each function is put in the same one. No cluster
depends on the order in which the rows of the network are gathered. -/
theorem cluster?_undirected {graph other : CallGraph} (alike : SameProjection graph other)
    (maxClusterSize : Nat) (resolution : Rat) (positive : 0 < resolution) :
    ∃ clusters result result',
      graph.cluster? maxClusterSize resolution = some (clusters, result) ∧
      other.cluster? maxClusterSize resolution = some (clusters, result') ∧
      result.nodes.map (fun node => (node.id, node.cluster)) =
        result'.nodes.map (fun node => (node.id, node.cluster)) ∧
      ∀ net : Network Rat, net.Rearranges (Network.ofGraph Rat other) →
        (net.partition? (max 1 maxClusterSize) resolution).map (Cluster.ofCommunities other net) =
          some clusters := by
  obtain ⟨clusters, result, answered⟩ := exists_cluster?_of_pos other maxClusterSize positive
  obtain ⟨communities, found, -, made, rfl⟩ := exists_partition?_of_cluster? answered
  have reversed : graph.cluster? maxClusterSize resolution =
      some (clusters, graph.assignClusters (Cluster.idOf? clusters)) := by
    rw [cluster?, alike.ofGraph_eq, found, Option.map_some,
      Cluster.ofCommunities_congr alike.nodes_eq rfl, ← made]
  refine ⟨clusters, _, _, reversed, answered, ?_, fun net h => ?_⟩
  · rw [map_cluster_assignClusters, map_cluster_assignClusters, alike.ids_eq]
  · rw [h.partition?_eq, found, Option.map_some, made,
      Cluster.ofCommunities_congr rfl (funext h.innerEnds_eq)]

/-- A function that calls one of two functions that call each other. -/
def forward : CallGraph :=
  let function (id : String) : FunctionNode := ⟨id, id, "turn.py", none, id, 1, 1, "", none⟩
  (empty.addFunctions (["a", "b", "c"].map function)).addCalls
    [⟨"a", "b"⟩, ⟨"b", "c"⟩, ⟨"c", "b"⟩]

/-- The same functions, with other code and offered in another order. The first is called now, and
calls itself. -/
def backward : CallGraph :=
  let function (id : String) : FunctionNode := ⟨id, id, "turn.py", none, "", 7, 9, "pass", some 4⟩
  (empty.addFunctions (["c", "a", "b"].map function)).addCalls
    [⟨"c", "b"⟩, ⟨"b", "c"⟩, ⟨"b", "a"⟩, ⟨"a", "a"⟩]

theorem cluster?_undirected_turned :
    forward.calls ≠ backward.calls ∧
    ∃ clusters result result',
      forward.cluster? 2 (1 / 2 : Rat) = some (clusters, result) ∧
      backward.cluster? 2 (1 / 2 : Rat) = some (clusters, result') ∧
      result.nodes.map (fun node => (node.id, node.cluster)) =
        result'.nodes.map (fun node => (node.id, node.cluster)) := by
  have alike : SameProjection forward backward := ⟨by decide +kernel, by decide +kernel⟩
  obtain ⟨clusters, result, result', answered, answered', same, -⟩ :=
    cluster?_undirected alike 2 (1 / 2) (by decide +kernel)
  exact ⟨by decide +kernel, clusters, result, result', answered, answered', same⟩

end CallGraph

end CallAtlas
