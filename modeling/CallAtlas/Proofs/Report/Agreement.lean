import CallAtlas.Report
import CallAtlas.Proofs.Analysis.Cancellation
import CallAtlas.Proofs.CallGraph.Edits
import CallAtlas.Proofs.Cluster.Partition
import CallAtlas.Proofs.Dictionary
import Mathlib.Algebra.Ring.Nat

/-!
# Reports agree with what they report

A run hands over a graph, its clusters and a summary, and a reader gets them in several forms: the
graph and the clusters by themselves, the summary, and a report of all of them. That these forms
agree is a matter of the result alone. `Analysis.Coherent` says what the parts of a result have to
do with each other. Every run gives a coherent result, and an edit of the code of a function keeps
it so. `Report.Agrees` says what a reader may then rely on.
-/

namespace CallAtlas

namespace Analysis

variable {fs : FileSystem} {timings : Timings} {config : Config} {analysis : Analysis}

/-- The parts of a result belong together: its clusters share out the functions of its graph, the
graph has every function in its cluster, and the summary counts what is there. -/
structure Coherent (analysis : Analysis) : Prop where
  numbered : ∀ (k : Nat) (c : Cluster), analysis.clusters[k]? = some c → c.id = k
  members : (analysis.clusters.flatMap Cluster.members).Perm analysis.graph.ids
  assigned : ∀ node ∈ analysis.graph.nodes, ∀ c ∈ analysis.clusters, node.id ∈ c.members →
    node.cluster = some c.id
  nodeCount : analysis.summary.nodeCount = analysis.graph.nodes.length
  edgeCount : analysis.summary.edgeCount = analysis.graph.calls.length
  clusterCount : analysis.summary.clusterCount = analysis.clusters.length

theorem coherent_summed {graph result : CallGraph} {clusters : List Cluster}
    {maxClusterSize : Nat} {resolution : Float}
    (answered : graph.cluster? maxClusterSize resolution = some (clusters, result))
    (timings : Timings) (files : List SourceFile) (warnings : List Warning) :
    (summed timings files warnings clusters result).Coherent := by
  obtain ⟨communities, arranged, rfl, rfl⟩ := CallGraph.exists_arranged_of_cluster? answered
  have clustered := CallGraph.clustered_ofCommunities graph (Network.ofGraph Float graph) arranged
  refine ⟨clustered.numbered, ?_, ?_, rfl, rfl, rfl⟩
  · show List.Perm _ (CallGraph.assignClusters _ _).ids
    rw [CallGraph.assignClusters, CallGraph.ids_mapNodes, List.flatMap_def]
    exact (Cluster.members_sharesOut graph _ arranged).perm
  · intro node hnode c hc listed
    obtain ⟨k, place⟩ := List.mem_iff_getElem?.mp hc
    rw [clustered.numbered k c place]
    exact (clustered.assigned node hnode k).mpr ⟨c, place, listed⟩

/-- Every run that gives a result gives a coherent one. -/
theorem coherent_of_unwatched (output : unwatched fs timings config = some (.ok analysis)) :
    analysis.Coherent := by
  cases h : found fs config false with
  | error e =>
      rw [unwatched_of_unfound h] at output
      cases output
  | ok sources =>
      rw [unwatched_of_found h] at output
      obtain ⟨_, output, same⟩ := Option.map_eq_some_iff.mp output
      cases same
      obtain ⟨clusters, graph, answered, rfl⟩ := exists_cluster?_of_concluded output
      exact coherent_summed answered _ _ _

/-- New code for functions leaves them in their clusters. -/
theorem Coherent.recoded {edited : Analysis} (h : analysis.Coherent)
    {edits : List (String × String)} (graph : analysis.graph.Recoded edits edited.graph)
    (clusters : edited.clusters = analysis.clusters) (summary : edited.summary = analysis.summary) :
    edited.Coherent := by
  refine ⟨clusters ▸ h.numbered, ?_, ?_, ?_, ?_, ?_⟩
  · rw [clusters, graph.ids]
    exact h.members
  · intro node hnode c hc listed
    rw [graph.nodes] at hnode
    obtain ⟨original, horiginal, rfl⟩ := List.mem_map.mp hnode
    exact h.assigned original horiginal c (clusters ▸ hc) listed
  · rw [summary, graph.nodes, List.length_map]
    exact h.nodeCount
  · rw [summary, graph.calls]
    exact h.edgeCount
  · rw [summary, clusters]
    exact h.clusterCount

end Analysis

namespace ClusterView

section Numbered

variable {clusters : List Cluster}
variable (numbered : ∀ (k : Nat) (c : Cluster), clusters[k]? = some c → c.id = k)

include numbered

/-- Clusters that are numbered by their places are shown in their order. -/
theorem ofClusters_eq_map : ofClusters clusters = clusters.map ofCluster := by
  apply List.mergeSort_of_pairwise
  rw [List.pairwise_map, List.pairwise_iff_getElem]
  intro i j hi hj hij
  have first := numbered i _ (List.getElem?_eq_getElem hi)
  have second := numbered j _ (List.getElem?_eq_getElem hj)
  simp only [ofCluster, first, second, decide_eq_true_eq]
  exact hij.le

theorem map_id_ofClusters :
    (ofClusters clusters).map ClusterView.id = List.range (ofClusters clusters).length := by
  rw [ofClusters_eq_map numbered, List.map_map]
  refine List.ext_getElem (by simp) fun k hk _ => ?_
  have hk : k < clusters.length := by simpa using hk
  simpa [ofCluster] using numbered k _ (List.getElem?_eq_getElem hk)

end Numbered

theorem sum_nodeCount_ofClusters (clusters : List Cluster) :
    ((ofClusters clusters).map nodeCount).sum = (clusters.flatMap Cluster.members).length :=
  calc
    ((ofClusters clusters).map nodeCount).sum = ((clusters.map ofCluster).map nodeCount).sum :=
      ((List.mergeSort_perm _ _).map nodeCount).sum_nat
    _ = (clusters.map fun c => c.members.length).sum := by
      rw [List.map_map]
      rfl
    _ = (clusters.flatMap Cluster.members).length := List.length_flatMap.symm

theorem mem_members_ofCluster {c : Cluster} {id : String} :
    id ∈ (ofCluster c).members ↔ id ∈ c.members :=
  List.mem_mergeSort

end ClusterView

namespace Report

/-- A report agrees with the graph, the clusters and the summary that a reader is given beside it,
and these agree with each other. -/
structure Agrees (graph : GraphView) (clusters : List ClusterView) (summary : Summary)
    (report : Report) : Prop where
  nodes_eq : report.nodes = graph.nodes
  links_eq : report.links = graph.links
  clusters_eq : report.clusters = clusters
  nodes_increasing : graph.nodes.Pairwise fun a b => a.id < b.id
  links_increasing : graph.links.Pairwise fun a b =>
    a.caller < b.caller ∨ a.caller = b.caller ∧ a.callee < b.callee
  closed : ∀ link ∈ graph.links,
    link.caller ∈ graph.nodes.map FunctionNode.id ∧ link.callee ∈ graph.nodes.map FunctionNode.id
  /-- No two clusters have the same number. -/
  numbered : clusters.map ClusterView.id = List.range clusters.length
  assigned : ∀ node ∈ graph.nodes, ∃ cluster ∈ clusters,
    node.cluster = some cluster.id ∧ node.id ∈ cluster.members
  members : ∀ cluster ∈ clusters, ∀ id ∈ cluster.members, ∃ node ∈ graph.nodes,
    node.id = id ∧ node.cluster = some cluster.id
  nodeCount : (clusters.map ClusterView.nodeCount).sum = graph.nodes.length
  functions : report.stats.get? "functions" = some (encode graph.nodes.length)
  calls : report.stats.get? "calls" = some (encode graph.links.length)
  groups : report.stats.get? "clusters" = some (encode clusters.length)
  summary_nodeCount : summary.nodeCount = graph.nodes.length
  summary_edgeCount : summary.edgeCount = graph.links.length
  summary_clusterCount : summary.clusterCount = clusters.length

variable {analysis : Analysis}

theorem get?_statsOf (graph : CallGraph) (clusters : List Cluster) (summary : Summary) :
    let stats := statsOf graph clusters summary
    stats.get? "functions" = some (encode graph.nodes.length) ∧
      stats.get? "calls" = some (encode graph.calls.length) ∧
      stats.get? "clusters" = some (encode clusters.length) := by
  rw [← CallGraph.nodeCount, ← CallGraph.edgeCount]
  refine ⟨?_, ?_, ?_⟩ <;> exact Dictionary.get?_ofList (by simp) (by simp)

/-- The report of a coherent result agrees with its parts. -/
theorem agrees_make (h : analysis.Coherent) (fs : FileSystem) (stamp : Stamp) (config : Config) :
    (make fs stamp config analysis).Agrees analysis.graph.view
      (ClusterView.ofClusters analysis.clusters) analysis.summary := by
  have views := ClusterView.ofClusters_eq_map h.numbered
  have length : (ClusterView.ofClusters analysis.clusters).length = analysis.clusters.length := by
    rw [views, List.length_map]
  obtain ⟨functions, calls, groups⟩ :=
    get?_statsOf analysis.graph analysis.clusters analysis.summary
  refine
    { nodes_eq := rfl
      links_eq := rfl
      clusters_eq := rfl
      nodes_increasing := List.pairwise_map.mp analysis.graph.ids_increasing
      links_increasing := analysis.graph.calls_increasing.imp Call.compare_eq_lt_iff.mp
      closed := analysis.graph.closed
      numbered := ClusterView.map_id_ofClusters h.numbered
      assigned := ?_
      members := ?_
      nodeCount := ?_
      functions := functions
      calls := calls
      groups := length ▸ groups
      summary_nodeCount := h.nodeCount
      summary_edgeCount := h.edgeCount
      summary_clusterCount := h.clusterCount.trans length.symm }
  · intro node hnode
    -- The members of all clusters are the ids of the graph, so some cluster lists the function.
    have listed : node.id ∈ analysis.clusters.flatMap Cluster.members :=
      h.members.mem_iff.mpr (List.mem_map_of_mem hnode)
    obtain ⟨c, hc, member⟩ := List.mem_flatMap.mp listed
    refine ⟨.ofCluster c, views ▸ List.mem_map_of_mem hc, h.assigned node hnode c hc member, ?_⟩
    exact ClusterView.mem_members_ofCluster.mpr member
  · intro view hview id hid
    rw [views] at hview
    obtain ⟨c, hc, rfl⟩ := List.mem_map.mp hview
    have member : id ∈ c.members := ClusterView.mem_members_ofCluster.mp hid
    have known : id ∈ analysis.graph.ids :=
      h.members.mem_iff.mp (List.mem_flatMap.mpr ⟨c, hc, member⟩)
    obtain ⟨node, hnode, rfl⟩ := List.mem_map.mp known
    exact ⟨node, hnode, rfl, h.assigned node hnode c hc member⟩
  · rw [ClusterView.sum_nodeCount_ofClusters, h.members.length_eq]
    exact analysis.graph.length_ids

end Report

end CallAtlas
