import CallAtlas.Analysis
import CallAtlas.Json.Codec

/-!
# Reports

What is shown of a run: its functions and calls, its clusters, figures about it, and where and when
it was made. A graph is shown by its functions and calls in their order, a cluster with its members
in order.
-/

namespace CallAtlas

/-- The functions and calls of a graph, for a reader. -/
structure GraphView where
  nodes : List FunctionNode := []
  links : List Call := []
  deriving DecidableEq, Repr

/-- What a reader sees of a graph. -/
def CallGraph.view (graph : CallGraph) : GraphView := ⟨graph.nodes, graph.calls⟩

/-- A cluster, for a reader. -/
structure ClusterView where
  id : Nat
  label : String
  members : List String
  nodeCount : Nat
  cohesion : Float

namespace ClusterView

/-- What a reader sees of a cluster. -/
def ofCluster (cluster : Cluster) : ClusterView :=
  { id := cluster.id, label := cluster.label, cohesion := cluster.cohesion
    members := cluster.members.mergeSort (· ≤ ·)
    nodeCount := cluster.members.length }

/-- What a reader sees of some clusters, in the order of their numbers. -/
def ofClusters (clusters : List Cluster) : List ClusterView :=
  (clusters.map ofCluster).mergeSort (·.id ≤ ·.id)

end ClusterView

/-- When a report is made, and of which state of the sources. -/
structure Stamp where
  time : String
  commit : Option String := none

/-- All that is written about a run. -/
structure Report where
  version : String
  metadata : Dictionary Json
  stats : Dictionary Json
  nodes : List FunctionNode
  links : List Call
  clusters : List ClusterView

namespace Report

/-- The version of the form of reports. -/
def formVersion : String := "1.0"

/-- The version of the program. -/
def programVersion : String := "0.3.0"

/-- The path of the root of a run: in full, if it leads somewhere, and otherwise as given. -/
def rootPath (fs : FileSystem) (config : Config) : String :=
  (fs.canonical? config.root).getD config.root

/-- The name of the root of a run, empty when its path ends in none. -/
def rootName (fs : FileSystem) (config : Config) : String :=
  ((Path.fileName? (rootPath fs config).toList).map String.ofList).getD ""

/-- Where, when and how a run was made. -/
def metadataOf (fs : FileSystem) (stamp : Stamp) (config : Config) (summary : Summary) :
    Dictionary Json :=
  .ofList
    [("root_name", encode (rootName fs config)),
      ("root_path", encode (rootPath fs config)),
      ("language", encode config.language),
      ("analysed_at", encode stamp.time),
      ("codearc_version", encode programVersion),
      ("commit_hash", Codec.encodeOption stamp.commit),
      ("analysis_duration_ms", encode summary.durationMs),
      ("phase_timings", encode summary.phaseTimings)]

/-- The figures of a run. -/
def statsOf (graph : CallGraph) (clusters : List Cluster) (summary : Summary) : Dictionary Json :=
  .ofList
    [("files", encode summary.fileCount),
      ("functions", encode graph.nodeCount),
      ("calls", encode graph.edgeCount),
      ("clusters", encode clusters.length),
      ("warnings", encode summary.warnings.length)]

/-- The report of a run. -/
def make (fs : FileSystem) (stamp : Stamp) (config : Config) (analysis : Analysis) : Report where
  version := formVersion
  metadata := metadataOf fs stamp config analysis.summary
  stats := statsOf analysis.graph analysis.clusters analysis.summary
  nodes := analysis.graph.view.nodes
  links := analysis.graph.view.links
  clusters := ClusterView.ofClusters analysis.clusters

/-- Where a report is written when no place is named: in the directory one is in, under the name
of the root. -/
def defaultPath (fs : FileSystem) (root : String) : String :=
  (fs.canonicalName? root).getD "codearc" ++ ".codearc.json"

end Report

end CallAtlas
