import CallAtlas.Cluster.Label
import CallAtlas.Community.Partition

/-!
# Clusters

A cluster is a community of a call graph with a label and a cohesion: the share of pairs of its
members that are joined by a call, rounded to three places.
-/

namespace CallAtlas

/-- A group of functions that belong together. -/
structure Cluster where
  id : Nat
  label : String
  /-- The ids of its functions, in order. -/
  members : List String
  cohesion : Float

namespace Cluster

/-- The number of ends, inside a community, of the edges at its members. Each edge between two
members has two. -/
def innerEnds {α : Type} (net : Network α) (members : List Nat) : Nat :=
  (members.flatMap fun i => (net.rows.getD i []).filter (members.contains ·.1)).length

/-- The share of pairs of members that are joined, zero when there is no pair. -/
def density (ends size : Nat) : Float :=
  if size < 2 then 0.0
  else Float.ofNat (ends / 2) / Float.ofNat (size * (size - 1) / 2)

/-- A number rounded to three places, halves away from zero. -/
def roundThousandths (x : Float) : Float := (x * 1000.0).round / 1000.0

/-- The clusters of a graph whose communities are given by positions of functions. -/
def ofCommunities {α : Type} (graph : CallGraph) (net : Network α)
    (communities : List (List Nat)) : List Cluster :=
  let members := communities.map (·.filterMap (graph.nodes[·]?))
  let labels := labels members
  (communities.zip (members.zip labels)).zipIdx.map fun ((community, nodes, label), id) =>
    { id, label
      members := nodes.map FunctionNode.id
      cohesion := roundThousandths (density (innerEnds net community) community.length) }

/-- The number of the cluster that lists a function. -/
def idOf? (clusters : List Cluster) (member : String) : Option Nat :=
  (clusters.find? (·.members.contains member)).map Cluster.id

end Cluster

namespace CallGraph

/-- The clusters of a graph at a resolution, and the graph with every function in its cluster.
There are none when tuning the resolution never ends. -/
def cluster? {α : Type} [Weight α] (graph : CallGraph) (maxClusterSize : Nat) (resolution : α) :
    Option (List Cluster × CallGraph) :=
  let net := Network.ofGraph α graph
  (net.partition? (max 1 maxClusterSize) resolution).map fun communities =>
    let clusters := Cluster.ofCommunities graph net communities
    (clusters, graph.assignClusters (Cluster.idOf? clusters))

end CallGraph

end CallAtlas
