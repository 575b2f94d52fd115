import CallAtlas.Cluster
import CallAtlas.Proofs.CallGraph.Construction
import CallAtlas.Proofs.Community.Coverage
import Mathlib.Data.List.GetD
import Mathlib.Data.String.Basic

/-!
# Clusters partition the functions of a graph

The communities of a network are lists of positions. Here they are read as clusters of functions:
the members of a cluster are the ids at its positions, in order, and its number is its own place in
the list. What is known of communities then holds of clusters, and looking up the cluster of a
function finds the one that lists it.

`CallGraph.Clustered` gathers what a reader of clusters may rely on. It holds for every weight
type, so no law of the comparisons is used.
-/

namespace CallAtlas

namespace CallGraph

/-- The id at a position. -/
def idAt (graph : CallGraph) (i : Nat) : String := graph.ids.getD i ""

theorem idAt_lt_idAt (graph : CallGraph) {i j : Nat} (hij : i < j) (hj : j < graph.nodes.length) :
    graph.idAt i < graph.idAt j := by
  have hi : i < graph.ids.length := by simpa using hij.trans hj
  have hj : j < graph.ids.length := by simpa using hj
  have increasing := List.pairwise_iff_getElem.mp graph.ids_increasing i j hi hj hij
  rwa [idAt, idAt, List.getD_eq_getElem _ _ hi, List.getD_eq_getElem _ _ hj]

theorem map_idAt_range (graph : CallGraph) :
    (List.range graph.nodes.length).map graph.idAt = graph.ids := by
  rw [← graph.length_ids]
  exact Network.map_getD_range graph.ids ""

end CallGraph

namespace Cluster

@[simp] theorem length_distinctLabels (shared : String → Bool) (used : List String)
    (clusters : List (List FunctionNode)) :
    (distinctLabels shared used clusters).length = clusters.length := by
  induction clusters generalizing used with
  | nil => rfl
  | cons members rest ih => simp [distinctLabels, ih]

section Communities

variable {α : Type} (graph : CallGraph) (net : Network α) (communities : List (List Nat))

@[simp] theorem length_ofCommunities :
    (ofCommunities graph net communities).length = communities.length := by
  simp [ofCommunities, labels]

/-- The number of a cluster is its place. -/
theorem id_ofCommunities {k : Nat} {c : Cluster}
    (h : (ofCommunities graph net communities)[k]? = some c) : c.id = k := by
  obtain ⟨hk, rfl⟩ := List.getElem?_eq_some_iff.mp h
  simp [ofCommunities]

/-- The members of a cluster are the ids at the positions of its community. -/
theorem map_members_ofCommunities
    (known : ∀ community ∈ communities, ∀ i ∈ community, i < graph.nodes.length) :
    (ofCommunities graph net communities).map members =
      communities.map (List.map graph.idAt) := by
  refine List.ext_getElem (by simp) fun k _ hk => ?_
  have hk : k < communities.length := by simpa using hk
  have named : ∀ i ∈ communities[k], graph.nodes[i]?.map FunctionNode.id = some (graph.idAt i) := by
    intro i hi
    have := known _ (List.getElem_mem hk) i hi
    simp [CallGraph.idAt, CallGraph.ids, this]
  simp only [ofCommunities, List.getElem_map, List.getElem_zipIdx, List.getElem_zip]
  rw [List.map_filterMap, List.filterMap_congr named, List.filterMap_eq_map']

end Communities

/-- The number found for a function is that of the cluster that lists it, when clusters are numbered
by place and have no member in common. -/
theorem idOf?_eq_some_iff {clusters : List Cluster} {member : String} {k : Nat}
    (numbered : ∀ (k : Nat) (c : Cluster), clusters[k]? = some c → c.id = k)
    (disjoint : clusters.Pairwise fun a b => a.members.Disjoint b.members) :
    idOf? clusters member = some k ↔ ∃ c, clusters[k]? = some c ∧ member ∈ c.members := by
  constructor
  · intro found
    obtain ⟨c, hfind, rfl⟩ := Option.map_eq_some_iff.mp found
    obtain ⟨j, hj⟩ := List.mem_iff_getElem?.mp (List.mem_of_find?_eq_some hfind)
    refine ⟨c, ?_, by simpa using List.find?_some hfind⟩
    rw [numbered j c hj]
    exact hj
  · rintro ⟨c, hc, hmember⟩
    -- The search stops at the first cluster that lists the function, and there is only one.
    cases hfind : clusters.find? (·.members.contains member) with
    | none =>
        have missing := List.find?_eq_none.mp hfind c (List.mem_of_getElem? hc)
        exact absurd (by simpa using hmember) missing
    | some d =>
        obtain ⟨j, hj⟩ := List.mem_iff_getElem?.mp (List.mem_of_find?_eq_some hfind)
        have listed : member ∈ d.members := by simpa using List.find?_some hfind
        have same : j = k := by
          obtain ⟨hjlt, rfl⟩ := List.getElem?_eq_some_iff.mp hj
          obtain ⟨hklt, rfl⟩ := List.getElem?_eq_some_iff.mp hc
          have apart := List.pairwise_iff_getElem.mp disjoint
          rcases Nat.lt_trichotomy j k with hlt | heq | hgt
          · exact absurd hmember (apart j k hjlt hklt hlt listed)
          · exact heq
          · exact absurd listed (apart k j hklt hjlt hgt hmember)
        rw [idOf?, hfind, Option.map_some, numbered j d hj, same]

/-- A cluster comes before another when it is larger, or of the same size with a smaller member than
all of the other's. -/
def Outranks (a b : Cluster) : Prop :=
  b.members.length < a.members.length ∨
    a.members.length = b.members.length ∧ ∃ x ∈ a.members, ∀ y ∈ b.members, x < y

section Arranged

variable {α : Type} (graph : CallGraph) (net : Network α) {communities : List (List Nat)}
variable (arranged : Network.Arranged graph.nodes.length communities)

include arranged

theorem lt_length_of_mem {community : List Nat} (hcommunity : community ∈ communities) {i : Nat}
    (hi : i ∈ community) : i < graph.nodes.length :=
  List.mem_range.mp (arranged.shares.mem_of_mem hcommunity hi)

theorem map_members_of_arranged :
    (ofCommunities graph net communities).map members = communities.map (List.map graph.idAt) :=
  map_members_ofCommunities graph net communities fun _ hcommunity _ hi =>
    lt_length_of_mem graph arranged hcommunity hi

/-- The members of the clusters share out the functions of the graph. -/
theorem members_sharesOut :
    SharesOut graph.ids ((ofCommunities graph net communities).map members) := by
  rw [map_members_of_arranged graph net arranged, ← graph.map_idAt_range]
  exact arranged.shares.map graph.idAt

theorem members_increasing :
    ∀ c ∈ ofCommunities graph net communities, c.members.Pairwise (· < ·) := by
  intro c hc
  have hmembers : c.members ∈ (ofCommunities graph net communities).map members :=
    List.mem_map_of_mem hc
  rw [map_members_of_arranged graph net arranged] at hmembers
  obtain ⟨community, hcommunity, hids⟩ := List.mem_map.mp hmembers
  rw [← hids, List.pairwise_map]
  refine (arranged.increasing community hcommunity).imp_of_mem fun {i j} _ hj hij => ?_
  exact graph.idAt_lt_idAt hij (lt_length_of_mem graph arranged hcommunity hj)

/-- Positions are in the order of ids, so the ranks of communities are those of clusters. Two heads
are never equal, since communities have no node in common. -/
theorem outranks_of_arranged : (ofCommunities graph net communities).Pairwise Outranks := by
  have ranked : (communities.map (List.map graph.idAt)).Pairwise fun a b =>
      b.length < a.length ∨ a.length = b.length ∧ ∃ x ∈ a, ∀ y ∈ b, x < y := by
    refine List.pairwise_map.mpr ?_
    have apart := arranged.shares.disjoint List.nodup_range
    refine (arranged.ranked.and apart).imp_of_mem fun {a b} ha hb hab => ?_
    obtain ⟨precedes, disjoint⟩ := hab
    simp only [Network.precedes, Bool.or_eq_true, decide_eq_true_eq, Bool.and_eq_true,
      beq_iff_eq] at precedes
    simp only [List.length_map]
    rcases precedes with larger | ⟨sizes, heads⟩
    · exact Or.inl larger
    refine Or.inr ⟨sizes, ?_⟩
    -- Increasing communities of one size are told apart by their first members.
    obtain ⟨i, a, rfl⟩ := List.exists_cons_of_ne_nil (arranged.shares.nonempty a ha)
    obtain ⟨j, b, rfl⟩ := List.exists_cons_of_ne_nil (arranged.shares.nonempty b hb)
    have hij : i < j := by
      have hne : i ≠ j := fun h => disjoint List.mem_cons_self (h ▸ List.mem_cons_self)
      simp only [List.head?_cons, Option.getD_some] at heads
      omega
    refine ⟨graph.idAt i, List.mem_map_of_mem List.mem_cons_self, ?_⟩
    intro y hy
    obtain ⟨m, hm, rfl⟩ := List.mem_map.mp hy
    refine graph.idAt_lt_idAt ?_ (lt_length_of_mem graph arranged hb hm)
    rcases List.mem_cons.mp hm with rfl | hm
    · exact hij
    · exact hij.trans ((List.pairwise_cons.mp (arranged.increasing _ hb)).1 m hm)
  rw [← map_members_of_arranged graph net arranged, List.pairwise_map] at ranked
  exact ranked

end Arranged

end Cluster

namespace CallGraph

/-- What a reader of clusters may rely on: they partition the functions of a graph, stand in the
order of their ranks and are numbered by it, and `result` is the graph with every function in its
cluster and otherwise unchanged. -/
structure Clustered (graph : CallGraph) (clusters : List Cluster) (result : CallGraph) :
    Prop where
  nonempty : ∀ c ∈ clusters, c.members ≠ []
  increasing : ∀ c ∈ clusters, c.members.Pairwise (· < ·)
  disjoint : clusters.Pairwise fun a b => a.members.Disjoint b.members
  union : ∀ id, id ∈ graph.ids ↔ ∃ c ∈ clusters, id ∈ c.members
  numbered : ∀ (k : Nat) (c : Cluster), clusters[k]? = some c → c.id = k
  ranked : clusters.Pairwise Cluster.Outranks
  assigned : ∀ node ∈ result.nodes, ∀ k : Nat,
    node.cluster = some k ↔ ∃ c, clusters[k]? = some c ∧ node.id ∈ c.members
  calls : result.calls = graph.calls
  nodes : result.nodes.map (fun node => { node with cluster := none }) =
    graph.nodes.map fun node => { node with cluster := none }

@[simp] theorem size_ofGraph (α : Type) [Weight α] (graph : CallGraph) :
    (Network.ofGraph α graph).size = graph.nodes.length := by
  simp [Network.ofGraph, ids]

/-- Communities that are arranged give clusters that partition the graph. -/
theorem clustered_ofCommunities {α : Type} (graph : CallGraph) (net : Network α)
    {communities : List (List Nat)}
    (arranged : Network.Arranged graph.nodes.length communities) :
    graph.Clustered (Cluster.ofCommunities graph net communities)
      (graph.assignClusters (Cluster.idOf? (Cluster.ofCommunities graph net communities))) := by
  have shares := Cluster.members_sharesOut graph net arranged
  have numbered := fun (k : Nat) (c : Cluster) hc =>
    Cluster.id_ofCommunities graph net communities (k := k) (c := c) hc
  have disjoint : (Cluster.ofCommunities graph net communities).Pairwise
      fun a b => a.members.Disjoint b.members :=
    List.pairwise_map.mp (shares.disjoint graph.ids_nodup)
  refine ⟨?_, Cluster.members_increasing graph net arranged, disjoint, ?_, numbered,
    Cluster.outranks_of_arranged graph net arranged, ?_, rfl, ?_⟩
  · exact fun c hc => shares.nonempty _ (List.mem_map_of_mem hc)
  · intro id
    rw [← shares.perm.mem_iff]
    simp [List.mem_flatten]
  · intro node hnode k
    obtain ⟨original, _, rfl⟩ := List.mem_map.mp hnode
    exact Cluster.idOf?_eq_some_iff numbered disjoint
  · simp [assignClusters, mapNodes, List.map_map, Function.comp_def]

/-- What an answer of the clustering is made of. -/
theorem exists_partition?_of_cluster? {α : Type} [Weight α] {graph : CallGraph}
    {maxClusterSize : Nat} {resolution : α} {clusters : List Cluster} {result : CallGraph}
    (answered : graph.cluster? maxClusterSize resolution = some (clusters, result)) :
    ∃ communities,
      (Network.ofGraph α graph).partition? (max 1 maxClusterSize) resolution = some communities ∧
      Network.Arranged graph.nodes.length communities ∧
      clusters = Cluster.ofCommunities graph (Network.ofGraph α graph) communities ∧
      result = graph.assignClusters (Cluster.idOf? clusters) := by
  obtain ⟨communities, found, heq⟩ := Option.map_eq_some_iff.mp answered
  obtain ⟨rfl, rfl⟩ := Prod.mk.inj heq
  have arranged := Network.partition?_arranged found
  rw [size_ofGraph] at arranged
  exact ⟨communities, found, arranged, rfl, rfl⟩

theorem exists_arranged_of_cluster? {α : Type} [Weight α] {graph : CallGraph}
    {maxClusterSize : Nat} {resolution : α} {clusters : List Cluster} {result : CallGraph}
    (answered : graph.cluster? maxClusterSize resolution = some (clusters, result)) :
    ∃ communities, Network.Arranged graph.nodes.length communities ∧
      clusters = Cluster.ofCommunities graph (Network.ofGraph α graph) communities ∧
      result = graph.assignClusters (Cluster.idOf? clusters) := by
  obtain ⟨communities, -, made⟩ := exists_partition?_of_cluster? answered
  exact ⟨communities, made⟩

/-- The members of a cluster are the ids at the positions of a community. -/
theorem exists_community_of_mem {α : Type} [Weight α] {graph : CallGraph}
    {maxClusterSize : Nat} {resolution : α} {clusters : List Cluster} {result : CallGraph}
    (answered : graph.cluster? maxClusterSize resolution = some (clusters, result))
    {c : Cluster} (hc : c ∈ clusters) :
    ∃ communities,
      (Network.ofGraph α graph).partition? (max 1 maxClusterSize) resolution = some communities ∧
      ∃ community ∈ communities, c.members = community.map graph.idAt := by
  obtain ⟨communities, found, arranged, rfl, -⟩ := exists_partition?_of_cluster? answered
  refine ⟨communities, found, ?_⟩
  have hmembers := List.mem_map_of_mem (f := Cluster.members) hc
  rw [Cluster.map_members_of_arranged graph _ arranged] at hmembers
  obtain ⟨community, hcommunity, same⟩ := List.mem_map.mp hmembers
  exact ⟨community, hcommunity, same.symm⟩

/-- Whenever clustering answers, its clusters partition the graph: for every weight type, and so
whatever the comparisons of weights answer, for every resolution and for every bound on the size. -/
theorem cluster?_partitions {α : Type} [Weight α] (graph : CallGraph) (maxClusterSize : Nat)
    (resolution : α) {clusters : List Cluster} {result : CallGraph}
    (answered : graph.cluster? maxClusterSize resolution = some (clusters, result)) :
    graph.Clustered clusters result := by
  obtain ⟨communities, arranged, rfl, rfl⟩ := exists_arranged_of_cluster? answered
  exact clustered_ofCommunities graph _ arranged

/-- Clustering answers when tuning does. -/
theorem exists_cluster?_of_tune {α : Type} [Weight α] {graph : CallGraph} {maxClusterSize : Nat}
    {resolution : α} {tuned : List (List Nat)}
    (h : (Network.ofGraph α graph).tune (max 1 maxClusterSize) (Weight.doublings resolution)
      resolution = some tuned) :
    ∃ clusters result, graph.cluster? maxClusterSize resolution = some (clusters, result) :=
  ⟨_, _, by rw [cluster?, Network.partition?, h, Option.map_some, Option.map_some]⟩

/-- Clustering answers at once when the resolution is not below ten. -/
theorem exists_cluster?_eq {α : Type} [Weight α] (graph : CallGraph) (maxClusterSize : Nat)
    (resolution : α) (high : Weight.lt resolution (Weight.ofNat 10) = false) :
    ∃ clusters result, graph.cluster? maxClusterSize resolution = some (clusters, result) := by
  have tuned : ∀ (net : Network α) (limit doublings : Nat),
      net.tune limit doublings resolution = some (net.communities resolution) := by
    intro net limit doublings
    cases doublings <;> simp [Network.tune, Network.needsDoubling, high]
  exact exists_cluster?_of_tune (tuned _ _ _)

/-- Two functions that call each other, of which one is in a cluster of an earlier run. -/
def mutualCalls : CallGraph where
  nodes :=
    [⟨"f.py::ping()", "ping", "f.py", none, "def ping()", 1, 2, "", some 7⟩,
      ⟨"f.py::pong()", "pong", "f.py", none, "def pong()", 4, 5, "", none⟩]
  calls := [⟨"f.py::ping()", "f.py::pong()"⟩, ⟨"f.py::pong()", "f.py::ping()"⟩]
  nodes_increasing := by simp [Ordered.Increasing, Ordered.Before]; decide
  calls_increasing := by simp [Ordered.Increasing, Ordered.Before]; decide
  closed := by simp

/-- Also where the resolution is no number and no size is allowed, there are clusters. -/
theorem cluster?_partitions_mutualCalls :
    ∃ clusters result, mutualCalls.cluster? 0 (0.0 / 0.0 : Float) = some (clusters, result) ∧
      mutualCalls.Clustered clusters result := by
  obtain ⟨clusters, result, answered⟩ :=
    exists_cluster?_eq mutualCalls 0 (0.0 / 0.0 : Float) (by decide)
  exact ⟨clusters, result, answered, cluster?_partitions mutualCalls 0 _ answered⟩

end CallGraph

end CallAtlas
