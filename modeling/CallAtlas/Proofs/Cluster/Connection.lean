import CallAtlas.CallGraph.Linking
import CallAtlas.Proofs.Community.Components
import CallAtlas.Proofs.Community.Projection
import Mathlib.Logic.Relation

/-!
# Clusters never join unrelated functions

Two functions are related when a path of calls leads from one to the other, each call taken in
either direction. The members of a cluster are all related to each other. This is read off the
communities: the functions related to one are its colour, linked functions have the same colour, and
dividing a community further takes members out of it and adds none.

A function that is linked with no other one is related to itself only, and so it is alone in its
cluster.
-/

namespace CallAtlas.CallGraph

variable {graph : CallGraph} {a b c : String}

/-- A path of calls, each taken in either direction, leads from one function to another. -/
def Related (graph : CallGraph) : String → String → Prop := Relation.ReflTransGen graph.Linked

theorem Related.symm (h : graph.Related a b) : graph.Related b a := by
  induction h with
  | refl => exact .refl
  | tail _ linked ih => exact .head linked.symm ih

/-- The functions related to a function. -/
def component (graph : CallGraph) (a : String) : Set String := { b | graph.Related a b }

theorem component_eq_iff : graph.component a = graph.component b ↔ graph.Related a b := by
  constructor
  · intro same
    have itself : b ∈ graph.component b := Relation.ReflTransGen.refl
    rwa [← same] at itself
  · intro related
    ext c
    exact ⟨fun h => Relation.ReflTransGen.trans related.symm h,
      fun h => Relation.ReflTransGen.trans related h⟩

/-- Neighbours in the network of a graph are in the same component. -/
theorem constant_component (α : Type) [Weight α] (graph : CallGraph) :
    (Network.ofGraph α graph).Constant fun i => graph.component (graph.idAt i) := by
  intro i j joined
  obtain ⟨-, -, -, linked⟩ := Network.joins_ofGraph.mp joined
  exact component_eq_iff.mpr (Relation.ReflTransGen.single linked.symm)

variable {α : Type} [Weight α] {maxClusterSize : Nat} {resolution : α}
variable {clusters : List Cluster} {result : CallGraph}

theorem related_of_mem_cluster
    (answered : graph.cluster? maxClusterSize resolution = some (clusters, result))
    {c : Cluster} (hc : c ∈ clusters) (ha : a ∈ c.members) (hb : b ∈ c.members) :
    graph.Related a b := by
  obtain ⟨communities, found, community, hcommunity, members⟩ := exists_community_of_mem answered hc
  obtain ⟨chosen, whole, hwhole, part, hpart, rfl⟩ :=
    Network.exists_split_of_mem_partition? found hcommunity
  have filled : whole ≠ [] := (Network.communities_sharesOut _ chosen).nonempty whole hwhole
  have inside : ∀ {x : Nat}, x ∈ part.mergeSort → x ∈ whole := fun hx =>
    (Network.split_sharesOut _ _ filled).mem_of_mem hpart
      ((List.mergeSort_perm part _).mem_iff.mp hx)
  rw [members] at ha hb
  obtain ⟨x, hx, rfl⟩ := List.mem_map.mp ha
  obtain ⟨y, hy, rfl⟩ := List.mem_map.mp hb
  exact component_eq_iff.mp (Network.colour_communities (Network.closed_ofGraph graph)
    (constant_component α graph) hwhole (inside hx) (inside hy))

/-- A function that is linked at most with itself is related to no other one. -/
theorem eq_of_related_of_alone (alone : ∀ b, graph.Linked a b → b = a)
    (related : graph.Related a b) : b = a := by
  induction related with
  | refl => rfl
  | tail _ linked ih =>
      subst ih
      exact alone _ linked

/-- A list without repetitions whose members are all the same has one member. -/
theorem eq_singleton_of_nodup {members : List String} (distinct : members.Nodup)
    (ha : a ∈ members) (only : ∀ b ∈ members, b = a) : members = [a] := by
  have repeated := List.eq_replicate_of_mem only
  rw [repeated, List.nodup_replicate] at distinct
  have filled := List.length_pos_of_mem ha
  rw [repeated, show members.length = 1 by omega, List.replicate_one]

/-- Unrelated functions are never in one cluster, whatever the comparisons of weights answer: between
any two members leads a path of calls, each taken in either direction. In particular a function
whose only calls are to itself is a cluster of its own. -/
theorem cluster?_related {α : Type} [Weight α] (graph : CallGraph) (maxClusterSize : Nat)
    (resolution : α) {clusters : List Cluster} {result : CallGraph}
    (answered : graph.cluster? maxClusterSize resolution = some (clusters, result)) :
    (∀ c ∈ clusters, ∀ a ∈ c.members, ∀ b ∈ c.members,
      Relation.ReflTransGen (fun a b => ⟨a, b⟩ ∈ graph.calls ∨ ⟨b, a⟩ ∈ graph.calls) a b) ∧
    ∀ a ∈ graph.ids,
      (∀ call ∈ graph.calls, call.caller = a ∨ call.callee = a → call.caller = call.callee) →
        ∃ c ∈ clusters, c.members = [a] := by
  refine ⟨fun c hc a ha b hb => related_of_mem_cluster answered hc ha hb, ?_⟩
  intro a known loops
  obtain ⟨communities, arranged, rfl, rfl⟩ := exists_arranged_of_cluster? answered
  have clustered := clustered_ofCommunities graph (Network.ofGraph α graph) arranged
  obtain ⟨c, hc, ha⟩ := (clustered.union a).mp known
  refine ⟨c, hc, ?_⟩
  have alone : ∀ b, graph.Linked a b → b = a := by
    rintro b (call | call)
    · exact (loops _ call (.inl rfl)).symm
    · exact loops _ call (.inr rfl)
  have only : ∀ b ∈ c.members, b = a := fun b hb =>
    eq_of_related_of_alone alone (related_of_mem_cluster answered hc ha hb)
  have distinct : c.members.Nodup := (clustered.increasing c hc).imp fun h => ne_of_lt h
  exact eq_singleton_of_nodup distinct ha only

/-- A function that calls another one, and a function that calls only itself. -/
def pairAndLoop : CallGraph :=
  let function (id : String) : FunctionNode :=
    ⟨id, id, "pair.py", none, id, 1, 1, "", none⟩
  (empty.addFunctions (["a", "b", "c"].map function)).addCalls [⟨"a", "b"⟩, ⟨"c", "c"⟩]

/-- Also where the resolution is no number, the function that calls only itself stays alone. -/
theorem cluster?_related_pairAndLoop :
    ∃ clusters result, pairAndLoop.cluster? 50 (0.0 / 0.0 : Float) = some (clusters, result) ∧
      (∀ c ∈ clusters, ∀ a ∈ c.members, ∀ b ∈ c.members,
        Relation.ReflTransGen
          (fun a b => ⟨a, b⟩ ∈ pairAndLoop.calls ∨ ⟨b, a⟩ ∈ pairAndLoop.calls) a b) ∧
      ∃ c ∈ clusters, c.members = ["c"] := by
  obtain ⟨clusters, result, answered⟩ :=
    exists_cluster?_eq pairAndLoop 50 (0.0 / 0.0 : Float) (by decide)
  obtain ⟨related, alone⟩ := cluster?_related pairAndLoop 50 _ answered
  exact ⟨clusters, result, answered, related, alone "c" (by decide +kernel) (by decide +kernel)⟩

end CallAtlas.CallGraph
