import CallAtlas.Proofs.Community.Projection
import Mathlib.Combinatorics.SimpleGraph.DegreeSum

/-!
# What cohesion counts

The cohesion of a cluster is the share of pairs of its members that are joined by a call. The pairs
are counted in the network of the graph, where an edge between two members is met once from each
end. The rows of the network are symmetric, have no loops and name each neighbour once, however
many calls go between two functions and in which directions. So the ends that are counted are the
degrees of a simple graph on the members, and there are two for every edge of it.
-/

open scoped Finset

namespace CallAtlas

namespace CallGraph

variable {graph : CallGraph} {members : List String}

instance (a b : String) : Decidable (graph.Linked a b) :=
  inferInstanceAs (Decidable (⟨a, b⟩ ∈ graph.calls ∨ ⟨b, a⟩ ∈ graph.calls))

/-- Some functions as the vertices of a simple graph. Two different ones are joined when one of them
calls the other. -/
def among (graph : CallGraph) (members : List String) : SimpleGraph { a // a ∈ members } where
  Adj a b := a ≠ b ∧ graph.Linked a b
  symm := ⟨fun _ _ joined => ⟨joined.1.symm, joined.2.symm⟩⟩
  loopless := ⟨fun _ joined => joined.1 rfl⟩

instance : DecidableRel (graph.among members).Adj := fun a b =>
  inferInstanceAs (Decidable (a ≠ b ∧ graph.Linked a b))

/-- Of a number of functions, no more can be joined than there are pairs. -/
theorem card_edgeFinset_among_le (distinct : members.Nodup) :
    #(graph.among members).edgeFinset ≤ members.length * (members.length - 1) / 2 := by
  have size : Fintype.card { a // a ∈ members } = members.length := by
    rw [Fintype.card_of_subtype members.toFinset fun _ => List.mem_toFinset,
      List.toFinset_card_of_nodup distinct]
  rw [← Nat.choose_two_right, ← size]
  exact SimpleGraph.card_edgeFinset_le_card_choose_two

end CallGraph

namespace Cluster

variable {α : Type} [Weight α] {graph : CallGraph} {members : List String}

/-- The neighbours of a member inside a list of functions, by their positions. -/
theorem mem_inner_keys {a : String} {j : Nat} :
    (Network.ofGraph α graph).Joins (graph.ids.idxOf a) j ∧ j ∈ members.map graph.ids.idxOf ↔
      ∃ b ∈ members, (b ≠ a ∧ graph.Linked a b) ∧ graph.ids.idxOf b = j := by
  rw [Network.joins_ofGraph]
  constructor
  · rintro ⟨⟨ha, hb, different, linked⟩, listed⟩
    obtain ⟨b, hmember, rfl⟩ := List.mem_map.mp listed
    rw [← CallGraph.length_ids, List.idxOf_lt_length_iff] at ha hb
    rw [CallGraph.idAt_idxOf ha, CallGraph.idAt_idxOf hb] at linked
    refine ⟨b, hmember, ⟨?_, linked⟩, rfl⟩
    rintro rfl
    exact different rfl
  · rintro ⟨b, hmember, ⟨different, linked⟩, rfl⟩
    have ha : a ∈ graph.ids := linked.symm.mem_ids
    have hb : b ∈ graph.ids := linked.mem_ids
    refine ⟨⟨?_, ?_, ?_, ?_⟩, List.mem_map_of_mem hmember⟩
    · rw [← CallGraph.length_ids]
      exact List.idxOf_lt_length_of_mem ha
    · rw [← CallGraph.length_ids]
      exact List.idxOf_lt_length_of_mem hb
    · intro same
      exact different ((List.idxOf_inj ha).mp same).symm
    · rwa [CallGraph.idAt_idxOf ha, CallGraph.idAt_idxOf hb]

/-- A member has as many ends inside the list as it has neighbours there. -/
theorem length_inner_row (a : { a // a ∈ members }) :
    (((Network.ofGraph α graph).row (graph.ids.idxOf a.1)).filter
      ((members.map graph.ids.idxOf).contains ·.1)).length = (graph.among members).degree a := by
  let inner := (Tally.keys ((Network.ofGraph α graph).row (graph.ids.idxOf a.1))).filter
    (members.map graph.ids.idxOf).contains
  -- Unknown ids share one position, but a neighbour is always known, so its position is its own.
  let position (b : { b // b ∈ members }) : Nat := graph.ids.idxOf b.1
  have distinct : inner.Nodup := (Network.increasing_row_ofGraph _).nodup_keys.filter _
  have positions : inner.toFinset = ((graph.among members).neighborFinset a).image position := by
    ext j
    rw [List.mem_toFinset, List.mem_filter, List.contains_iff_mem]
    refine mem_inner_keys.trans ?_
    simp only [Finset.mem_image, SimpleGraph.mem_neighborFinset]
    constructor
    · rintro ⟨b, listed, ⟨different, linked⟩, rfl⟩
      exact ⟨⟨b, listed⟩, ⟨fun same => different (congrArg Subtype.val same).symm, linked⟩, rfl⟩
    · rintro ⟨b, ⟨different, linked⟩, rfl⟩
      exact ⟨b.1, b.2, ⟨fun same => different (Subtype.ext same.symm), linked⟩, rfl⟩
  have apart : Set.InjOn position ((graph.among members).neighborFinset a) := by
    intro b hb c _ same
    have known : b.1 ∈ graph.ids := ((SimpleGraph.mem_neighborFinset _ _ _).mp hb).2.mem_ids
    exact Subtype.ext ((List.idxOf_inj known).mp same)
  calc
    _ = inner.length := by
      simp only [inner, Tally.keys, List.filter_map, List.length_map]
      rfl
    _ = inner.toFinset.card := (List.toFinset_card_of_nodup distinct).symm
    _ = (graph.among members).degree a := by
      rw [positions, Finset.card_image_of_injOn apart, SimpleGraph.card_neighborFinset_eq_degree]

/-- The ends inside a list of different functions are two for each pair that is joined. -/
theorem innerEnds_eq (distinct : members.Nodup) :
    innerEnds (Network.ofGraph α graph) (members.map graph.ids.idxOf) =
      2 * #(graph.among members).edgeFinset := by
  have whole : members.attach.toFinset = Finset.univ := by
    ext a
    simp
  calc
    innerEnds (Network.ofGraph α graph) (members.map graph.ids.idxOf) =
        (members.map fun a => (((Network.ofGraph α graph).row (graph.ids.idxOf a)).filter
          ((members.map graph.ids.idxOf).contains ·.1)).length).sum := by
      rw [innerEnds, List.length_flatMap, List.map_map]
      rfl
    _ = (members.attach.map fun a => (graph.among members).degree a).sum := by
      rw [← List.attach_map_val]
      exact congrArg List.sum (List.map_congr_left fun a _ => length_inner_row a)
    _ = ∑ a, (graph.among members).degree a := by
      rw [← whole, List.sum_toFinset _ (List.nodup_attach.mpr distinct)]
    _ = 2 * #(graph.among members).edgeFinset := SimpleGraph.sum_degrees_eq_twice_card_edges _

/-- Cohesion counts pairs. Two different members of a list count once when a call goes between them,
in one direction or in both. A call from a member to itself and a call that leaves the list do not
count. The number of ends is even, so nothing is lost when it is halved. -/
theorem innerEnds_double (graph : CallGraph) (members : List String) (distinct : members.Nodup) :
    let ends := innerEnds (Network.ofGraph α graph) (members.map graph.ids.idxOf)
    let pairs := #(graph.among members).edgeFinset
    let most := members.length * (members.length - 1) / 2
    ends = 2 * pairs ∧ ends / 2 = pairs ∧ pairs ≤ most ∧
      (2 ≤ members.length →
        density ends members.length = Float.ofNat pairs / Float.ofNat most) := by
  intro ends pairs most
  have double : ends = 2 * pairs := innerEnds_eq distinct
  have half : ends / 2 = pairs := by omega
  refine ⟨double, half, CallGraph.card_edgeFinset_among_le distinct, fun several => ?_⟩
  rw [density, if_neg (by omega), half]

/-- Two functions that call each other, one of them also itself, and a third that calls one of them
and a fourth. -/
def tangle : CallGraph :=
  let function (id : String) : FunctionNode :=
    ⟨id, id, "tangle.py", none, id, 1, 1, "", none⟩
  (CallGraph.empty.addFunctions (["a", "b", "c", "d"].map function)).addCalls
    [⟨"a", "b"⟩, ⟨"b", "a"⟩, ⟨"b", "b"⟩, ⟨"c", "b"⟩, ⟨"c", "d"⟩]

/-- Without the fourth there are two pairs of three. -/
theorem innerEnds_double_tangle :
    innerEnds (Network.ofGraph Rat tangle) (["c", "a", "b"].map tangle.ids.idxOf) = 4 ∧
      #(tangle.among ["c", "a", "b"]).edgeFinset = 2 := by
  have pairs : #(tangle.among ["c", "a", "b"]).edgeFinset = 2 := by decide +kernel
  obtain ⟨double, -⟩ := innerEnds_double (α := Rat) tangle ["c", "a", "b"] (by decide)
  exact ⟨double.trans (congrArg (2 * ·) pairs), pairs⟩

end Cluster

end CallAtlas
