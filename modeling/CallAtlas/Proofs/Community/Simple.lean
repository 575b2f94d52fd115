import CallAtlas.Proofs.Community.Projection

/-!
# Simple networks

A network is simple when it is undirected, joins no node with itself and has positive weights
between neighbours. The network of a call graph is simple: the weight between two functions is the
number of calls between them, whichever way they go. The part of a simple network between some of
its nodes is made of the edges from smaller to larger nodes among them. It is simple again, since it
has the same weights between them.
-/

namespace CallAtlas

namespace Network

/-- An undirected network without loops and with positive weights. -/
structure Simple (net : Network Rat) : Prop extends net.Undirected where
  loopless : ∀ i, ¬ net.Joins i i
  positive : ∀ i j, net.Joins i j → 0 < net.weight i j

/-- Whether some node has a neighbour. -/
def hasEdge {α : Type} (net : Network α) : Bool := net.rows.any (!·.isEmpty)

theorem hasEdge_iff {α : Type} {net : Network α} :
    net.hasEdge = true ↔ ∃ i j, net.Joins i j := by
  rw [hasEdge, Array.any_eq_true]
  constructor
  · rintro ⟨i, hi, filled⟩
    obtain ⟨entry, hentry⟩ := List.exists_mem_of_ne_nil net.rows[i] (by simpa using filled)
    refine ⟨i, entry.1, joins_of_mem ?_⟩
    simpa [row, hi] using hentry
  · rintro ⟨i, j, joined⟩
    have hi : i < net.rows.size := lt_size_of_joins joined
    refine ⟨i, hi, ?_⟩
    obtain ⟨entry, hentry, -⟩ := List.mem_map.mp joined
    have listed : entry ∈ net.rows[i] := by simpa [row, hi] using hentry
    simpa using List.ne_nil_of_mem listed

section Restrict

variable {α : Type} {net : Network α} {nodes : List Nat} {i x : Nat}

theorem idxOf_eq_iff (distinct : nodes.Nodup) (hx : x ∈ nodes) :
    nodes.idxOf x = i ↔ nodes[i]? = some x := by
  constructor
  · rintro rfl
    exact List.getElem?_idxOf hx
  · intro here
    obtain ⟨hi, rfl⟩ := List.getElem?_eq_some_iff.mp here
    exact distinct.idxOf_getElem i hi

/-- The position of a node among others is where it stands, when none is repeated. -/
theorem idxOf?_eq_some_iff (distinct : nodes.Nodup) :
    nodes.idxOf? x = some i ↔ nodes[i]? = some x := by
  rw [List.idxOf?_eq_some_iff, List.getElem?_eq_some_iff]
  constructor
  · rintro ⟨hi, here, -⟩
    exact ⟨hi, here⟩
  · rintro ⟨hi, here⟩
    refine ⟨hi, here, fun k hk again => ?_⟩
    have same := (distinct.getElem_inj_iff).mp (again.trans here.symm)
    omega

/-- The edges among some nodes come from entries for larger nodes among them. -/
theorem mem_edgesAmong {edge : Edge α} :
    edge ∈ net.edgesAmong nodes ↔
      ∃ x ∈ nodes, edge.one = nodes.idxOf x ∧
        ∃ y, x < y ∧ nodes.idxOf? y = some edge.other ∧ (y, edge.weight) ∈ net.row x := by
  rw [edgesAmong, List.mem_flatMap]
  refine exists_congr fun x => and_congr_right fun _ => ?_
  rw [edgesFrom, List.mem_filterMap]
  constructor
  · rintro ⟨⟨y, weight⟩, listed, kept⟩
    obtain ⟨above, kept⟩ := Option.ite_none_right_eq_some.mp kept
    obtain ⟨j, found, rfl⟩ := Option.map_eq_some_iff.mp kept
    exact ⟨rfl, y, above, found, listed⟩
  · rintro ⟨one, y, above, found, listed⟩
    refine ⟨_, listed, ?_⟩
    simp only [if_pos above, found, Option.map_some, ← one]

theorem exists_mem_edgesAmong (distinct : nodes.Nodup) {j y : Nat} (hi : nodes[i]? = some x)
    (hj : nodes[j]? = some y) (before : x < y) (joined : net.Joins x y) :
    ∃ weight, ⟨i, j, weight⟩ ∈ net.edgesAmong nodes := by
  have hx := List.mem_of_getElem? hi
  obtain ⟨⟨_, weight⟩, listed, rfl⟩ := List.mem_map.mp joined
  have one := (idxOf_eq_iff distinct hx).mpr hi
  exact ⟨weight, mem_edgesAmong.mpr
    ⟨x, hx, one.symm, _, before, (idxOf?_eq_some_iff distinct).mpr hj, listed⟩⟩

theorem within_edgesAmong (net : Network α) (nodes : List Nat) :
    Within nodes.length (net.edgesAmong nodes) := by
  intro edge listed
  obtain ⟨x, hx, one, y, -, found, -⟩ := mem_edgesAmong.mp listed
  obtain ⟨other, -⟩ := List.idxOf?_eq_some_iff.mp found
  exact ⟨one ▸ List.idxOf_lt_length_of_mem hx, other⟩

/-- The part of a network between some nodes is closed, whatever the network is. -/
theorem closed_restrict [Weight α] (net : Network α) (nodes : List Nat) : (net.restrict nodes).Closed :=
  closed_ofEdges (within_edgesAmong net nodes)

end Restrict

section Exact

variable {net : Network Rat} {nodes : List Nat} {i j x y : Nat}

/-- The weight that the edges from a node have from one position to another. -/
theorem sum_edgesFrom (net : Network Rat) (distinct : nodes.Nodup) (hi : nodes[i]? = some x)
    (hj : nodes[j]? = some y) {z : Nat} (hz : z ∈ nodes) :
    ((net.edgesFrom nodes z).map fun edge =>
      if i = edge.one ∧ j = edge.other then edge.weight else 0).sum =
        if z = x then (if z < y then net.weight z y else 0) else 0 := by
  have one : i = nodes.idxOf z ↔ z = x := by
    rw [eq_comm, idxOf_eq_iff distinct hz, hi, Option.some_inj, eq_comm]
  rw [edgesFrom, weight]
  induction net.row z with
  | nil => simp
  | cons entry rest ih =>
      obtain ⟨k, weight⟩ := entry
      have other : nodes.idxOf? k = some j ↔ k = y := by
        rw [idxOf?_eq_some_iff distinct, hj, Option.some_inj, eq_comm]
      rw [List.filterMap_cons, Tally.total_cons]
      cases found : nodes.idxOf? k with
      | none => grind
      | some l => grind

/-- The edges among some nodes have the weight between two of them from the smaller one. -/
theorem sum_edgesAmong (net : Network Rat) (distinct : nodes.Nodup) (hi : nodes[i]? = some x)
    (hj : nodes[j]? = some y) :
    ((net.edgesAmong nodes).map fun edge =>
      if i = edge.one ∧ j = edge.other then edge.weight else 0).sum =
        if x < y then net.weight x y else 0 := by
  have once := List.count_eq_one_of_mem distinct (List.mem_of_getElem? hi)
  rw [edgesAmong, sum_flatMap,
    List.map_congr_left fun z hz => sum_edgesFrom net distinct hi hj hz, List.sum_map_ite_eq, once]
  simp

namespace Simple

variable (simple : net.Simple)

include simple

theorem weight_self (i : Nat) : net.weight i i = 0 := weight_eq_zero (simple.loopless i)

/-- Neighbours are so from both sides, since the weight between them is positive. -/
theorem joins_symm (joined : net.Joins x y) : net.Joins y x := by
  have positive := simple.positive x y joined
  by_contra apart
  rw [simple.symm, weight_eq_zero apart] at positive
  exact absurd positive (lt_irrefl 0)

/-- The part between some nodes has the weights that these have. -/
theorem weight_restrict (distinct : nodes.Nodup) (hi : nodes[i]? = some x)
    (hj : nodes[j]? = some y) : (net.restrict nodes).weight i j = net.weight x y := by
  rw [Network.restrict, weight_ofEdges (within_edgesAmong net nodes)]
  simp only [Edge.between, List.sum_map_add, and_comm (a := i = Edge.other _)]
  rw [sum_edgesAmong net distinct hi hj, sum_edgesAmong net distinct hj hi]
  rcases lt_trichotomy x y with before | rfl | after
  · rw [if_pos before, if_neg before.asymm, add_zero]
  · rw [if_neg (lt_irrefl x), add_zero, simple.weight_self]
  · rw [if_neg after.asymm, if_pos after, zero_add, simple.symm]

/-- Nodes of a part are joined where the nodes that they number are. -/
theorem joins_restrict (distinct : nodes.Nodup) :
    (net.restrict nodes).Joins i j ↔
      ∃ x y, nodes[i]? = some x ∧ nodes[j]? = some y ∧ net.Joins x y := by
  rw [Network.restrict, joins_ofEdges (within_edgesAmong net nodes)]
  constructor
  · rintro ⟨edge, listed, links⟩
    obtain ⟨x, hx, one, y, -, found, entered⟩ := mem_edgesAmong.mp listed
    have one := (idxOf_eq_iff distinct hx).mp one.symm
    have other := (idxOf?_eq_some_iff distinct).mp found
    have joined := joins_of_mem entered
    rcases links with ⟨rfl, rfl⟩ | ⟨rfl, rfl⟩
    · exact ⟨x, y, one, other, joined⟩
    · exact ⟨y, x, other, one, simple.joins_symm joined⟩
  · rintro ⟨x, y, hx, hy, joined⟩
    rcases lt_trichotomy x y with before | rfl | after
    · obtain ⟨weight, listed⟩ := exists_mem_edgesAmong distinct hx hy before joined
      exact ⟨_, listed, .inl ⟨rfl, rfl⟩⟩
    · exact absurd joined (simple.loopless x)
    · obtain ⟨weight, listed⟩ :=
        exists_mem_edgesAmong distinct hy hx after (simple.joins_symm joined)
      exact ⟨_, listed, .inr ⟨rfl, rfl⟩⟩

protected theorem restrict (distinct : nodes.Nodup) : (net.restrict nodes).Simple := by
  refine ⟨undirected_ofEdges (within_edgesAmong net nodes), ?_, ?_⟩
  · intro i joined
    obtain ⟨x, y, hx, hy, joined⟩ := (simple.joins_restrict distinct).mp joined
    obtain rfl := Option.some.inj (hx.symm.trans hy)
    exact simple.loopless x joined
  · intro i j joined
    obtain ⟨x, y, hx, hy, joined⟩ := (simple.joins_restrict distinct).mp joined
    rw [simple.weight_restrict distinct hx hy]
    exact simple.positive x y joined

/-- A part has an edge when two of its nodes are joined. -/
theorem hasEdge_restrict_iff (distinct : nodes.Nodup) :
    (net.restrict nodes).hasEdge = true ↔ ∃ x ∈ nodes, ∃ y ∈ nodes, net.Joins x y := by
  rw [hasEdge_iff]
  constructor
  · rintro ⟨i, j, joined⟩
    obtain ⟨x, y, hx, hy, joined⟩ := (simple.joins_restrict distinct).mp joined
    exact ⟨x, List.mem_of_getElem? hx, y, List.mem_of_getElem? hy, joined⟩
  · rintro ⟨x, hx, y, hy, joined⟩
    obtain ⟨i, hi⟩ := List.mem_iff_getElem?.mp hx
    obtain ⟨j, hj⟩ := List.mem_iff_getElem?.mp hy
    exact ⟨i, j, (simple.joins_restrict distinct).mpr ⟨x, y, hi, hj, joined⟩⟩

end Simple

end Exact

end Network

namespace CallGraph

variable {graph : CallGraph} {a b : String} {i j : Nat}

/-- The number of calls between two functions, whichever way they go. -/
def callsBetween (graph : CallGraph) (a b : String) : Nat :=
  graph.calls.countP fun call => decide (call = ⟨a, b⟩ ∨ call = ⟨b, a⟩)

theorem callsBetween_pos : 0 < graph.callsBetween a b ↔ graph.Linked a b := by
  rw [callsBetween, List.countP_pos_iff]
  constructor
  · rintro ⟨call, made, between⟩
    apply (of_decide_eq_true between).imp
    · rintro rfl
      exact made
    · rintro rfl
      exact made
  · rintro (made | made)
    · exact ⟨⟨a, b⟩, made, by simp⟩
    · exact ⟨⟨b, a⟩, made, by simp⟩

end CallGraph

namespace Network

variable {graph : CallGraph} {i j : Nat}

/-- A call gives two different functions the weight one if it is between them. -/
theorem between_callEdge {call : Call} (made : call ∈ graph.calls)
    (hi : i < graph.nodes.length) (hj : j < graph.nodes.length) (different : i ≠ j) :
    (callEdge Rat graph call).between i j =
      if call = ⟨graph.idAt i, graph.idAt j⟩ ∨ call = ⟨graph.idAt j, graph.idAt i⟩ then 1 else 0 := by
  obtain ⟨caller, callee⟩ := call
  have hcaller : caller ∈ graph.ids := (graph.closed _ made).1
  have hcallee : callee ∈ graph.ids := (graph.closed _ made).2
  have apart := mt (CallGraph.idAt_inj hi hj).mp different
  have one : (Weight.ofNat 1 : Rat) = 1 := Nat.cast_one
  simp only [Edge.between, callEdge, one, CallGraph.eq_idxOf_iff hcaller hi,
    CallGraph.eq_idxOf_iff hcaller hj, CallGraph.eq_idxOf_iff hcallee hi,
    CallGraph.eq_idxOf_iff hcallee hj, Call.mk.injEq]
  grind

/-- The weight between two functions is the number of calls between them. -/
theorem weight_ofGraph (hi : i < graph.nodes.length) (hj : j < graph.nodes.length)
    (different : i ≠ j) :
    (ofGraph Rat graph).weight i j = graph.callsBetween (graph.idAt i) (graph.idAt j) := by
  have apart : graph.idAt i ≠ graph.idAt j := mt (CallGraph.idAt_inj hi hj).mp different
  have kept : ∀ call : Call, call = ⟨graph.idAt i, graph.idAt j⟩ ∨
      call = ⟨graph.idAt j, graph.idAt i⟩ → call.caller ≠ call.callee := by
    rintro call (rfl | rfl)
    · exact apart
    · exact apart.symm
  rw [ofGraph, weight_ofEdges (within_callEdges graph), callEdges, List.map_map,
    Function.comp_def, List.map_congr_left fun call listed =>
      between_callEdge (List.mem_filter.mp listed).1 hi hj different,
    sum_ones, List.countP_filter, CallGraph.callsBetween]
  refine congrArg _ (List.countP_congr fun call _ => ?_)
  simpa using kept call

theorem simple_ofGraph (graph : CallGraph) : (ofGraph Rat graph).Simple := by
  refine ⟨undirected_ofEdges (within_callEdges graph), fun i joined => ?_, fun i j joined => ?_⟩
  · exact (joins_ofGraph.mp joined).2.2.1 rfl
  · obtain ⟨hi, hj, different, linked⟩ := joins_ofGraph.mp joined
    rw [weight_ofGraph hi hj different]
    exact Nat.cast_pos.mpr (CallGraph.callsBetween_pos.mpr linked)

end Network

end CallAtlas
