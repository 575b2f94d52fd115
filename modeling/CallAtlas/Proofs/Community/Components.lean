import CallAtlas.Proofs.Community.Moves

/-!
# Communities stay in one component

Give every node a colour such that neighbours have the same. Then so have all members of a
community, whatever the weights are. For labels this means that a node and the node that its label
is named after have one colour, also when the latter has long moved elsewhere; a node only takes a
label from a neighbour, so this stays true. On the next level a node has the colour of the nodes
behind it, and neighbours still agree.

With its connected component as the colour of a node, no community has members in two components.
-/

namespace CallAtlas

variable {α κ : Type}

/-- A colour of nodes that neighbours share. -/
def Network.Constant (net : Network α) (colour : Nat → κ) : Prop :=
  ∀ i j, net.Joins i j → colour j = colour i

/-- Labels keep the colour of the nodes that have them. -/
theorem Labelling.colour_settle [Weight α] {net : Network α} {resolution volume : α}
    {colour : Nat → κ} (constant : net.Constant colour) {s : Labelling α} (sweeps : Nat)
    (start : ∀ i, colour (s.label i) = colour i) (i : Nat) :
    colour ((s.settle net resolution volume sweeps).label i) = colour i := by
  refine settle_induction (motive := fun s => ∀ i, colour (s.label i) = colour i) ?_ ?_ sweeps
    start i
  · exact fun s hs => hs
  · intro s i _ hs j
    rw [label_visit]
    split
    · next visited =>
      rw [visited.1]
      rcases s.choice_cases net resolution volume i with own | ⟨k, joined, taken⟩
      · rw [own, hs i]
      · rw [taken, hs k, constant i k joined]
    · exact hs j

namespace Level

/-- The nodes of a level have shades that neighbours share, and the nodes behind one of them have
its shade as their colour. -/
structure Shaded (level : Level α) (colour shade : Nat → κ) : Prop where
  closed : level.net.Closed
  constant : level.net.Constant shade
  behind : ∀ i, ∀ x ∈ level.group i, colour x = shade i

theorem exists_group_eq {level : Level α} {group : List Nat} (h : group ∈ level.groups.toList) :
    ∃ i, level.group i = group := by
  obtain ⟨i, hi, rfl⟩ := List.getElem_of_mem h
  have hi : i < level.groups.size := by simpa using hi
  exact ⟨i, by simp [Level.group, hi]⟩

theorem initial_shaded {net : Network α} {colour : Nat → κ} (closed : net.Closed)
    (constant : net.Constant colour) : (initial net).Shaded colour colour := by
  refine ⟨closed, constant, fun i x hx => ?_⟩
  by_cases hi : i < net.size
  · have same : x = i := by simpa [group, initial, hi] using hx
    rw [same]
  · simp [group, initial, hi] at hx

variable [Weight α]

/-- Where labels keep shades, a node of the next level has the shade of its label. -/
theorem Shaded.contract {level : Level α} {colour shade : Nat → κ} (h : level.Shaded colour shade)
    {s : Labelling α} (kept : ∀ i, shade (s.label i) = shade i) :
    ∃ shade, (level.contract s).Shaded colour shade := by
  let shadeOf (k : Nat) : κ := shade ((s.names level.net).getD k 0)
  have named : ∀ i < level.net.size, shadeOf (s.number level.net i) = shade i := by
    intro i hi
    have inside : s.number level.net i < (s.names level.net).length := Labelling.number_lt hi
    have same := (Labelling.number_eq_iff inside).mp rfl
    rw [← kept i, same]
    exact congrArg shade (List.getD_eq_getElem _ _ inside)
  refine ⟨shadeOf, closed_contract h.closed s, ?_, ?_⟩
  · intro k l above
    obtain ⟨i, j, joined, rfl, rfl⟩ := joins_contract.mp above
    rw [named i (Network.lt_size_of_joins joined), named j (h.closed i j joined)]
    exact h.constant i j joined
  · intro k x hx
    rw [group_contract] at hx
    obtain ⟨i, hi, hx⟩ := List.mem_flatMap.mp hx
    obtain ⟨hi, same⟩ := List.mem_filter.mp hi
    rw [← beq_iff_eq.mp same, named i (List.mem_range.mp hi)]
    exact h.behind i x hx

theorem finish_shaded {level : Level α} {colour shade : Nat → κ} {resolution volume : α}
    (h : level.Shaded colour shade) :
    ∃ shade, (level.finish resolution volume).Shaded colour shade := by
  refine finish_induction (motive := fun level => ∃ shade : Nat → κ, level.Shaded colour shade)
    ?_ ⟨shade, h⟩
  rintro level ⟨shade, h⟩ -
  refine h.contract (Labelling.colour_settle h.constant maxSweeps fun i => ?_)
  rw [Labelling.label_initial]

end Level

/-- All members of a community have the same colour. -/
theorem Network.colour_communities [Weight α] {net : Network α} {colour : Nat → κ}
    (closed : net.Closed) (constant : net.Constant colour) {resolution : α} {community : List Nat}
    (hcommunity : community ∈ net.communities resolution) {x y : Nat} (hx : x ∈ community)
    (hy : y ∈ community) : colour x = colour y := by
  rw [communities] at hcommunity
  split at hcommunity
  · obtain ⟨i, -, rfl⟩ := List.mem_map.mp hcommunity
    rw [List.mem_singleton.mp hx, List.mem_singleton.mp hy]
  · have shaded : ∃ shade, ((Level.initial net).finish resolution net.volume).Shaded colour shade :=
      Level.finish_shaded (Level.initial_shaded closed constant)
    obtain ⟨shade, -, -, behind⟩ := shaded
    obtain ⟨i, rfl⟩ := Level.exists_group_eq hcommunity
    rw [behind i x hx, behind i y hy]

end CallAtlas
