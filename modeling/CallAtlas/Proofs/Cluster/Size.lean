import CallAtlas.Proofs.Community.Division

/-!
# Clusters are small or have no calls inside

With exact arithmetic, a positive resolution reaches ten after the doublings that are allowed, so
clustering answers. A cluster that is larger than the limit then has no call between two of its
members: where there is one, the members form a simple network with an edge, and this can be
divided.
-/

namespace CallAtlas

/-- The doublings that are allowed take a positive resolution to ten. -/
theorem Weight.ten_le_mul_pow_doublings {resolution : Rat} (positive : 0 < resolution) :
    10 ≤ resolution * 2 ^ Weight.doublings resolution := by
  have num : 0 < resolution.num := Rat.num_pos.mpr positive
  have doublings : Weight.doublings resolution = Nat.log2 (10 * resolution.den) + 1 := if_pos num
  have large : 10 * resolution.den ≤ 2 ^ Weight.doublings resolution := by
    rw [doublings]
    exact Nat.lt_log2_self.le
  have large : (10 * resolution.den : Rat) ≤ 2 ^ Weight.doublings resolution := by
    exact_mod_cast large
  have one : 1 ≤ resolution * resolution.den := by
    rw [Rat.mul_den_eq_num]
    exact_mod_cast num
  calc 10 ≤ 10 * (resolution * resolution.den) := by linarith
    _ = resolution * (10 * resolution.den) := by ring
    _ ≤ resolution * 2 ^ Weight.doublings resolution :=
        mul_le_mul_of_nonneg_left large positive.le

namespace Network

/-- Tuning ends where the doublings reach ten. -/
theorem exists_tune_eq_some {net : Network Rat} {limit doublings : Nat} {resolution : Rat}
    (reaches : 10 ≤ resolution * 2 ^ doublings) :
    ∃ communities, net.tune limit doublings resolution = some communities := by
  induction doublings generalizing resolution with
  | zero =>
      rw [pow_zero, mul_one] at reaches
      have high : Weight.lt resolution (Weight.ofNat 10) = false :=
        decide_eq_false (not_lt.mpr reaches)
      refine ⟨net.communities resolution, ?_⟩
      rw [tune, needsDoubling, high, Bool.and_false]
      rfl
  | succ doublings ih =>
      rw [tune]
      split
      · apply ih
        rw [pow_succ'] at reaches
        have two : (Weight.ofNat 2 : Rat) = 2 := Nat.cast_ofNat
        rw [two]
        linarith
      · exact ⟨_, rfl⟩

end Network

namespace CallGraph

variable {graph : CallGraph}

/-- Some functions form a part with an edge when one of them calls another. -/
theorem hasEdge_restrict_ofGraph_iff {community : List Nat} (distinct : community.Nodup)
    (known : ∀ i ∈ community, i < graph.nodes.length) :
    ((Network.ofGraph Rat graph).restrict community).hasEdge = true ↔
      ∃ i ∈ community, ∃ j ∈ community, i ≠ j ∧ ⟨graph.idAt i, graph.idAt j⟩ ∈ graph.calls := by
  rw [(Network.simple_ofGraph graph).hasEdge_restrict_iff distinct]
  constructor
  · rintro ⟨x, hx, y, hy, joined⟩
    obtain ⟨-, -, different, linked⟩ := Network.joins_ofGraph.mp joined
    cases linked with
    | inl call => exact ⟨x, hx, y, hy, different, call⟩
    | inr call => exact ⟨y, hy, x, hx, different.symm, call⟩
  · rintro ⟨x, hx, y, hy, different, call⟩
    exact ⟨x, hx, y, hy, Network.joins_ofGraph.mpr ⟨known x hx, known y hy, different, .inl call⟩⟩

theorem exists_cluster?_of_pos (graph : CallGraph) (maxClusterSize : Nat) {resolution : Rat}
    (positive : 0 < resolution) :
    ∃ clusters result, graph.cluster? maxClusterSize resolution = some (clusters, result) := by
  obtain ⟨tuned, htuned⟩ : ∃ tuned, (Network.ofGraph Rat graph).tune (max 1 maxClusterSize)
      (Weight.doublings resolution) resolution = some tuned :=
    Network.exists_tune_eq_some (Weight.ten_le_mul_pow_doublings positive)
  exact exists_cluster?_of_tune htuned

/-- A cluster is within the limit or has no call between two different members. -/
theorem members_small_or_callless {maxClusterSize : Nat} {resolution : Rat}
    {clusters : List Cluster} {result : CallGraph}
    (answered : graph.cluster? maxClusterSize resolution = some (clusters, result))
    {c : Cluster} (hc : c ∈ clusters) :
    c.members.length ≤ max 1 maxClusterSize ∨
      ∀ a ∈ c.members, ∀ b ∈ c.members, a ≠ b → ⟨a, b⟩ ∉ graph.calls := by
  obtain ⟨communities, found, community, hcommunity, members⟩ := exists_community_of_mem answered hc
  have shares := (Network.partition?_arranged found).shares
  have distinct : community.Nodup := shares.nodup_of_mem List.nodup_range hcommunity
  have known : ∀ i ∈ community, i < graph.nodes.length := by
    intro i hi
    simpa using shares.mem_of_mem hcommunity hi
  rw [members, List.length_map]
  apply ((Network.simple_ofGraph graph).partition?_within found community hcommunity).imp_right
  intro edgeless a ha b hb different call
  obtain ⟨i, hi, rfl⟩ := List.mem_map.mp ha
  obtain ⟨j, hj, rfl⟩ := List.mem_map.mp hb
  have apart : i ≠ j := fun same => different (congrArg graph.idAt same)
  have edge := (hasEdge_restrict_ofGraph_iff distinct known).mpr ⟨i, hi, j, hj, apart, call⟩
  rw [edgeless] at edge
  cases edge

/-- With exact arithmetic, clustering at a positive resolution always answers, and each cluster is
within the limit or has no call between two different members. For the division of large communities
never gives up: functions of which one calls another have several communities at resolution two. -/
theorem cluster?_small_or_callless (graph : CallGraph) (maxClusterSize : Nat) {resolution : Rat}
    (positive : 0 < resolution) :
    (∃ clusters result, graph.cluster? maxClusterSize resolution = some (clusters, result) ∧
      ∀ c ∈ clusters, c.members.length ≤ max 1 maxClusterSize ∨
        ∀ a ∈ c.members, ∀ b ∈ c.members, a ≠ b → ⟨a, b⟩ ∉ graph.calls) ∧
    ∀ community : List Nat, community.Nodup → (∀ i ∈ community, i < graph.nodes.length) →
      (∃ i ∈ community, ∃ j ∈ community, i ≠ j ∧ ⟨graph.idAt i, graph.idAt j⟩ ∈ graph.calls) →
        1 < (((Network.ofGraph Rat graph).restrict community).communities 2).length := by
  constructor
  · obtain ⟨clusters, result, answered⟩ := exists_cluster?_of_pos graph maxClusterSize positive
    exact ⟨clusters, result, answered, fun c hc => members_small_or_callless answered hc⟩
  · intro community distinct known call
    apply ((Network.simple_ofGraph graph).restrict distinct).one_lt_length_communities
    exact (hasEdge_restrict_ofGraph_iff distinct known).mpr call

/-- Two functions that call each other are not left in one cluster where only one is allowed. -/
theorem cluster?_small_or_callless_mutualCalls :
    (0 : Rat) < 1 / 100 ∧
    (∃ clusters result, mutualCalls.cluster? 1 (1 / 100 : Rat) = some (clusters, result) ∧
      ∀ c ∈ clusters, c.members.length ≤ 1 ∨
        ∀ a ∈ c.members, ∀ b ∈ c.members, a ≠ b → ⟨a, b⟩ ∉ mutualCalls.calls) ∧
    1 < (((Network.ofGraph Rat mutualCalls).restrict [0, 1]).communities 2).length := by
  have positive : (0 : Rat) < 1 / 100 := by norm_num
  obtain ⟨small, divided⟩ := cluster?_small_or_callless mutualCalls 1 positive
  refine ⟨positive, small, divided [0, 1] (by decide) (by decide) ?_⟩
  exact ⟨0, by decide, 1, by decide, by decide, by decide +kernel⟩

end CallGraph

end CallAtlas
