import CallAtlas.Proofs.Community.Floating
import CallAtlas.Proofs.Community.Projection

/-!
# Tuning ends unless the resolution is zero

Tuning answers when one of the doubled resolutions needs no further doubling. With floats there is
one for every resolution but zero, whatever the network: after enough doublings the resolution is no
longer finite, and at such a resolution no node moves. For the gain of a node's own label has a
factor that vanishes, since the label's mass is the degree of the node alone; so this gain is not a
number, and no other is above it. All communities are then single nodes, and these are never too
large.

Zero stays zero when it is doubled. There tuning ends at once or never.
-/

namespace CallAtlas

open Floating

namespace Labelling

variable {net : Network Float} {s : Labelling Float} {resolution volume : Float} {i : Nat}

/-- Where the gain of a node's own label is not a number, no other label is better. -/
theorem bestLabel_of_isNaN {own : Nat} {ownGain : Float} (h : ownGain.isNaN = true)
    (gains : List (Nat × Float)) : bestLabel own ownGain gains = own := by
  let keeps (best : Nat × Float) : Prop := best.1 = own
  obtain ⟨_, chosen⟩ : ∃ delta, keeps (bestLabel own ownGain gains, delta) := by
    apply bestLabel_induction
    · exact rfl
    · intro best candidate _ _ better
      rw [lt_isNaN (isNaN_sub h candidate.2)] at better
      cases better
  exact chosen

variable (net s) in
/-- Every node has its own label, and nothing is left of a label's mass without its node. -/
structure Untouched : Prop extends s.Bounded net where
  label_eq : s.label = id
  vanishes : ∀ i < net.size, Vanishes (s.mass i - net.degree i)

theorem initial_untouched (net : Network Float) : (initial net).Untouched net := by
  refine ⟨initial_bounded net, funext (label_initial net), fun i hi => vanishes_sub ?_⟩
  have mass : (initial net).mass i = net.degree i := by simp [initial, mass, hi]
  rw [mass]

namespace Untouched

variable (h : s.Untouched net) (hi : i < net.size) (infinite : resolution.isFinite = false)

include h hi

theorem lt_masses_size : i < s.masses.size := h.masses_size ▸ hi

include infinite

theorem choice_eq : s.choice net resolution volume i = i := by
  have own : s.label i = i := congrFun h.label_eq i
  rw [choice, own]
  apply bestLabel_of_isNaN
  beta_reduce
  rw [gain, mass_adjust (h.lt_masses_size hi), if_pos rfl]
  have product := isNaN_mul_of_vanishes infinite (h.vanishes i hi)
  exact isNaN_sub (isNaN_div (isNaN_mul product _) volume) _

/-- At a resolution that is not finite, a visit changes no label. -/
theorem visit (closed : net.Closed) : (s.visit net resolution volume i).Untouched net := by
  have choice : s.choice net resolution volume i = i := h.choice_eq hi infinite
  have own : s.label i = i := congrFun h.label_eq i
  refine ⟨h.toBounded.visit closed hi, funext fun j => ?_, fun j hj => ?_⟩
  · rw [label_visit, choice, h.label_eq]
    split
    · next visited => exact visited.1.symm
    · rfl
  · -- The degree is taken out of the mass and put back. Rounding may change the mass by this, but
    -- not that nothing is left of it without the node.
    have inside := h.lt_masses_size hi
    rw [visit_eq, choice, own, mass_adjust (by simpa [adjust, relabel] using inside)]
    have before : ((s.adjust i (· - net.degree i)).relabel i i).mass j =
        if i = j then s.mass j - net.degree i else s.mass j := mass_adjust inside _ j
    rw [before]
    split
    · next same =>
      subst same
      exact (h.vanishes i hi).add_sub _
    · exact h.vanishes j hj

end Untouched

/-- At a resolution that is not finite, the labels of a level stay what they were. -/
theorem label_settle (closed : net.Closed) (infinite : resolution.isFinite = false)
    (volume : Float) (sweeps : Nat) :
    ((initial net).settle net resolution volume sweeps).label = id := by
  have untouched : ((initial net).settle net resolution volume sweeps).Untouched net := by
    refine settle_induction (motive := fun s => s.Untouched net) ?_ ?_ sweeps
      (initial_untouched net)
    · intro s h
      exact ⟨⟨h.labels_size, h.masses_size, h.label_lt⟩, h.label_eq, h.vanishes⟩
    · intro s i hi h
      exact h.visit hi infinite closed
  exact untouched.label_eq

end Labelling

namespace Network

section Tune

variable {α : Type} [Weight α]

/-- Tuning answers when one of the doubled resolutions needs no further doubling. -/
theorem exists_tune_iff {net : Network α} {limit doublings : Nat} {resolution : α} :
    (∃ communities, net.tune limit doublings resolution = some communities) ↔
      ∃ k ≤ doublings, needsDoubling limit ((· * Weight.ofNat 2)^[k] resolution)
        (net.communities ((· * Weight.ofNat 2)^[k] resolution)) = false := by
  induction doublings generalizing resolution with
  | zero =>
      simp only [tune, Nat.le_zero, exists_eq_left, Function.iterate_zero, id_eq]
      cases needsDoubling limit resolution (net.communities resolution) <;> simp
  | succ doublings ih =>
      rw [tune]
      cases again : needsDoubling limit resolution (net.communities resolution) with
      | false =>
          exact iff_of_true ⟨_, if_neg Bool.false_ne_true⟩ ⟨0, Nat.zero_le _, again⟩
      | true =>
          rw [if_pos rfl, ih]
          constructor
          · rintro ⟨k, hk, done⟩
            exact ⟨k + 1, Nat.succ_le_succ hk, done⟩
          · rintro ⟨k, hk, done⟩
            cases k with
            | zero =>
                rw [Function.iterate_zero, id, again] at done
                cases done
            | succ k => exact ⟨k, Nat.le_of_succ_le_succ hk, done⟩

end Tune

variable {net : Network Float} {limit : Nat} {resolution : Float}

/-- At a resolution that is not finite, all communities are single nodes. -/
theorem communities_of_not_finite (closed : net.Closed) (infinite : resolution.isFinite = false) :
    net.communities resolution = net.singletons := by
  have settled : ((Level.initial net).settled resolution net.volume).label = id :=
    Labelling.label_settle closed infinite net.volume Level.maxSweeps
  have last : ¬ ((Level.initial net).contract
      ((Level.initial net).settled resolution net.volume)).net.size <
        (Level.initial net).net.size := by
    rw [Level.size_contract, Nat.not_lt]
    exact Labelling.size_le_length_names settled
  rw [communities, Level.finish, if_neg last]
  exact ite_self net.singletons

theorem largest_singletons_le (net : Network Float) : largest net.singletons ≤ 1 := by
  have step : ∀ (nodes : List Nat) (size : Nat), size ≤ 1 →
      (nodes.map fun i => [i]).foldl (fun size c => max size c.length) size ≤ 1 := by
    intro nodes
    induction nodes with
    | nil => exact fun _ small => small
    | cons i nodes ih => exact fun size small => ih _ (Nat.max_le.mpr ⟨small, Nat.le_refl 1⟩)
  exact step _ 0 (Nat.zero_le 1)

/-- A resolution that is not finite needs no further doubling. -/
theorem needsDoubling_of_not_finite (closed : net.Closed) (positive : 1 ≤ limit)
    (infinite : resolution.isFinite = false) :
    needsDoubling limit resolution (net.communities resolution) = false := by
  have small := (largest_singletons_le net).trans positive
  rw [communities_of_not_finite closed infinite, needsDoubling, decide_eq_false (by omega)]
  exact Bool.false_and _

/-- Tuning ends within the range of floats, unless it starts at zero. -/
theorem exists_tune_of_ne_zero (closed : net.Closed) (positive : 1 ≤ limit)
    (filled : (resolution == 0) = false) {doublings : Nat} (enough : span ≤ doublings) :
    ∃ communities, net.tune limit doublings resolution = some communities := by
  obtain ⟨k, hk, infinite⟩ := exists_double_not_finite filled
  exact exists_tune_iff.mpr
    ⟨k, hk.trans enough, needsDoubling_of_not_finite closed positive infinite⟩

/-- At zero, tuning ends at once or never. -/
theorem exists_tune_zero_iff (zero : (resolution == 0) = true) (doublings : Nat) :
    (∃ communities, net.tune limit doublings resolution = some communities) ↔
      largest (net.communities resolution) ≤ limit := by
  have fixed : ∀ k, (· * Weight.ofNat 2)^[k] resolution = resolution :=
    Function.iterate_fixed (double_zero zero)
  have low : Weight.lt resolution (Weight.ofNat 10) = true := zero_lt_ten zero
  simp only [exists_tune_iff, fixed, needsDoubling, low, Bool.and_true, decide_eq_false_iff_not,
    Nat.not_lt]
  constructor
  · rintro ⟨_, _, small⟩
    exact small
  · intro small
    exact ⟨0, Nat.zero_le _, small⟩

end Network

namespace CallGraph

/-- Clustering answers exactly when tuning does. -/
theorem exists_cluster?_iff_tune {α : Type} [Weight α] (graph : CallGraph) (maxClusterSize : Nat)
    (resolution : α) :
    (∃ clusters result, graph.cluster? maxClusterSize resolution = some (clusters, result)) ↔
      ∃ tuned, (Network.ofGraph α graph).tune (max 1 maxClusterSize) (Weight.doublings resolution)
        resolution = some tuned := by
  constructor
  · rintro ⟨clusters, result, answered⟩
    obtain ⟨communities, found, -⟩ := exists_partition?_of_cluster? answered
    obtain ⟨tuned, htuned, -⟩ := Option.map_eq_some_iff.mp found
    exact ⟨tuned, htuned⟩
  · rintro ⟨tuned, htuned⟩
    exact exists_cluster?_of_tune htuned

/-- Clustering answers unless the resolution is zero and some community is too large there. -/
theorem exists_cluster?_iff (graph : CallGraph) (maxClusterSize : Nat) (resolution : Float) :
    (∃ clusters result, graph.cluster? maxClusterSize resolution = some (clusters, result)) ↔
      (resolution == 0) = false ∨
        Network.largest ((Network.ofGraph Float graph).communities resolution) ≤
          max 1 maxClusterSize := by
  have enough : span ≤ Weight.doublings resolution := by
    show span ≤ 2100
    decide
  rw [exists_cluster?_iff_tune]
  cases zero : resolution == 0 with
  | false =>
      have ends := Network.exists_tune_of_ne_zero (Network.closed_ofGraph graph)
        (Nat.le_max_left 1 maxClusterSize) zero enough
      exact iff_of_true ends (.inl rfl)
  | true => simp [Network.exists_tune_zero_iff zero]

theorem cluster?_eq_none_iff {graph : CallGraph} {maxClusterSize : Nat} {resolution : Float} :
    graph.cluster? maxClusterSize resolution = none ↔
      (resolution == 0) = true ∧ max 1 maxClusterSize <
        Network.largest ((Network.ofGraph Float graph).communities resolution) := by
  have answers := exists_cluster?_iff graph maxClusterSize resolution
  rw [← Prod.exists', ← Option.ne_none_iff_exists'] at answers
  rw [← not_iff_not, ← ne_eq, answers]
  simp only [not_and_or, Bool.not_eq_true, Nat.not_lt]

/-- Tuning ends for every graph, bound and resolution, infinite ones and those that are no numbers
included, but for one case: a resolution of zero at which some community is too large. Where it
ends, the doublings that clustering allows are enough. -/
theorem tuning_ends_iff (graph : CallGraph) (maxClusterSize : Nat) (resolution : Float) :
    ((∃ doublings communities, (Network.ofGraph Float graph).tune (max 1 maxClusterSize) doublings
        resolution = some communities) ↔
      (resolution == 0) = false ∨
        Network.largest ((Network.ofGraph Float graph).communities resolution) ≤
          max 1 maxClusterSize) ∧
    ((∃ clusters result, graph.cluster? maxClusterSize resolution = some (clusters, result)) ↔
      ∃ doublings communities, (Network.ofGraph Float graph).tune (max 1 maxClusterSize) doublings
        resolution = some communities) := by
  have tuned : (∃ doublings communities, (Network.ofGraph Float graph).tune (max 1 maxClusterSize)
      doublings resolution = some communities) ↔ (resolution == 0) = false ∨
        Network.largest ((Network.ofGraph Float graph).communities resolution) ≤
          max 1 maxClusterSize := by
    cases zero : resolution == 0 with
    | false =>
        have ends := Network.exists_tune_of_ne_zero (Network.closed_ofGraph graph)
          (Nat.le_max_left 1 maxClusterSize) zero (Nat.le_refl span)
        exact iff_of_true ⟨span, ends⟩ (.inl rfl)
    | true => simp [Network.exists_tune_zero_iff zero]
  exact ⟨tuned, (exists_cluster?_iff graph maxClusterSize resolution).trans tuned.symm⟩

/-- Two functions that call each other are never put apart by doubling zero. -/
theorem not_exists_tune_mutualCalls :
    (Network.ofGraph Float mutualCalls).communities 0 = [[0, 1]] ∧
      (¬ ∃ doublings communities,
        (Network.ofGraph Float mutualCalls).tune 1 doublings 0 = some communities) ∧
      mutualCalls.cluster? 1 (0 : Float) = none := by
  have joined : (Network.ofGraph Float mutualCalls).communities 0 = [[0, 1]] := by decide +kernel
  have large : ¬ Network.largest ((Network.ofGraph Float mutualCalls).communities 0) ≤ 1 := by
    rw [joined]
    decide
  have never : ∀ doublings, ¬ ∃ communities,
      (Network.ofGraph Float mutualCalls).tune 1 doublings 0 = some communities := by
    intro doublings ends
    exact large ((Network.exists_tune_zero_iff (by decide) doublings).mp ends)
  refine ⟨joined, ?_, ?_⟩
  · rintro ⟨doublings, ends⟩
    exact never doublings ends
  · apply Option.eq_none_iff_forall_ne_some.mpr
    rintro ⟨clusters, result⟩ answered
    exact never _ ((exists_cluster?_iff_tune mutualCalls 1 0).mp ⟨clusters, result, answered⟩)

end CallGraph

end CallAtlas
