import CallAtlas.Proofs.Community.Coverage
import Mathlib.Data.List.GetD
import Mathlib.Data.List.Perm.Subperm

/-!
# What one level of the search can do

The weights decide where a node moves, but not where it can move to: it keeps its label or takes
that of a neighbour. `Labelling.choice` is the label that a node takes, and `choice_cases` is all
that is known of it without laws for weights. What single visits preserve holds of the labels that
a level settles on, by `settle_induction`.

The next level numbers the labels in use. `row_contract` and `group_contract` give its rows and
groups in terms of these numbers, so no later argument looks at how it is put together, and what a
contraction preserves holds of the last level, by `finish_induction`.
-/

namespace CallAtlas

namespace Tally

variable {α : Type} {tally : Tally α} {c : Nat}

/-- The numbers that have a weight. -/
def keys (tally : Tally α) : List Nat := tally.map Prod.fst

@[simp] theorem keys_nil : keys ([] : Tally α) = [] := rfl

@[simp] theorem keys_cons (entry : Nat × α) (tally : Tally α) :
    keys (entry :: tally) = entry.1 :: keys tally := rfl

/-- The numbers of a tally increase. -/
def Increasing (tally : Tally α) : Prop := tally.Pairwise fun a b => a.1 < b.1

theorem Increasing.nodup_keys (h : Increasing tally) : (keys tally).Nodup :=
  List.pairwise_map.mpr (h.imp fun before => Nat.ne_of_lt before)

variable [Weight α]

theorem mem_keys_add {number : Nat} {weight : α} :
    c ∈ keys (tally.add number weight) ↔ c = number ∨ c ∈ keys tally := by
  induction tally with
  | nil => simp [add]
  | cons entry rest ih =>
      simp only [add]
      split
      · simp
      · split
        · next same => simp [same]
        · rw [keys_cons, List.mem_cons, ih, keys_cons, List.mem_cons]
          exact or_left_comm

/-- A tally has the numbers of its entries. -/
theorem mem_keys_ofList {entries : List (Nat × α)} :
    c ∈ keys (ofList entries) ↔ c ∈ keys entries := by
  have gathered : ∀ tally : Tally α,
      c ∈ keys (entries.foldl (fun tally entry => add tally entry.1 entry.2) tally) ↔
        c ∈ keys entries ∨ c ∈ keys tally := by
    induction entries with
    | nil => simp
    | cons entry rest ih =>
        intro tally
        rw [List.foldl_cons, ih, mem_keys_add, keys_cons, List.mem_cons]
        exact or_left_comm.trans or_assoc.symm
  simpa [ofList] using gathered []

theorem increasing_add (h : Increasing tally) (number : Nat) (weight : α) :
    Increasing (tally.add number weight) := by
  induction tally with
  | nil => exact List.pairwise_singleton _ _
  | cons entry rest ih =>
      obtain ⟨before, later⟩ := List.pairwise_cons.mp h
      simp only [add]
      split
      · next smaller =>
        refine List.pairwise_cons.mpr ⟨fun other hother => ?_, h⟩
        rcases List.mem_cons.mp hother with rfl | hother
        · exact smaller
        · exact smaller.trans (before other hother)
      · split
        · exact List.pairwise_cons.mpr ⟨before, later⟩
        · refine List.pairwise_cons.mpr ⟨fun other hother => ?_, ih later⟩
          have key : other.1 ∈ keys (add rest number weight) := List.mem_map_of_mem hother
          rcases mem_keys_add.mp key with same | known
          · omega
          · obtain ⟨old, hold, same⟩ := List.mem_map.mp known
            exact same ▸ before old hold

theorem increasing_ofList (entries : List (Nat × α)) : Increasing (ofList entries) := by
  have gathered : ∀ tally : Tally α, Increasing tally →
      Increasing (entries.foldl (fun tally entry => add tally entry.1 entry.2) tally) := by
    induction entries with
    | nil => exact fun tally h => h
    | cons entry rest ih => exact fun tally h => ih _ (increasing_add h entry.1 entry.2)
  exact gathered [] List.Pairwise.nil

end Tally

namespace Network

variable {α : Type}

/-- The second node is a neighbour of the first. -/
def Joins (net : Network α) (i j : Nat) : Prop := j ∈ Tally.keys (net.row i)

/-- All neighbours are nodes. -/
def Closed (net : Network α) : Prop := ∀ i j, net.Joins i j → j < net.size

theorem joins_of_mem {net : Network α} {i : Nat} {entry : Nat × α} (h : entry ∈ net.row i) :
    net.Joins i entry.1 :=
  List.mem_map_of_mem h

/-- Only nodes have neighbours. -/
theorem lt_size_of_joins {net : Network α} {i j : Nat} (h : net.Joins i j) : i < net.size := by
  by_contra outside
  have missing := Array.getElem?_eq_none (Nat.le_of_not_lt outside)
  rw [Joins, row, Array.getD_eq_getD_getElem?, missing] at h
  cases h

end Network

namespace Labelling

variable {α : Type} {net : Network α} {s : Labelling α} {i j k : Nat}

variable (net s) in
/-- The labels in use, each once. -/
def names : List Nat := ((List.range net.size).map s.label).eraseDups

variable (net s) in
/-- The number of a node's label among those in use, and so of its node on the next level. -/
def number (i : Nat) : Nat := (s.names net).idxOf (s.label i)

theorem names_nodup : (s.names net).Nodup := Level.nodup_eraseDups _

theorem label_mem_names (hi : i < net.size) : s.label i ∈ s.names net :=
  List.mem_eraseDups.mpr (List.mem_map_of_mem (List.mem_range.mpr hi))

theorem number_lt (hi : i < net.size) : s.number net i < (s.names net).length :=
  List.idxOf_lt_length_of_mem (label_mem_names hi)

/-- Nodes have the same number when they have the same label. -/
theorem number_inj (hi : i < net.size) :
    s.number net i = s.number net j ↔ s.label i = s.label j :=
  List.idxOf_inj (label_mem_names hi)

theorem number_eq_iff (hk : k < (s.names net).length) :
    s.number net i = k ↔ s.label i = (s.names net)[k] := by
  constructor
  · rintro rfl
    exact (List.getElem_idxOf hk).symm
  · intro same
    rw [number, same]
    exact names_nodup.idxOf_getElem k hk

/-- What is made of the nodes with the label at a place is made of the nodes with that number; where
there is no label, there are no such nodes. -/
theorem getElem?_names_map {β : Type} (gather : List Nat → β) :
    ((s.names net)[k]?.map fun c =>
        gather ((List.range net.size).filter (s.label · == c))).getD (gather []) =
      gather ((List.range net.size).filter (s.number net · == k)) := by
  by_cases hk : k < (s.names net).length
  · rw [List.getElem?_eq_getElem hk, Option.map_some, Option.getD_some]
    refine congrArg gather (List.filter_congr fun i _ => ?_)
    rw [Bool.eq_iff_iff, beq_iff_eq, beq_iff_eq]
    exact (number_eq_iff hk).symm
  · rw [List.getElem?_eq_none (Nat.le_of_not_lt hk), Option.map_none, Option.getD_none]
    refine congrArg gather (List.filter_eq_nil_iff.mpr fun i hi same => hk ?_).symm
    exact beq_iff_eq.mp same ▸ number_lt (List.mem_range.mp hi)

/-- Labels that are all different are as many as nodes. -/
theorem size_le_length_names (different : s.label = id) : net.size ≤ (s.names net).length := by
  have named : ∀ i ∈ List.range net.size, i ∈ s.names net := by
    intro i hi
    have listed : s.label i ∈ s.names net := label_mem_names (List.mem_range.mp hi)
    rwa [different] at listed
  simpa using (List.nodup_range.subperm named).length_le

variable [Weight α] {resolution volume : α}

theorem mass_adjust {a : Nat} (ha : a < s.masses.size) (change : α → α) (c : Nat) :
    (s.adjust a change).mass c = if a = c then change (s.mass c) else s.mass c := by
  by_cases same : a = c
  · subst same
    simp [mass, adjust, Array.getElem_modify, ha]
  · simp [mass, adjust, Array.getElem?_modify, same]

/-- What holds of a node's own label and of every candidate that beats one before holds of the label
chosen, with the difference that it was chosen for. -/
theorem bestLabel_induction {motive : Nat × α → Prop} {own : Nat} {ownGain : α}
    {gains : List (Nat × α)} (start : motive (own, Weight.ofNat 0))
    (step : ∀ best, ∀ candidate ∈ gains, motive best →
      Weight.lt best.2 (candidate.2 - ownGain) = true →
        motive (candidate.1, candidate.2 - ownGain)) :
    ∃ delta, motive (bestLabel own ownGain gains, delta) := by
  have kept : ∀ best : Nat × α, motive best →
      motive (gains.foldl (fun best candidate =>
        let delta := candidate.2 - ownGain
        if Weight.lt best.2 delta then (candidate.1, delta) else best) best) := by
    clear start
    induction gains with
    | nil => exact fun best h => h
    | cons candidate rest ih =>
        intro best h
        have later := ih fun best other hother => step best other (List.mem_cons_of_mem _ hother)
        rw [List.foldl_cons]
        dsimp only
        split
        · next better => exact later _ (step best candidate List.mem_cons_self h better)
        · exact later best h
  exact ⟨_, kept _ start⟩

/-- The label chosen is the node's own or one of those that were weighed. -/
theorem bestLabel_cases (own : Nat) (ownGain : α) (gains : List (Nat × α)) :
    bestLabel own ownGain gains = own ∨ bestLabel own ownGain gains ∈ gains.map Prod.fst := by
  let known (best : Nat × α) : Prop := best.1 = own ∨ best.1 ∈ gains.map Prod.fst
  obtain ⟨_, chosen⟩ : ∃ delta, known (bestLabel own ownGain gains, delta) := by
    apply bestLabel_induction
    · exact .inl rfl
    · intro _ candidate hcandidate _ _
      exact .inr (List.mem_map.mpr ⟨candidate, hcandidate, rfl⟩)
  exact chosen

variable (net resolution volume s) in
/-- The label that a node takes when it is visited. -/
def choice (i : Nat) : Nat :=
  let without := s.adjust (s.label i) (· - net.degree i)
  let gainOf (c : Nat) (weight : α) := gain resolution volume (net.degree i) (without.mass c) weight
  bestLabel (s.label i) (gainOf (s.label i) ((weightsNear net s i).get (s.label i)))
    ((weightsNear net s i).map fun (c, weight) => (c, gainOf c weight))

theorem visit_eq (i : Nat) :
    s.visit net resolution volume i =
      ((s.adjust (s.label i) (· - net.degree i)).relabel i
        (s.choice net resolution volume i)).adjust
          (s.choice net resolution volume i) (· + net.degree i) := rfl

theorem mem_keys_weightsNear {i c : Nat} (h : c ∈ Tally.keys (weightsNear net s i)) :
    ∃ j, net.Joins i j ∧ c = s.label j := by
  rw [weightsNear, Tally.mem_keys_ofList] at h
  obtain ⟨_, ha, rfl⟩ := List.mem_map.mp h
  obtain ⟨entry, hentry, rfl⟩ := List.mem_map.mp ha
  exact ⟨entry.1, Network.joins_of_mem (List.mem_filter.mp hentry).1, rfl⟩

variable (net resolution volume s) in
/-- A node keeps its label or takes that of a neighbour. -/
theorem choice_cases (i : Nat) :
    s.choice net resolution volume i = s.label i ∨
      ∃ j, net.Joins i j ∧ s.choice net resolution volume i = s.label j := by
  refine (bestLabel_cases _ _ _).imp_right fun weighed => ?_
  rw [List.map_map] at weighed
  exact mem_keys_weightsNear weighed

/-- A visit changes the label of the visited node alone. -/
theorem label_visit (i j : Nat) :
    (s.visit net resolution volume i).label j =
      if j = i ∧ i < s.labels.size then s.choice net resolution volume i else s.label j := by
  rw [visit_eq]
  simp only [label, adjust, relabel, Array.getD_eq_getD_getElem?, Array.getElem?_setIfInBounds]
  by_cases same : i = j
  · subst same
    by_cases inside : i < s.labels.size <;> simp [inside]
  · simp [same, Ne.symm same]

/-- What every visit preserves holds of the labels that a level settles on. -/
theorem settle_induction {motive : Labelling α → Prop}
    (reset : ∀ s, motive s → motive { s with moved := false })
    (step : ∀ s, ∀ i < net.size, motive s → motive (s.visit net resolution volume i))
    (sweeps : Nat) (start : motive s) : motive (settle net resolution volume sweeps s) := by
  have swept : ∀ s, motive s → motive (s.sweep net resolution volume) := by
    intro s hs
    have visited : ∀ nodes : List Nat, (∀ i ∈ nodes, i < net.size) → ∀ s, motive s →
        motive (nodes.foldl (visit net resolution volume) s) := by
      intro nodes
      induction nodes with
      | nil => exact fun _ s hs => hs
      | cons i rest ih =>
          intro inside s hs
          obtain ⟨hi, inside⟩ := List.forall_mem_cons.mp inside
          exact ih inside _ (step s i hi hs)
    exact visited _ (fun i hi => List.mem_range.mp hi) _ (reset s hs)
  induction sweeps generalizing s with
  | zero => exact start
  | succ sweeps ih =>
      rw [settle]
      split
      · exact ih (swept s start)
      · exact swept s start

variable (net s) in
/-- There is a label and a mass for each node, and labels are numbers of nodes. -/
structure Bounded : Prop where
  labels_size : s.labels.size = net.size
  masses_size : s.masses.size = net.size
  label_lt : ∀ i < net.size, s.label i < net.size

@[simp] theorem label_initial (net : Network α) (i : Nat) : (initial net).label i = i := by
  by_cases hi : i < net.size <;> simp [initial, label, hi]

theorem initial_bounded (net : Network α) : (initial net).Bounded net := by
  refine ⟨by simp [initial], by simp [initial], fun i hi => ?_⟩
  rwa [label_initial]

namespace Bounded

variable (h : s.Bounded net) (closed : net.Closed)

include h closed

/-- A node chooses the number of a node. -/
theorem choice_lt (hi : i < net.size) : s.choice net resolution volume i < net.size := by
  rcases s.choice_cases net resolution volume i with own | ⟨j, joined, taken⟩
  · exact own ▸ h.label_lt i hi
  · exact taken ▸ h.label_lt j (closed i j joined)

theorem visit (hi : i < net.size) : (s.visit net resolution volume i).Bounded net := by
  refine ⟨?_, ?_, fun j hj => ?_⟩
  · simpa [visit_eq, adjust, relabel] using h.labels_size
  · simpa [visit_eq, adjust, relabel] using h.masses_size
  · rw [label_visit]
    split
    · exact h.choice_lt closed hi
    · exact h.label_lt j hj

end Bounded

end Labelling

namespace Level

variable {α : Type} [Weight α] {level : Level α} {s : Labelling α} {k : Nat}

@[simp] theorem size_contract (level : Level α) (s : Labelling α) :
    (level.contract s).net.size = (s.names level.net).length := by
  simp [contract, Network.size, Labelling.names]

/-- The row of a node of the next level gathers the rows of the nodes with its number. -/
theorem row_contract (level : Level α) (s : Labelling α) (k : Nat) :
    (level.contract s).net.row k =
      Tally.ofList (((List.range level.net.size).filter fun i => s.number level.net i == k).flatMap
        fun i => (level.net.row i).map fun entry => (s.number level.net entry.1, entry.2)) := by
  rw [← Labelling.getElem?_names_map fun nodes => Tally.ofList (nodes.flatMap fun i =>
    (level.net.row i).map fun entry => (s.number level.net entry.1, entry.2))]
  simp [contract, Network.row, Labelling.names, Labelling.number, Tally.ofList]

/-- The group of a node of the next level gathers the groups of the nodes with its number. -/
theorem group_contract (level : Level α) (s : Labelling α) (k : Nat) :
    (level.contract s).group k =
      ((List.range level.net.size).filter fun i => s.number level.net i == k).flatMap
        level.group := by
  rw [← Labelling.getElem?_names_map fun nodes => nodes.flatMap level.group]
  simp [contract, group, Labelling.names]

/-- Two nodes of the next level are joined where two nodes with their numbers are. -/
theorem joins_contract {l : Nat} :
    (level.contract s).net.Joins k l ↔
      ∃ i j, level.net.Joins i j ∧ s.number level.net i = k ∧ s.number level.net j = l := by
  rw [Network.Joins, row_contract, Tally.mem_keys_ofList, Tally.keys, List.mem_map]
  constructor
  · rintro ⟨_, gathered, rfl⟩
    obtain ⟨i, hi, hentry⟩ := List.mem_flatMap.mp gathered
    obtain ⟨entry, listed, rfl⟩ := List.mem_map.mp hentry
    exact ⟨i, entry.1, Network.joins_of_mem listed, beq_iff_eq.mp (List.mem_filter.mp hi).2, rfl⟩
  · rintro ⟨i, j, joined, rfl, rfl⟩
    obtain ⟨entry, hentry, rfl⟩ := List.mem_map.mp joined
    refine ⟨(s.number level.net entry.1, entry.2), List.mem_flatMap.mpr ⟨i, ?_, ?_⟩, rfl⟩
    · have hi := List.mem_range.mpr (Network.lt_size_of_joins joined)
      exact List.mem_filter.mpr ⟨hi, beq_self_eq_true _⟩
    · exact List.mem_map_of_mem hentry

theorem closed_contract (closed : level.net.Closed) (s : Labelling α) :
    (level.contract s).net.Closed := by
  intro k l above
  obtain ⟨i, j, joined, -, rfl⟩ := joins_contract.mp above
  rw [size_contract]
  exact Labelling.number_lt (closed i j joined)

/-- What every contraction to fewer nodes preserves holds of the last level. -/
theorem finish_induction {motive : Level α → Prop} {resolution volume : α}
    (step : ∀ level, motive level →
      (level.contract (level.settled resolution volume)).net.size < level.net.size →
        motive (level.contract (level.settled resolution volume)))
    (start : motive level) : motive (level.finish resolution volume) := by
  fun_induction finish resolution volume level with
  | case1 level next smaller ih => exact ih (step level start smaller)
  | case2 level next last => exact start

end Level

end CallAtlas
