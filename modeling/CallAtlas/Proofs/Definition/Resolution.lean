import CallAtlas.Proofs.Definition.Lookup
import Mathlib.Data.Multiset.Filter
import Mathlib.Data.Multiset.Sort

/-!
# The rule of resolution

What a call means is a matter of the definitions with its name, taken as a collection without an
order: `tier?` says which of some definitions a caller prefers, and `meaning?` how a qualifier
narrows the choice. Resolution in an index is this rule, whatever was added besides and in whatever
order. The look-ups of the index, each sorted by insertion and filtered afterwards, come down to
collections that are filtered first and sorted once.

The rule tells when a qualifier counts. It does when a definition that it names is in the caller's
file, or when it names only one. When it names several in other files, the plain tiers decide, and
these may prefer a definition of the caller's file that the qualifier does not name.
-/

namespace CallAtlas.Definition.Index

/-- The index after some additions, one after another. -/
def ofAdditions (added : List Definition) : Index := added.foldl add {}

/-- Those of some definitions that are in the caller's file. -/
def inOwnFile (caller : Place) (definitions : Multiset Definition) : Multiset Definition :=
  definitions.filter fun d => d.file = caller.file

/-- Those of some definitions that are in the caller's file and scope. -/
def inOwnScope (caller : Place) (definitions : Multiset Definition) : Multiset Definition :=
  definitions.filter fun d => d.file = caller.file ∧ d.scope = caller.scope

/-- The definitions that a caller prefers among some: those in its own file and scope, or else
those in its file, or else the only one. -/
def tier? (caller : Place) (definitions : Multiset Definition) : Option (Multiset Definition) :=
  if inOwnScope caller definitions ≠ 0 then some (inOwnScope caller definitions)
  else if inOwnFile caller definitions ≠ 0 then some (inOwnFile caller definitions)
  else if definitions.card = 1 then some definitions
  else none

/-- The ids of some definitions in ascending order, each as often as it occurs. -/
def ascendingIds (definitions : Multiset Definition) : List String :=
  (definitions.map Definition.id).sort

/-- The ids of the definitions that a caller prefers. -/
def tiers (caller : Place) (definitions : Multiset Definition) : Option (List String) :=
  (tier? caller definitions).map ascendingIds

/-- A qualifier that may name a container, and not just the caller's own type or module. -/
def NamesContainer (qualifier : String) : Prop :=
  qualifier ∉ ["this", "self", "Self", "cls", "super"]

instance (qualifier : String) : Decidable (NamesContainer qualifier) :=
  inferInstanceAs (Decidable (qualifier ∉ _))

/-- The definitions with a name. -/
def withName (name : String) (added : List Definition) : Multiset Definition :=
  (added : Multiset Definition).filter fun d => d.name = name

/-- Those of some definitions that a qualifier names. -/
def matching (qualifier : String) (definitions : Multiset Definition) : Multiset Definition :=
  definitions.filter fun d => d.matchesQualifier qualifier = true

/-- The targets of a call among the definitions with its name: as the tiers have it among those
that the qualifier names, and failing that, as they have it among all. -/
def meaning? (caller : Place) (qualifier : Option String) (definitions : Multiset Definition) :
    Option (List String) :=
  match qualifier with
  | none => tiers caller definitions
  | some q =>
    if NamesContainer q then
      (tiers caller (matching q definitions)).or (tiers caller definitions)
    else tiers caller definitions

section Tiers

variable {definitions chosen : Multiset Definition} {caller : Place} {targets : List String}
variable {target : String}

theorem mem_ascendingIds :
    target ∈ ascendingIds definitions ↔ ∃ d ∈ definitions, d.id = target := by
  rw [ascendingIds, Multiset.mem_sort, Multiset.mem_map]

@[simp] theorem length_ascendingIds (definitions : Multiset Definition) :
    (ascendingIds definitions).length = definitions.card := by
  rw [ascendingIds, Multiset.length_sort, Multiset.card_map]

@[simp] theorem ascendingIds_eq_nil_iff : ascendingIds definitions = [] ↔ definitions = 0 := by
  rw [← List.length_eq_zero_iff, length_ascendingIds, Multiset.card_eq_zero]

theorem mem_inOwnFile {d : Definition} :
    d ∈ inOwnFile caller definitions ↔ d ∈ definitions ∧ d.file = caller.file :=
  Multiset.mem_filter

theorem mem_inOwnScope {d : Definition} :
    d ∈ inOwnScope caller definitions ↔
      d ∈ definitions ∧ d.file = caller.file ∧ d.scope = caller.scope :=
  Multiset.mem_filter

theorem inOwnFile_eq_zero_iff :
    inOwnFile caller definitions = 0 ↔ ∀ d ∈ definitions, d.file ≠ caller.file :=
  Multiset.filter_eq_nil

/-- What a caller prefers: some of the definitions, and none from elsewhere when its own file has
one. -/
theorem chosen_of_tier? (preferred : tier? caller definitions = some chosen) :
    chosen ≠ 0 ∧ chosen ⊆ definitions ∧
      ((∃ d ∈ definitions, d.file = caller.file) → ∀ d ∈ chosen, d.file = caller.file) := by
  unfold tier? at preferred
  split at preferred
  · next inScope =>
    obtain rfl := Option.some.inj preferred
    exact ⟨inScope, fun d hd => (mem_inOwnScope.mp hd).1, fun _ d hd => (mem_inOwnScope.mp hd).2.1⟩
  · split at preferred
    · next inFile =>
      obtain rfl := Option.some.inj preferred
      exact ⟨inFile, fun d hd => (mem_inOwnFile.mp hd).1, fun _ d hd => (mem_inOwnFile.mp hd).2⟩
    · next elsewhere =>
      split at preferred
      · next single =>
        obtain rfl := Option.some.inj preferred
        refine ⟨?_, fun d hd => hd, ?_⟩
        · rintro rfl
          cases single
        · rintro ⟨d, hd, here⟩
          exact absurd here (inOwnFile_eq_zero_iff.mp (not_not.mp elsewhere) d hd)
      · cases preferred

/-- A caller prefers nothing when its file has none of the definitions and they are not just one. -/
theorem tier?_eq_none_iff :
    tier? caller definitions = none ↔
      (∀ d ∈ definitions, d.file ≠ caller.file) ∧ definitions.card ≠ 1 := by
  rw [← inOwnFile_eq_zero_iff, tier?]
  by_cases elsewhere : inOwnFile caller definitions = 0
  · have outOfScope : inOwnScope caller definitions = 0 := by
      refine Multiset.filter_eq_nil.mpr fun d hd inScope => ?_
      exact inOwnFile_eq_zero_iff.mp elsewhere d hd inScope.1
    simp [elsewhere, outOfScope]
  · split_ifs <;> simp [elsewhere]

/-- The targets that the tiers give are ids of the definitions preferred, at least one of them. -/
theorem exists_of_tiers (preferred : tiers caller definitions = some targets) :
    targets ≠ [] ∧ ∀ target ∈ targets, ∃ d ∈ definitions, d.id = target ∧
      ((∃ d ∈ definitions, d.file = caller.file) → d.file = caller.file) := by
  obtain ⟨chosen, hchosen, rfl⟩ := Option.map_eq_some_iff.mp preferred
  obtain ⟨nonzero, among, near⟩ := chosen_of_tier? hchosen
  refine ⟨mt ascendingIds_eq_nil_iff.mp nonzero, ?_⟩
  intro target listed
  obtain ⟨d, hd, same⟩ := mem_ascendingIds.mp listed
  exact ⟨d, among hd, same, fun here => near here d hd⟩

theorem tiers_eq_none_iff :
    tiers caller definitions = none ↔
      (∀ d ∈ definitions, d.file ≠ caller.file) ∧ definitions.card ≠ 1 := by
  rw [tiers, Option.map_eq_none_iff, tier?_eq_none_iff]

theorem exists_tiers_iff :
    (∃ targets, tiers caller definitions = some targets) ↔
      (∃ d ∈ definitions, d.file = caller.file) ∨ definitions.card = 1 := by
  rw [← Option.ne_none_iff_exists', ne_eq, tiers_eq_none_iff, not_and_or, not_not]
  simp only [ne_eq, not_forall, not_not, exists_prop]

end Tiers

section Resolution

theorem definitions_foldl_add (added : List Definition) (index : Index) :
    (added.foldl add index).definitions = index.definitions ++ added := by
  induction added generalizing index with
  | nil => exact (List.append_nil _).symm
  | cons d rest ih => rw [List.foldl_cons, ih, add, List.append_assoc, List.singleton_append]

@[simp] theorem definitions_ofAdditions (added : List Definition) :
    (ofAdditions added).definitions = added :=
  definitions_foldl_add added {}

theorem coe_addedNamed (added : List Definition) (name : String) :
    ((ofAdditions added).addedNamed name : Multiset Definition) = withName name added := by
  rw [addedNamed, definitions_ofAdditions, withName, Multiset.filter_coe]

/-- Sorting by insertion and filtering gives what filtering and sorting gives. -/
theorem sortedIds_eq_ascendingIds (definitions : List Definition) (keep : Definition → Bool) :
    sortedIds definitions keep =
      ascendingIds ((definitions : Multiset Definition).filter fun d => keep d = true) := by
  refine List.Perm.eq_of_pairwise (fun a b _ _ => le_antisymm)
    (sortedIds_sorted definitions keep) (Multiset.pairwise_sort _ _) ?_
  refine (sortedIds_perm definitions keep).trans (Multiset.coe_eq_coe.mp ?_)
  rw [ascendingIds, Multiset.sort_eq, Multiset.filter_coe, Multiset.map_coe]
  simp

/-- The choice between lists of ids is the choice of a tier. -/
theorem chooseTier_eq_tiers (caller : Place) (definitions : Multiset Definition) (n : Nat) :
    chooseTier (ascendingIds (inOwnScope caller definitions))
        (ascendingIds (inOwnFile caller definitions)) (ascendingIds definitions) n =
      (tiers caller definitions).elim (.error n) .ok := by
  simp only [chooseTier, tiers, tier?, ne_eq, ascendingIds_eq_nil_iff, length_ascendingIds]
  split_ifs <;> rfl

theorem resolveAmong_eq_tiers (added : List Definition) (caller : Place) (name : String)
    (keep : Definition → Bool) :
    (ofAdditions added).resolveAmong caller name keep =
      (tiers caller ((withName name added).filter fun d => keep d = true)).elim
        (.error (withName name added).card) .ok := by
  rw [resolveAmong_eq, ← chooseTier_eq_tiers]
  simp only [sortedIds_eq_ascendingIds, ← Multiset.filter_coe, ← Multiset.coe_card, coe_addedNamed,
    inOwnScope, inOwnFile]
  rw [Multiset.filter_comm, Multiset.filter_comm (fun d : Definition => d.file = caller.file)]

/-- Resolution is the rule, in every index that additions can make. -/
theorem resolve_eq_meaning (added : List Definition) (caller : Place) (ref : CallRef) :
    (ofAdditions added).resolve caller ref =
      (meaning? caller ref.qualifier (withName ref.name added)).elim
        (.error (withName ref.name added).card) .ok := by
  have plain := resolveAmong_eq_tiers added caller ref.name fun _ => true
  simp only [Multiset.filter_true] at plain
  unfold resolve meaning?
  cases ref.qualifier with
  | none => exact plain
  | some q =>
      dsimp only
      by_cases own : q ∈ ownQualifiers
      · have noContainer : ¬ NamesContainer q := not_not.mpr own
        rw [if_pos own, if_neg noContainer, plain]
      · have container : NamesContainer q := own
        have narrowed := resolveAmong_eq_tiers added caller ref.name (·.matchesQualifier q)
        rw [if_neg own, if_pos container, narrowed, plain, ← matching]
        cases tiers caller (matching q (withName ref.name added)) <;> rfl

/-- A call that means nothing means nothing without its qualifier either. -/
theorem tiers_of_meaning?_eq_none {caller : Place} {qualifier : Option String}
    {definitions : Multiset Definition}
    (failed : meaning? caller qualifier definitions = none) : tiers caller definitions = none := by
  unfold meaning? at failed
  split at failed
  · exact failed
  · split at failed
    · exact (Option.or_eq_none_iff.mp failed).2
    · exact failed

/-- The rule of resolution. The answer to a call follows from the definitions with its name: no
other addition matters and neither does the order of additions. A call without an answer is told
the number of these definitions, which is never one. -/
theorem resolution_rule (added : List Definition) (caller : Place) (ref : CallRef) :
    (ofAdditions added).resolve caller ref =
        (meaning? caller ref.qualifier (withName ref.name added)).elim
          (.error (withName ref.name added).card) .ok ∧
      (∀ n, (ofAdditions added).resolve caller ref = .error n →
        n = (withName ref.name added).card ∧ n ≠ 1) ∧
      ∀ added', withName ref.name added' = withName ref.name added →
        (ofAdditions added').resolve caller ref = (ofAdditions added).resolve caller ref := by
  refine ⟨resolve_eq_meaning added caller ref, ?_, ?_⟩
  · intro n failed
    rw [resolve_eq_meaning] at failed
    cases answer : meaning? caller ref.qualifier (withName ref.name added) with
    | some targets =>
        rw [answer] at failed
        cases failed
    | none =>
        rw [answer] at failed
        obtain rfl := Except.error.inj failed
        exact ⟨rfl, (tiers_eq_none_iff.mp (tiers_of_meaning?_eq_none answer)).2⟩
  · intro added' same
    rw [resolve_eq_meaning, resolve_eq_meaning, same]

/-- A function of one file, and one of the same name in each of two modules that share a name. -/
def sameNamedModules : List Definition :=
  [⟨"app.py::load()", "load", "app.py", none⟩,
    ⟨"net/util.py::load()", "load", "net/util.py", none⟩,
    ⟨"store/util.py::load()", "load", "store/util.py", none⟩]

/-- From a fourth file the call is open, and so is one with the qualifier that two of the modules
share. One with the qualifier of the third is not. None of this depends on the order of additions
and on what else was added. -/
theorem resolution_rule_sameNamedModules :
    let added := ⟨"main.py::save()", "save", "main.py", none⟩ :: sameNamedModules.reverse
    let caller : Place := ⟨"main.py", none⟩
    withName "load" added = withName "load" sameNamedModules ∧
      (ofAdditions added).resolve caller ⟨"load", none⟩ = .error 3 ∧
      (ofAdditions added).resolve caller ⟨"load", some "util"⟩ = .error 3 ∧
      (ofAdditions added).resolve caller ⟨"load", some "app"⟩ = .ok ["app.py::load()"] := by
  intro added caller
  have same : withName "load" added = withName "load" sameNamedModules := by decide +kernel
  have bare := (resolution_rule sameNamedModules caller ⟨"load", none⟩).2.2 added same
  have shared := (resolution_rule sameNamedModules caller ⟨"load", some "util"⟩).2.2 added same
  have single := (resolution_rule sameNamedModules caller ⟨"load", some "app"⟩).2.2 added same
  refine ⟨same, bare.trans ?_, shared.trans ?_, single.trans ?_⟩ <;> decide +kernel

end Resolution

section Qualifiers

variable {added : List Definition} {caller : Place} {d : Definition} {name q : String}
variable {targets : List String}

theorem mem_withName : d ∈ withName name added ↔ d ∈ added ∧ d.name = name := by
  rw [withName, Multiset.mem_filter, Multiset.mem_coe]

theorem mem_matching_withName :
    d ∈ matching q (withName name added) ↔
      d ∈ added ∧ d.name = name ∧ d.matchesQualifier q = true := by
  rw [matching, Multiset.mem_filter, mem_withName, and_assoc]

/-- Where the tiers prefer some of what a qualifier names, these are the answer. -/
theorem resolve_of_preferred (container : NamesContainer q)
    (preferred : tiers caller (matching q (withName name added)) = some targets) :
    (ofAdditions added).resolve caller ⟨name, some q⟩ = .ok targets := by
  rw [resolve_eq_meaning, meaning?, if_pos container, preferred]
  rfl

/-- Where the tiers prefer nothing of what a qualifier names, the qualifier is left out. -/
theorem resolve_of_unpreferred (container : NamesContainer q)
    (unpreferred : tiers caller (matching q (withName name added)) = none) :
    (ofAdditions added).resolve caller ⟨name, some q⟩ =
      (ofAdditions added).resolve caller ⟨name, none⟩ := by
  rw [resolve_eq_meaning, meaning?, if_pos container, unpreferred, Option.none_or,
    resolve_eq_meaning, meaning?]

/-- A qualifier that names several definitions names several of those with the name. -/
theorem card_withName_ne_one
    (known : ∃ d ∈ added, d.name = name ∧ d.matchesQualifier q = true)
    (several : (matching q (withName name added)).card ≠ 1) : (withName name added).card ≠ 1 := by
  obtain ⟨d, hd⟩ := known
  have one : 0 < (matching q (withName name added)).card :=
    Multiset.card_pos_iff_exists_mem.mpr ⟨d, mem_matching_withName.mpr hd⟩
  have all : (matching q (withName name added)).card ≤ (withName name added).card :=
    Multiset.card_le_card (Multiset.filter_le _ _)
  omega

/-- A call without a qualifier stays open when several definitions have its name, all in other
files. -/
theorem resolve_of_elsewhere (elsewhere : ∀ d ∈ added, d.name = name → d.file ≠ caller.file)
    (several : (withName name added).card ≠ 1) :
    (ofAdditions added).resolve caller ⟨name, none⟩ = .error (withName name added).card := by
  have unpreferred : tiers caller (withName name added) = none := by
    refine tiers_eq_none_iff.mpr ⟨fun d hd => ?_, several⟩
    obtain ⟨hadded, hname⟩ := mem_withName.mp hd
    exact elsewhere d hadded hname
  rw [resolve_eq_meaning, meaning?, unpreferred]
  rfl

/-- A call without a qualifier means definitions of the caller's file when there are some. -/
theorem exists_resolve_of_inFile (here : ∃ d ∈ added, d.name = name ∧ d.file = caller.file) :
    ∃ targets, (ofAdditions added).resolve caller ⟨name, none⟩ = .ok targets ∧ targets ≠ [] ∧
      ∀ target ∈ targets, ∃ d ∈ added, d.name = name ∧ d.file = caller.file ∧ d.id = target := by
  have inFile : ∃ d ∈ withName name added, d.file = caller.file := by
    obtain ⟨d, hadded, hname, hfile⟩ := here
    exact ⟨d, mem_withName.mpr ⟨hadded, hname⟩, hfile⟩
  obtain ⟨targets, preferred⟩ := exists_tiers_iff.mpr (.inl inFile)
  obtain ⟨nonempty, among⟩ := exists_of_tiers preferred
  refine ⟨targets, ?_, nonempty, ?_⟩
  · rw [resolve_eq_meaning, meaning?, preferred]
    rfl
  · intro target listed
    obtain ⟨d, hd, same, near⟩ := among target listed
    obtain ⟨hadded, hname⟩ := mem_withName.mp hd
    exact ⟨d, hadded, hname, near inFile, same⟩

/-- An answer heeds a qualifier when all its targets are definitions that the qualifier names. -/
def Heeds (added : List Definition) (name q : String) (answer : Except Nat (List String)) : Prop :=
  ∀ targets, answer = .ok targets → ∀ target ∈ targets,
    ∃ d ∈ added, d.name = name ∧ d.matchesQualifier q = true ∧ d.id = target

theorem heeds_of_preferred
    (preferred : tiers caller (matching q (withName name added)) = some targets) :
    Heeds added name q (.ok targets) := by
  intro targets' answered target listed
  obtain rfl := Except.ok.inj answered
  obtain ⟨d, hd, same, -⟩ := (exists_of_tiers preferred).2 target listed
  obtain ⟨hadded, hname, named⟩ := mem_matching_withName.mp hd
  exact ⟨d, hadded, hname, named, same⟩

/-- When a qualifier that names something counts. If one of the definitions that it names is in the
caller's file, or if there is only one, the answer is what the tiers prefer among those. Otherwise
the call is taken as if it had no qualifier: it stays open where the caller's file has no definition
with the name, and else it means definitions of that file, none of which the qualifier names. -/
theorem qualifier_heeded_unless_ambiguous (added : List Definition) (caller : Place)
    (name q : String) (container : NamesContainer q)
    (known : ∃ d ∈ added, d.name = name ∧ d.matchesQualifier q = true) :
    let answer := (ofAdditions added).resolve caller ⟨name, some q⟩
    let meant := matching q (withName name added)
    ((∃ d ∈ meant, d.file = caller.file) ∨ meant.card = 1 →
      ∃ targets, answer = .ok targets ∧ tiers caller meant = some targets ∧
        Heeds added name q answer) ∧
    (¬ ((∃ d ∈ meant, d.file = caller.file) ∨ meant.card = 1) →
      answer = (ofAdditions added).resolve caller ⟨name, none⟩ ∧
      ((∀ d ∈ added, d.name = name → d.file ≠ caller.file) →
        answer = .error (withName name added).card) ∧
      ((∃ d ∈ added, d.name = name ∧ d.file = caller.file) →
        ∃ targets, answer = .ok targets ∧ targets ≠ [] ∧ ∀ target ∈ targets,
          ∃ d ∈ added, d.name = name ∧ d.file = caller.file ∧ d.matchesQualifier q = false ∧
            d.id = target)) := by
  intro answer meant
  constructor
  · intro counts
    obtain ⟨targets, preferred⟩ := exists_tiers_iff.mpr counts
    have answered : answer = .ok targets := resolve_of_preferred container preferred
    exact ⟨targets, answered, preferred, answered ▸ heeds_of_preferred preferred⟩
  · intro ambiguous
    obtain ⟨apart, several⟩ := not_or.mp ambiguous
    have unpreferred : tiers caller meant = none :=
      tiers_eq_none_iff.mpr ⟨fun d hd here => apart ⟨d, hd, here⟩, several⟩
    have plain : answer = _ := resolve_of_unpreferred container unpreferred
    refine ⟨plain, ?_, ?_⟩
    · intro elsewhere
      exact plain.trans (resolve_of_elsewhere elsewhere (card_withName_ne_one known several))
    · intro here
      obtain ⟨targets, answered, nonempty, among⟩ := exists_resolve_of_inFile here
      refine ⟨targets, plain.trans answered, nonempty, ?_⟩
      intro target listed
      obtain ⟨d, hadded, hname, hfile, same⟩ := among target listed
      refine ⟨d, hadded, hname, hfile, ?_, same⟩
      by_contra named
      have hmeant : d ∈ meant :=
        mem_matching_withName.mpr ⟨hadded, hname, eq_true_of_ne_false named⟩
      exact apart ⟨d, hmeant, hfile⟩

/-- A qualifier that names two modules counts in one of them. -/
theorem qualifier_heeded_sameNamedModules :
    let answer := (ofAdditions sameNamedModules).resolve ⟨"net/util.py", some "main"⟩
      ⟨"load", some "util"⟩
    NamesContainer "util" ∧
      (∃ d ∈ sameNamedModules, d.name = "load" ∧ d.matchesQualifier "util" = true) ∧
      answer = .ok ["net/util.py::load()"] ∧ Heeds sameNamedModules "load" "util" answer := by
  intro answer
  have container : NamesContainer "util" := by decide
  have known : ∃ d ∈ sameNamedModules, d.name = "load" ∧ d.matchesQualifier "util" = true := by
    decide +kernel
  have inFile : ∃ d ∈ matching "util" (withName "load" sameNamedModules),
      d.file = "net/util.py" :=
    ⟨⟨"net/util.py::load()", "load", "net/util.py", none⟩,
      mem_matching_withName.mpr (by decide +kernel), rfl⟩
  obtain ⟨_, -, -, heeded⟩ := (qualifier_heeded_unless_ambiguous sameNamedModules
    ⟨"net/util.py", some "main"⟩ "load" "util" container known).1 (.inl inFile)
  exact ⟨container, known, by decide +kernel, heeded⟩

/-- From a third file, the same qualifier is ignored: the call means a function of that file, though
the qualifier names two others. -/
theorem ambiguous_qualifier_ignored :
    let answer := (ofAdditions sameNamedModules).resolve ⟨"app.py", some "main"⟩
      ⟨"load", some "util"⟩
    NamesContainer "util" ∧
      (∃ d ∈ sameNamedModules, d.name = "load" ∧ d.matchesQualifier "util" = true) ∧
      answer = .ok ["app.py::load()"] ∧ ¬ Heeds sameNamedModules "load" "util" answer := by
  intro answer
  have answered : answer = .ok ["app.py::load()"] := by decide +kernel
  refine ⟨by decide, by decide +kernel, answered, ?_⟩
  intro heeded
  obtain ⟨d, hd, -, named, same⟩ := heeded _ answered _ List.mem_cons_self
  revert d
  decide +kernel

end Qualifiers

end CallAtlas.Definition.Index
