import CallAtlas.Proofs.Definition.Resolution
import CallAtlas.Proofs.SharesOut
import Mathlib.Data.List.Dedup

/-!
# What look-ups answer

There are three look-ups, and each answers the definitions with some attributes. A `Query` is one of
them with the attributes it asks for. One more definition leaves an answer as it is, or is inserted
into it at the place that a search by halving finds for its id. The search needs the answer to be in
the order of ids, and the insertion keeps it so, also among equal ids.

Hence an answer holds exactly the definitions added that the query admits, in the order of ids.
Where ids are distinct, only one list is like that, whatever the order of additions.
-/

namespace CallAtlas.Definition

section Halving

/-- The position at which halving a stretch of positions ends. The upper half is kept unless its
first position is after what is looked for. -/
def halve (isAfter : Nat → Bool) (base size : Nat) : Nat :=
  if size ≤ 1 then base
  else if isAfter (base + size / 2) then halve isAfter base (size - size / 2)
  else halve isAfter (base + size / 2) (size - size / 2)
  termination_by size

/-- Halving ends within the stretch. All later positions are after what is looked for, and the
position itself is not, unless it is the first. -/
theorem halve_spec {isAfter : Nat → Bool} {base size : Nat} (filled : 0 < size)
    (mono : ∀ i j, i ≤ j → j < base + size → isAfter i = true → isAfter j = true) :
    base ≤ halve isAfter base size ∧ halve isAfter base size < base + size ∧
      (∀ i, halve isAfter base size < i → i < base + size → isAfter i = true) ∧
      (halve isAfter base size = base ∨ isAfter (halve isAfter base size) = false) := by
  fun_induction halve isAfter base size with
  | case1 base size small =>
      exact ⟨le_rfl, by omega, fun i above below => by omega, .inl rfl⟩
  | case2 base size large after ih =>
      obtain ⟨above, within, later, here⟩ := ih (by omega) fun i j hij hj =>
        mono i j hij (by omega)
      refine ⟨above, by omega, fun i past below => ?_, here⟩
      by_cases inside : i < base + (size - size / 2)
      · exact later i past inside
      · exact mono (base + size / 2) i (by omega) below after
  | case3 base size large before ih =>
      obtain ⟨above, within, later, here⟩ := ih (by omega) fun i j hij hj =>
        mono i j hij (by omega)
      refine ⟨by omega, by omega, fun i past below => later i past (by omega), .inr ?_⟩
      rcases here with same | here
      · rw [same]
        simpa using before
      · exact here

/-- The position in a list of definitions at which halving for an id ends. -/
def lastNotAfter (id : String) (definitions : List Definition) : Nat :=
  halve (fun i => definitions[i]?.any (id < ·.id)) 0 definitions.length

/-- The place for an id among definitions: behind the position that halving ends at when the id
there is smaller, and else at that position. -/
def slot (id : String) (definitions : List Definition) : Nat :=
  let last := lastNotAfter id definitions
  if definitions[last]?.any (·.id < id) then last + 1 else last

/-- Halving divides a sorted list at a definition: what follows it has a greater id, and its own id
is not greater, unless it is the first. -/
theorem exists_split_at_lastNotAfter (id : String) {definitions : List Definition}
    (sorted : Sorted definitions) (filled : definitions ≠ []) :
    ∃ before d after, definitions = before ++ d :: after ∧
      before.length = lastNotAfter id definitions ∧ (∀ e ∈ after, id < e.id) ∧
      (before = [] ∨ d.id ≤ id) := by
  have mono : ∀ i j, i ≤ j → j < 0 + definitions.length →
      definitions[i]?.any (id < ·.id) = true → definitions[j]?.any (id < ·.id) = true := by
    intro i j hij hj after
    rcases Nat.lt_or_eq_of_le hij with earlier | rfl
    · have hj : j < definitions.length := by omega
      have hi : i < definitions.length := by omega
      have order := List.pairwise_iff_getElem.mp sorted i j hi hj earlier
      simp only [List.getElem?_eq_getElem hi, List.getElem?_eq_getElem hj, Option.any_some,
        decide_eq_true_eq] at after ⊢
      exact after.trans_le order
    · exact after
  obtain ⟨-, within, later, here⟩ := halve_spec (List.length_pos_of_ne_nil filled) mono
  have found : lastNotAfter id definitions < definitions.length := by
    simpa [lastNotAfter] using within
  refine ⟨definitions.take (lastNotAfter id definitions), definitions[lastNotAfter id definitions],
    definitions.drop (lastNotAfter id definitions + 1), ?_, ?_, ?_, ?_⟩
  · rw [List.getElem_cons_drop, List.take_append_drop]
  · rw [List.length_take]
    omega
  · intro e he
    obtain ⟨i, hi, rfl⟩ := List.getElem_of_mem he
    rw [List.length_drop] at hi
    have inside : lastNotAfter id definitions + 1 + i < definitions.length := by omega
    have after := later (lastNotAfter id definitions + 1 + i) (by rw [← lastNotAfter]; omega)
      (by omega)
    rw [List.getElem_drop]
    simpa [List.getElem?_eq_getElem inside] using after
  · rcases here with first | notAfter
    · rw [← lastNotAfter] at first
      simp [first]
    · rw [← lastNotAfter, List.getElem?_eq_getElem found, Option.any_some,
        decide_eq_false_iff_not] at notAfter
      exact .inr (not_lt.mp notAfter)

end Halving

section Insertion

variable {new : Definition} {before after definitions : List Definition}

theorem insertIdx_append (before after : List Definition) (new : Definition) :
    (before ++ after).insertIdx before.length new = before ++ new :: after := by
  induction before with
  | nil => simp
  | cons d rest ih => simpa using ih

/-- A definition whose id is new is placed between the smaller and the greater ids. -/
theorem place_between (smaller : ∀ d ∈ before, d.id < new.id)
    (greater : ∀ d ∈ after, new.id < d.id) :
    place new (before ++ after) = before ++ new :: after := by
  induction before with
  | nil =>
      cases after with
      | nil => rfl
      | cons d rest =>
          have first := greater d List.mem_cons_self
          rw [List.nil_append, place, if_pos (.inl first), List.nil_append]
  | cons d rest ih =>
      obtain ⟨first, smaller⟩ := List.forall_mem_cons.mp smaller
      rw [List.cons_append, place, if_neg, ih smaller, List.cons_append]
      rintro (later | ⟨same, -⟩)
      · exact absurd first (lt_asymm later)
      · exact absurd same first.ne

/-- A definition whose id is known is placed before the last one that has it. -/
theorem place_before_last {last : Definition} (same : last.id = new.id)
    (sorted : Sorted (before ++ last :: after)) (greater : ∀ d ∈ after, new.id < d.id) :
    place new (before ++ last :: after) = before ++ new :: last :: after := by
  induction before with
  | nil =>
      have alone : last.id = new.id ∧ after.head?.map (·.id) ≠ some new.id := by
        refine ⟨same, fun again => ?_⟩
        obtain ⟨d, first, equal⟩ := Option.map_eq_some_iff.mp again
        exact absurd equal (greater d (List.mem_of_mem_head? first)).ne'
      rw [List.nil_append, place, if_pos (.inr alone), List.nil_append]
  | cons d rest ih =>
      obtain ⟨first, sorted⟩ := List.pairwise_cons.mp sorted
      have notLarger : d.id ≤ new.id := same ▸ first last (by simp)
      rw [List.cons_append, place, if_neg, ih sorted, List.cons_append]
      rintro (later | ⟨equal, different⟩)
      · exact absurd later (not_lt.mpr notLarger)
      · -- What follows an equal id is at least as great and comes no later than the last.
        apply different
        cases rest with
        | nil => simp [same]
        | cons e rest =>
            have least := first e (by simp)
            have most : e.id ≤ last.id := (List.pairwise_cons.mp sorted).1 last (by simp)
            simp [le_antisymm (same ▸ most) (equal ▸ least)]

/-- In a sorted list, a definition is placed where halving finds the place for its id. -/
theorem place_eq_insertIdx (sorted : Sorted definitions) :
    place new definitions = definitions.insertIdx (slot new.id definitions) new := by
  by_cases empty : definitions = []
  · subst empty
    simp [slot, lastNotAfter, halve, place]
  · obtain ⟨before, d, after, split, position, greater, here⟩ :=
      exists_split_at_lastNotAfter new.id sorted empty
    have atPosition : definitions[before.length]? = some d := by simp [split]
    rw [slot, ← position, atPosition, Option.any_some]
    rw [split] at sorted ⊢
    have least : ∀ e ∈ before, e.id ≤ d.id := fun e he =>
      (List.pairwise_append.mp sorted).2.2 e he d List.mem_cons_self
    rcases lt_trichotomy d.id new.id with smaller | same | larger
    · have between : ∀ e ∈ before ++ [d], e.id < new.id := by
        intro e he
        rcases List.mem_append.mp he with he | he
        · exact (least e he).trans_lt smaller
        · exact List.mem_singleton.mp he ▸ smaller
      have placed := place_between between greater
      have inserted := insertIdx_append (before ++ [d]) after new
      rw [← placed, List.append_assoc, List.singleton_append, List.length_append] at inserted
      rw [if_pos (decide_eq_true smaller)]
      exact inserted.symm
    · rw [if_neg (by simp [same]), insertIdx_append]
      exact place_before_last same sorted greater
    · have first : before = [] := here.resolve_right (not_le.mpr larger)
      subst first
      have greater : ∀ e ∈ d :: after, new.id < e.id := List.forall_mem_cons.mpr ⟨larger, greater⟩
      rw [if_neg fun smaller => lt_asymm larger (of_decide_eq_true smaller), insertIdx_append]
      exact place_between (List.forall_mem_nil _) greater

end Insertion

namespace Index

/-- A look-up with the attributes that it asks for. -/
inductive Query where
  | inScope (file : String) (scope : Option String) (name : String)
  | inFile (file name : String)
  | named (name : String)

/-- A definition has the attributes that a query asks for. -/
def Query.Admits : Query → Definition → Prop
  | inScope file scope name, d => d.file = file ∧ d.scope = scope ∧ d.name = name
  | inFile file name, d => d.file = file ∧ d.name = name
  | named name, d => d.name = name

instance (query : Query) : DecidablePred query.Admits := fun d =>
  match query with
  | .inScope file scope name =>
    inferInstanceAs (Decidable (d.file = file ∧ d.scope = scope ∧ d.name = name))
  | .inFile file name => inferInstanceAs (Decidable (d.file = file ∧ d.name = name))
  | .named name => inferInstanceAs (Decidable (d.name = name))

/-- What an index answers to a query. -/
def answer (index : Index) : Query → List Definition
  | .inScope file scope name => index.inScope file scope name
  | .inFile file name => index.inFile file name
  | .named name => index.named name

variable {query : Query} {added : List Definition}

theorem answer_eq (index : Index) (query : Query) :
    index.answer query = arrange (index.definitions.filter fun d => query.Admits d) := by
  cases query <;> rfl

theorem answer_sorted (index : Index) (query : Query) : Sorted (index.answer query) := by
  rw [answer_eq]
  exact arrange_sorted _

/-- One more definition is placed in the answers to the queries that admit it, and in no others. -/
theorem answer_add (index : Index) (d : Definition) (query : Query) :
    (index.add d).answer query =
      if query.Admits d then place d (index.answer query) else index.answer query := by
  rw [answer_eq, answer_eq, add, List.filter_append]
  by_cases admitted : query.Admits d
  · simp [admitted, arrange]
  · simp [admitted]

/-- An answer holds the definitions added that the query admits. -/
theorem answer_ofAdditions_perm (added : List Definition) (query : Query) :
    ((ofAdditions added).answer query).Perm (added.filter fun d => query.Admits d) := by
  rw [answer_eq, definitions_ofAdditions]
  exact arrange_perm _

/-- Where ids are distinct, answers do not show the order of additions. -/
theorem answer_eq_of_perm {added' : List Definition} (distinct : (added.map Definition.id).Nodup)
    (perm : added'.Perm added) (query : Query) :
    (ofAdditions added').answer query = (ofAdditions added).answer query := by
  have same : ((ofAdditions added').answer query).Perm ((ofAdditions added).answer query) :=
    (answer_ofAdditions_perm added' query).trans
      ((perm.filter _).trans (answer_ofAdditions_perm added query).symm)
  refine same.eq_of_pairwise ?_ (answer_sorted _ query) (answer_sorted _ query)
  intro a b ha hb hab hba
  have known : ∀ d ∈ (ofAdditions added).answer query, d ∈ added := fun d hd =>
    List.mem_of_mem_filter ((answer_ofAdditions_perm added query).mem_iff.mp hd)
  exact List.inj_on_of_nodup_map distinct (known a (same.mem_iff.mp ha)) (known b hb)
    (le_antisymm hab hba)

/-- The answers for the names of the definitions added share these out. -/
theorem sharesOut_named (added : List Definition) :
    SharesOut added ((added.map Definition.name).dedup.map (ofAdditions added).named) := by
  have named : ∀ name, ((ofAdditions added).named name).Perm (added.filter (·.name == name)) := by
    intro name
    refine (answer_ofAdditions_perm added (.named name)).trans ?_
    refine .of_eq (List.filter_congr fun d _ => ?_)
    exact Bool.eq_iff_iff.mpr (decide_eq_true_iff.trans beq_iff_eq.symm)
  refine ⟨?_, ?_⟩
  · intro group hgroup
    obtain ⟨name, hname, rfl⟩ := List.mem_map.mp hgroup
    obtain ⟨d, hd, rfl⟩ := List.mem_map.mp (List.mem_dedup.mp hname)
    apply List.ne_nil_of_mem
    exact (named d.name).mem_iff.mpr (List.mem_filter.mpr ⟨hd, beq_self_eq_true d.name⟩)
  · rw [← List.flatMap_def]
    refine (List.Perm.flatMap_left _ fun name _ => named name).trans ?_
    refine SharesOut.flatMap_filter_perm Definition.name (List.nodup_dedup _) ?_
    exact fun d hd => List.mem_dedup.mpr (List.mem_map_of_mem hd)

/-- Look-ups answer exactly the definitions added that have the attributes asked for, each as often
as it was added, in the order of ids; so those of one scope are among those of its file, and these
among those of the program. All are counted, and the answers for their names share them out. One
more definition is inserted into the answers that it belongs to, at the place that halving finds.
Where ids are distinct, answers do not show the order of additions. -/
theorem answers_exact (added : List Definition) :
    let index := ofAdditions added
    (∀ query : Query,
      (index.answer query : Multiset Definition) =
          (added : Multiset Definition).filter query.Admits ∧
        (index.answer query).Pairwise fun a b => a.id ≤ b.id) ∧
    (∀ file scope name,
      (index.inScope file scope name : Multiset Definition) ≤ index.inFile file name ∧
        (index.inFile file name : Multiset Definition) ≤ index.named name) ∧
    index.size = added.length ∧
    SharesOut added ((added.map Definition.name).dedup.map index.named) ∧
    (∀ d query, (index.add d).answer query =
      if query.Admits d then
        (index.answer query).insertIdx (slot d.id (index.answer query)) d
      else index.answer query) ∧
    ((added.map Definition.id).Nodup → ∀ added', added'.Perm added → ∀ query,
      (ofAdditions added').answer query = index.answer query) := by
  intro index
  have answered : ∀ query : Query, (index.answer query : Multiset Definition) =
      (added : Multiset Definition).filter query.Admits := by
    intro query
    rw [Multiset.filter_coe]
    exact Multiset.coe_eq_coe.mpr (answer_ofAdditions_perm added query)
  refine ⟨fun query => ⟨answered query, answer_sorted index query⟩, ?_, ?_,
    sharesOut_named added, ?_,
    fun distinct added' perm query => answer_eq_of_perm distinct perm query⟩
  · intro file scope name
    have inScope := answered (.inScope file scope name)
    have inFile := answered (.inFile file name)
    have named := answered (.named name)
    simp only [answer] at inScope inFile named
    rw [inScope, inFile, named]
    refine ⟨Multiset.monotone_filter_right _ ?_, Multiset.monotone_filter_right _ ?_⟩
    · rintro d ⟨hfile, -, hname⟩
      exact ⟨hfile, hname⟩
    · rintro d ⟨-, hname⟩
      exact hname
  · rw [Index.size, definitions_ofAdditions]
  · intro d query
    rw [answer_add, place_eq_insertIdx (answer_sorted index query)]

/-- Functions of one name in three files are answered in the order of ids, though they were added in
the reverse order. -/
theorem answers_exact_sameNamedModules :
    (sameNamedModules.map Definition.id).Nodup ∧
      sameNamedModules.reverse.Perm sameNamedModules ∧
      (ofAdditions sameNamedModules.reverse).named "load" = sameNamedModules := by
  have distinct : (sameNamedModules.map Definition.id).Nodup := by decide +kernel
  have sorted : (ofAdditions sameNamedModules).named "load" = sameNamedModules := by
    decide +kernel
  obtain ⟨-, -, -, -, -, orderless⟩ := answers_exact sameNamedModules
  have same := orderless distinct _ sameNamedModules.reverse_perm (.named "load")
  exact ⟨distinct, sameNamedModules.reverse_perm, same.trans sorted⟩

end Index

end CallAtlas.Definition
