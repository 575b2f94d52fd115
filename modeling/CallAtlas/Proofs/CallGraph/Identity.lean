import CallAtlas.Proofs.CallGraph.References
import Mathlib.Data.List.Nodup

/-!
# Ids tell declarations apart

The id of a declaration is its file, two colons, and what it declares, with a number behind a hash
when the file declares the same again. The parts may hold any of these signs themselves. Two facts
make the ids distinct all the same: a path without colons ends at the first colon of an id, and a
base id that ends in a parenthesis never looks numbered, since a number ends in a digit and has no
hash.

Where paths and parameters have this form, no declaration is lost: `Identified` says which id each
one gets and that the graph has a function for each.
-/

namespace CallAtlas

/-- The id of the `k`-th declaration with a base id. -/
def markedId (base : String) (k : Nat) : String := if k = 1 then base else s!"{base}#{k}"

/-- A text that ends in a closing parenthesis. -/
def EndsClosed (text : String) : Prop := ∃ inner : String, text = inner ++ ")"

section Texts

variable {a b c d : List Char} {sep : Char}

/-- The last separator divides a text in one way. -/
theorem append_last_sep_inj (hb : sep ∉ b) (hd : sep ∉ d) (h : a ++ sep :: b = c ++ sep :: d) :
    a = c ∧ b = d := by
  rcases List.append_eq_append_iff.mp h with ⟨mid, rfl, hmid⟩ | ⟨mid, rfl, hmid⟩
  · cases mid with
    | nil => exact ⟨(List.append_nil a).symm, (List.cons.inj hmid).2⟩
    | cons x mid => exact absurd ((List.cons.inj hmid).2 ▸ by simp) hb
  · cases mid with
    | nil => exact ⟨List.append_nil c, (List.cons.inj hmid).2.symm⟩
    | cons x mid => exact absurd ((List.cons.inj hmid).2 ▸ by simp) hd

/-- The first separator divides a text in one way. -/
theorem append_first_sep_inj (ha : sep ∉ a) (hc : sep ∉ c) (h : a ++ sep :: b = c ++ sep :: d) :
    a = c := by
  have reversed : b.reverse ++ sep :: a.reverse = d.reverse ++ sep :: c.reverse := by
    simpa using congrArg List.reverse h
  have inj := append_last_sep_inj (by simpa using ha) (by simpa using hc) reversed
  exact List.reverse_injective inj.2

theorem isDigit_of_mem_repr {k : Nat} {x : Char} (h : x ∈ (toString k).toList) :
    x.isDigit = true := by
  rw [Nat.toString_eq_repr, Nat.toList_repr] at h
  exact Nat.isDigit_of_mem_toDigits (by decide) (by decide) h

/-- A number is read off its digits. -/
theorem toList_toString_inj {k k' : Nat} (h : (toString k).toList = (toString k').toList) :
    k = k' := by
  rw [Nat.toString_eq_repr, Nat.toString_eq_repr, Nat.toList_repr, Nat.toList_repr] at h
  rw [← Nat.ofDigitChars_ten_toDigits (n := k), h, Nat.ofDigitChars_ten_toDigits]

end Texts

theorem toList_markedId {base : String} {k : Nat} (h : k ≠ 1) :
    (markedId base k).toList = base.toList ++ '#' :: (toString k).toList := by
  simp [markedId, h, toString]

/-- A text that ends in a parenthesis does not end in a number. -/
theorem EndsClosed.toList_ne {text : String} (closed : EndsClosed text) (front : List Char)
    (k : Nat) : text.toList ≠ front ++ (toString k).toList := by
  obtain ⟨inner, rfl⟩ := closed
  intro h
  have nonempty : (toString k).toList ≠ [] := by
    rw [Nat.toString_eq_repr, Nat.toList_repr]
    exact Nat.toDigits_ne_nil
  rw [← List.dropLast_append_getLast nonempty, String.toList_append, ← List.append_assoc] at h
  have last : ')' = (toString k).toList.getLast nonempty :=
    (List.cons.inj (List.append_inj' h rfl).2).1
  have digit := isDigit_of_mem_repr (last ▸ List.getLast_mem nonempty)
  exact absurd digit (by decide)

/-- Base ids that end in a parenthesis are read off their marked forms, and so are the marks. -/
theorem markedId_inj {base base' : String} {k k' : Nat} (closed : EndsClosed base)
    (closed' : EndsClosed base') (h : markedId base k = markedId base' k') :
    base = base' ∧ k = k' := by
  have noHash : ∀ n : Nat, '#' ∉ (toString n).toList := fun n hmem =>
    absurd (isDigit_of_mem_repr hmem) (by decide)
  have lists := congrArg String.toList h
  -- A marked id ends in a digit and a base id does not, so both are marked or none is.
  by_cases hk : k = 1 <;> by_cases hk' : k' = 1
  · simp only [markedId, hk, hk', if_true] at h
    exact ⟨h, hk.trans hk'.symm⟩
  · rw [toList_markedId hk'] at lists
    simp only [markedId, hk, if_true] at lists
    exact absurd (lists.trans (List.append_cons ..)) (closed.toList_ne _ k')
  · rw [toList_markedId hk] at lists
    simp only [markedId, hk', if_true] at lists
    exact absurd (lists.symm.trans (List.append_cons ..)) (closed'.toList_ne _ k)
  · rw [toList_markedId hk, toList_markedId hk'] at lists
    obtain ⟨bases, marks⟩ := append_last_sep_inj (noHash k) (noHash k') lists
    exact ⟨String.toList_inj.mp bases, toList_toString_inj marks⟩

/-- The id at a position: its base, marked with one more than the number of times that the base
occurs before. -/
theorem getElem?_numberRepeated (earlier bases : List String) (i : Nat) :
    (numberRepeated earlier bases)[i]? = bases[i]?.map fun base =>
      markedId base (earlier.count base + (bases.take i).count base + 1) := by
  induction bases generalizing earlier i with
  | nil => simp [numberRepeated]
  | cons first rest ih =>
      cases i with
      | zero => simp [numberRepeated, markedId]
      | succ i =>
          rw [numberRepeated, List.getElem?_cons_succ, ih, List.getElem?_cons_succ]
          refine Option.map_congr fun base _ => ?_
          rw [List.take_succ_cons, List.count_cons, List.count_cons]
          congr 1
          omega

/-- The base ids of an outline, in source order. -/
def Outline.baseIds (outline : Outline) : List String :=
  outline.declarations.map (·.baseId outline.file)

/-- Which declaration with its base id the one at a position is, counted from one. -/
def Outline.rank (outline : Outline) (i : Nat) (d : Declaration) : Nat :=
  (outline.baseIds.take i).count (d.baseId outline.file) + 1

/-- Every declaration of an outline has an entry, with its base id marked by its rank. -/
theorem Outline.getElem?_entries (outline : Outline) (i : Nat) :
    outline.entries[i]? = outline.declarations[i]?.map fun d =>
      ⟨markedId (d.baseId outline.file) (outline.rank i d), outline.file, d⟩ := by
  have ids : (numberRepeated [] outline.baseIds)[i]? = outline.declarations[i]?.map fun d =>
      markedId (d.baseId outline.file) (outline.rank i d) := by
    rw [getElem?_numberRepeated, baseIds, List.getElem?_map, Option.map_map]
    simp [Function.comp_def, rank, baseIds]
  rw [baseIds] at ids
  rw [entries, List.getElem?_map, List.zip, List.getElem?_zipWith, ids]
  cases outline.declarations[i]? <;> rfl

/-- A base id begins with its file and a colon. -/
theorem Declaration.exists_toList_baseId (d : Declaration) (file : String) :
    ∃ rest, (d.baseId file).toList = file.toList ++ ':' :: rest := by
  unfold baseId
  split
  · exact ⟨_, by simp only [String.toList_append, List.append_assoc]; rfl⟩
  · exact ⟨_, by simp only [String.toList_append, List.append_assoc]; rfl⟩

theorem Declaration.endsClosed_baseId {d : Declaration} (closed : EndsClosed d.params)
    (file : String) : EndsClosed (d.baseId file) := by
  obtain ⟨inner, hparams⟩ := closed
  unfold baseId
  rw [hparams]
  split
  · exact ⟨_, (String.append_assoc ..).symm⟩
  · exact ⟨_, (String.append_assoc ..).symm⟩

namespace Outline

variable {outline : Outline}

/-- An entry is that of a declaration of its outline. -/
theorem exists_of_mem_entries {entry : Entry} (h : entry ∈ outline.entries) :
    ∃ i d, outline.declarations[i]? = some d ∧
      entry = ⟨markedId (d.baseId outline.file) (outline.rank i d), outline.file, d⟩ := by
  obtain ⟨i, hi⟩ := List.mem_iff_getElem?.mp h
  rw [getElem?_entries] at hi
  obtain ⟨d, hd, rfl⟩ := Option.map_eq_some_iff.mp hi
  exact ⟨i, d, hd, rfl⟩

/-- Later declarations with the same base id have higher ranks. -/
theorem rank_lt_rank {i j : Nat} {d e : Declaration} (hij : i < j)
    (hd : outline.declarations[i]? = some d)
    (same : d.baseId outline.file = e.baseId outline.file) :
    outline.rank i d < outline.rank j e := by
  have base : outline.baseIds[i]? = some (e.baseId outline.file) := by
    rw [baseIds, List.getElem?_map, hd, ← same]
    rfl
  have here : (outline.baseIds.take (i + 1)).count (e.baseId outline.file) =
      (outline.baseIds.take i).count (e.baseId outline.file) + 1 := by
    rw [List.take_add_one, base, Option.toList_some, List.count_append, List.count_singleton_self]
  have later : (outline.baseIds.take (i + 1)).count (e.baseId outline.file) ≤
      (outline.baseIds.take j).count (e.baseId outline.file) :=
    (List.take_sublist_take_left hij).count_le _
  rw [rank, rank, same]
  omega

theorem getElem?_ids (outline : Outline) (i : Nat) :
    (outline.entries.map Entry.id)[i]? = outline.declarations[i]?.map fun d =>
      markedId (d.baseId outline.file) (outline.rank i d) := by
  rw [List.getElem?_map, getElem?_entries, Option.map_map]
  rfl

/-- The ids of one file are distinct when parameters end in a parenthesis. -/
theorem ids_nodup (closed : ∀ d ∈ outline.declarations, EndsClosed d.params) :
    (outline.entries.map Entry.id).Nodup := by
  rw [List.nodup_iff_getElem?_ne_getElem?]
  intro i j hij hj same
  obtain ⟨id, hid⟩ : ∃ id, (outline.entries.map Entry.id)[j]? = some id :=
    ⟨_, List.getElem?_eq_getElem hj⟩
  rw [hid, getElem?_ids] at same
  rw [getElem?_ids] at hid
  obtain ⟨d, hd, hid'⟩ := Option.map_eq_some_iff.mp same
  obtain ⟨e, he, rfl⟩ := Option.map_eq_some_iff.mp hid
  have endsD := Declaration.endsClosed_baseId (closed d (List.mem_of_getElem? hd)) outline.file
  have endsE := Declaration.endsClosed_baseId (closed e (List.mem_of_getElem? he)) outline.file
  -- The rank of the later declaration counts the earlier one.
  obtain ⟨bases, ranks⟩ := markedId_inj endsD endsE hid'
  exact absurd ranks (Nat.ne_of_lt (rank_lt_rank hij hd bases))

/-- The file of an entry stands before the first colon of its id. -/
theorem exists_toList_id {entry : Entry} (h : entry ∈ outline.entries) :
    ∃ rest, entry.id.toList = outline.file.toList ++ ':' :: rest := by
  obtain ⟨i, d, _, rfl⟩ := exists_of_mem_entries h
  obtain ⟨rest, hrest⟩ := d.exists_toList_baseId outline.file
  by_cases first : outline.rank i d = 1
  · exact ⟨rest, by simpa only [markedId, first, if_true] using hrest⟩
  · refine ⟨rest ++ '#' :: (toString (outline.rank i d)).toList, ?_⟩
    rw [toList_markedId first, hrest, List.append_assoc, List.cons_append]

/-- Two files without colons share no id. -/
theorem ids_disjoint {other : Outline} (plain : ':' ∉ outline.file.toList)
    (plain' : ':' ∉ other.file.toList) (apart : outline.file ≠ other.file) :
    (outline.entries.map Entry.id).Disjoint (other.entries.map Entry.id) := by
  intro id hid hid'
  obtain ⟨entry, hentry, rfl⟩ := List.mem_map.mp hid
  obtain ⟨entry', hentry', same⟩ := List.mem_map.mp hid'
  obtain ⟨rest, hrest⟩ := exists_toList_id hentry
  obtain ⟨rest', hrest'⟩ := exists_toList_id hentry'
  have files := append_first_sep_inj plain plain' (hrest.symm.trans (same ▸ hrest'))
  exact apart (String.toList_inj.mp files)

end Outline

/-- All ids of a program are distinct when no two paths are equal, no path has a colon and all
parameters end in a parenthesis. -/
theorem declared_ids_nodup {outlines : List Outline} (paths : (outlines.map Outline.file).Nodup)
    (plain : ∀ outline ∈ outlines, ':' ∉ outline.file.toList)
    (closed : ∀ outline ∈ outlines, ∀ d ∈ outline.declarations, EndsClosed d.params) :
    ((declared outlines).map Entry.id).Nodup := by
  rw [declared, List.map_flatMap, List.nodup_flatMap]
  refine ⟨fun outline h => Outline.ids_nodup (closed outline h), ?_⟩
  refine (List.pairwise_map.mp paths).imp_of_mem fun {a b} ha hb apart => ?_
  exact Outline.ids_disjoint (plain a ha) (plain b hb) apart

/-- What ids do for a program: they are distinct, the graph has exactly one function for each
declaration, with its id and all its data, and the first declaration of a file with a base id keeps
it, while the `k`-th one is marked with `k`. -/
structure Identified (outlines : List Outline) : Prop where
  distinct : ((declared outlines).map Entry.id).Nodup
  nodes : (CallGraph.link outlines).1.nodes.Perm ((declared outlines).map fun entry =>
    { id := entry.id
      name := entry.declaration.name
      file := entry.file
      scope := entry.declaration.scope
      signature := entry.declaration.signature
      startLine := entry.declaration.startLine
      endLine := entry.declaration.endLine
      code := entry.declaration.code
      cluster := none })
  entries : ∀ outline ∈ outlines, ∀ i : Nat,
    outline.entries[i]? = outline.declarations[i]?.map fun d =>
      ⟨markedId (d.baseId outline.file) (outline.rank i d), outline.file, d⟩

theorem nodes_link_perm {outlines : List Outline}
    (distinct : ((declared outlines).map Entry.id).Nodup) :
    (CallGraph.link outlines).1.nodes.Perm ((declared outlines).map Entry.node) := by
  have perm := programEntries_perm outlines
  have ids : (((programEntries outlines).map Entry.node).map FunctionNode.id ++
      CallGraph.empty.ids).Nodup := by
    rw [List.map_map, show FunctionNode.id ∘ Entry.node = Entry.id from rfl]
    simpa [CallGraph.empty, CallGraph.ids] using (perm.map Entry.id).nodup_iff.mpr distinct
  have added := CallGraph.nodes_addFunctions_perm ids
  rw [CallGraph.link, CallGraph.nodes_addCalls]
  refine added.trans ?_
  simpa [CallGraph.empty] using perm.map Entry.node

/-- No declared function is lost where paths are distinct and have no colon, and parameters end in
a parenthesis, whatever names, scopes and parameters hold besides. -/
theorem identified_of_plain_paths (outlines : List Outline)
    (paths : (outlines.map Outline.file).Nodup)
    (plain : ∀ outline ∈ outlines, ':' ∉ outline.file.toList)
    (closed : ∀ outline ∈ outlines, ∀ d ∈ outline.declarations, EndsClosed d.params) :
    Identified outlines := by
  have distinct := declared_ids_nodup paths plain closed
  exact ⟨distinct, nodes_link_perm distinct, fun outline _ => outline.getElem?_entries⟩

/-- Two files whose declarations collide in names, scopes and parameters: a repeated function, a
function named like a numbered one, and a scope with the signs that divide an id. -/
def collidingNames : List Outline :=
  let declare (name : String) (scope : Option String) (params : String) : Declaration :=
    { name, scope, params, signature := name, startLine := 1, endLine := 1, byteRange := (0, 1)
      code := name, calls := .empty, builtinCalls := .empty }
  [{ file := "b.py"
     declarations := [declare "f" none "(a)", declare "f" none "(a)", declare "f" none "(a)#2()"] },
   { file := "a.py"
     declarations := [declare "f" (some "x::y") "(a)", declare "y.f" (some "x::y") "(a)",
       declare "f" (some "x::y") "(a)", declare "f" none "(a)"] }]

theorem identified_collidingNames :
    (collidingNames.map Outline.file).Nodup ∧ Identified collidingNames ∧
      (declared collidingNames).map Entry.id =
        ["b.py::f(a)", "b.py::f(a)#2", "b.py::f(a)#2()", "a.py::x::y.f(a)", "a.py::x::y.y.f(a)",
          "a.py::x::y.f(a)#2", "a.py::f(a)"] := by
  have paths : (collidingNames.map Outline.file).Nodup := by decide
  have plain : ∀ outline ∈ collidingNames, ':' ∉ outline.file.toList := by decide
  refine ⟨paths, identified_of_plain_paths collidingNames paths plain ?_, by cbv⟩
  have closed : ∀ text ∈ ["(a)", "(a)#2()"], EndsClosed text := by
    intro text h
    rcases List.mem_pair.mp h with rfl | rfl
    · exact ⟨"(a", rfl⟩
    · exact ⟨"(a)#2(", rfl⟩
  intro outline hOutline d hd
  exact closed _ (by revert outline d; decide)

end CallAtlas
