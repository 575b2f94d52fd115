import CallAtlas.Proofs.CallGraph.Construction
import CallAtlas.Proofs.Definition.Lookup
import Mathlib.Data.List.Permutation

/-!
# Every call reference is accounted for

Linking sorts outlines and entries, builds an index and folds references into a graph. Here the
result is described from the outlines as they were given: `declared` lists their declarations with
ids, and `programIndex` holds all their definitions. A reference becomes calls to all its targets,
or a warning, or nothing when it may mean a function of the library.

No addition is refused on the way. The caller of a call is a declaration, and its callee is the id
of a definition, which was declared too.
-/

namespace CallAtlas

/-- The declarations of a program with their ids, in the order of its outlines. -/
def declared (outlines : List Outline) : List Entry := outlines.flatMap Outline.entries

/-- The definitions of a program. -/
def programIndex (outlines : List Outline) : Definition.Index :=
  ⟨(declared outlines).map Entry.definition⟩

/-- How many definitions of a program have a name. -/
def sameNamed (outlines : List Outline) (name : String) : Nat :=
  (declared outlines).countP (·.declaration.name = name)

/-- The warning about an open reference of a caller. -/
def warningAbout (outlines : List Outline) (reference : String × CallRef) : Warning :=
  .unresolvedReference reference.1 reference.2.display (sameNamed outlines reference.2.name)

/-- References are ordered by caller, and those of one caller as references. -/
def ReferenceBefore (a b : String × CallRef) : Prop :=
  a.1 < b.1 ∨ a.1 = b.1 ∧ compare a.2 b.2 = .lt

theorem programEntries_perm (outlines : List Outline) :
    (programEntries outlines).Perm (declared outlines) := by
  refine (List.mergeSort_perm _ _).trans ?_
  exact (List.mergeSort_perm outlines _).flatMap_right Outline.entries

theorem programEntries_sorted (outlines : List Outline) :
    (programEntries outlines).Pairwise fun a b => a.id ≤ b.id :=
  Ordered.pairwise_mergeSort_key Entry.id _

/-- Outlines and declarations that stand in order stay as they are. -/
theorem programEntries_of_ordered {outlines : List Outline}
    (files : outlines.Pairwise fun a b => a.file ≤ b.file)
    (ids : (declared outlines).Pairwise fun a b => a.id ≤ b.id) :
    programEntries outlines = declared outlines := by
  rw [programEntries, List.mergeSort_of_pairwise (files.imp fun h => decide_eq_true h)]
  exact List.mergeSort_of_pairwise (ids.imp fun h => decide_eq_true h)

/-- Resolving among the sorted entries is resolving among the definitions as given. -/
theorem resolve_programEntries (outlines : List Outline) (caller : Definition.Index.Place)
    (ref : CallRef) :
    Definition.Index.resolve ⟨(programEntries outlines).map Entry.definition⟩ caller ref =
      (programIndex outlines).resolve caller ref :=
  Definition.Index.resolve_congr ((programEntries_perm outlines).map Entry.definition)

theorem length_addedNamed_programIndex (outlines : List Outline) (name : String) :
    ((programIndex outlines).addedNamed name).length = sameNamed outlines name := by
  rw [sameNamed, List.countP_eq_length_filter, programIndex, Definition.Index.addedNamed,
    List.filter_map, List.length_map]
  rfl

namespace Entry

variable {index : Definition.Index} {entry : Entry} {call : Call}

/-- The references to functions of the program that stay open. -/
def openRefs (index : Definition.Index) (entry : Entry) : List CallRef :=
  entry.declaration.calls.refs.filter fun ref => !(index.resolve entry.place ref).isOk

/-- The open references of an entry, with its id as the caller. -/
def openReferences (index : Definition.Index) (entry : Entry) : List (String × CallRef) :=
  (entry.openRefs index).map (entry.id, ·)

theorem openRefs_increasing (index : Definition.Index) (entry : Entry) :
    (entry.openRefs index).Pairwise fun a b => compare a b = .lt :=
  List.Pairwise.filter _ entry.declaration.calls.increasing

theorem mem_calls_iff :
    call ∈ entry.calls index ↔ call.caller = entry.id ∧ ∃ ref ∈ entry.refs, ∃ targets,
      index.resolve entry.place ref = .ok targets ∧ call.callee ∈ targets := by
  constructor
  · intro h
    obtain ⟨ref, href, hcall⟩ := List.mem_flatMap.mp h
    cases resolved : index.resolve entry.place ref with
    | error candidates => simp [resolved] at hcall
    | ok targets =>
        simp only [resolved] at hcall
        obtain ⟨target, htarget, rfl⟩ := List.mem_map.mp hcall
        exact ⟨rfl, ref, href, targets, resolved, htarget⟩
  · rintro ⟨caller, ref, href, targets, resolved, htarget⟩
    refine List.mem_flatMap.mpr ⟨ref, href, ?_⟩
    simp only [resolved]
    exact List.mem_map.mpr ⟨call.callee, htarget, by rw [← caller]⟩

/-- An entry gives one warning for each open reference, with the number of its candidates. -/
theorem warnings_eq (index : Definition.Index) (entry : Entry) :
    entry.warnings index = (entry.openRefs index).map fun ref =>
      .unresolvedReference entry.id ref.display (index.addedNamed ref.name).length := by
  rw [warnings, openRefs, ← List.filterMap_eq_map', List.filterMap_filter]
  refine List.filterMap_congr fun ref _ => ?_
  cases resolved : index.resolve entry.place ref with
  | ok targets => simp [Except.isOk, Except.toBool]
  | error candidates =>
      have plain := Definition.Index.resolveAmong_of_resolve resolved
      simp [Except.isOk, Except.toBool, Definition.Index.candidates_of_resolveAmong plain]

end Entry

namespace CallGraph

theorem ids_link (outlines : List Outline) :
    (empty.addFunctions ((programEntries outlines).map Entry.node)).ids =
      (link outlines).1.ids := by
  rw [ids, ids, link, nodes_addCalls]

/-- The ids of a linked graph are those of the declarations. -/
theorem mem_ids_link {outlines : List Outline} {id : String} :
    id ∈ (link outlines).1.ids ↔ ∃ entry ∈ declared outlines, entry.id = id := by
  rw [← ids_link, mem_ids_addFunctions]
  constructor
  · rintro (known | ⟨node, hnode, rfl⟩)
    · cases known
    · obtain ⟨entry, hentry, rfl⟩ := List.mem_map.mp hnode
      exact ⟨entry, (programEntries_perm outlines).mem_iff.mp hentry, rfl⟩
  · rintro ⟨entry, hentry, rfl⟩
    have hentry := (programEntries_perm outlines).mem_iff.mpr hentry
    exact Or.inr ⟨entry.node, List.mem_map_of_mem hentry, rfl⟩

/-- Every function of a linked graph is in the file of an outline. -/
theorem exists_outline_of_mem_nodes_link {outlines : List Outline} {node : FunctionNode}
    (h : node ∈ (link outlines).1.nodes) : ∃ outline ∈ outlines, node.file = outline.file := by
  rw [link, nodes_addCalls] at h
  rcases mem_of_mem_nodes_addFunctions h with offered | known
  · obtain ⟨entry, hentry, rfl⟩ := List.mem_map.mp offered
    obtain ⟨outline, houtline, hentry⟩ :=
      List.mem_flatMap.mp ((programEntries_perm outlines).mem_iff.mp hentry)
    refine ⟨outline, houtline, ?_⟩
    obtain ⟨_, _, rfl⟩ := List.mem_map.mp hentry
    rfl
  · cases known

/-- Both ends of a call that an entry makes are declared. -/
theorem ends_of_mem_calls {outlines : List Outline} {entry : Entry}
    (hentry : entry ∈ declared outlines) {call : Call}
    (hcall : call ∈ entry.calls (programIndex outlines)) :
    call.caller ∈ (link outlines).1.ids ∧ call.callee ∈ (link outlines).1.ids := by
  obtain ⟨caller, ref, _, targets, resolved, htarget⟩ := Entry.mem_calls_iff.mp hcall
  obtain ⟨keep, among⟩ := Definition.Index.exists_keep_of_resolve resolved
  obtain ⟨d, hd, _, _, same⟩ :=
    Definition.Index.exists_definition_of_resolveAmong among htarget
  obtain ⟨target, declaredTarget, rfl⟩ := List.mem_map.mp hd
  exact ⟨mem_ids_link.mpr ⟨entry, hentry, caller.symm⟩,
    mem_ids_link.mpr ⟨target, declaredTarget, same⟩⟩

/-- The calls of a linked graph are the calls of its entries, and none of these is refused. -/
theorem mem_calls_link {outlines : List Outline} {call : Call} :
    call ∈ (link outlines).1.calls ↔
      ∃ entry ∈ declared outlines, call ∈ entry.calls (programIndex outlines) := by
  have offered : call ∈ (programEntries outlines).flatMap
      (Entry.calls ⟨(programEntries outlines).map Entry.definition⟩) ↔
      ∃ entry ∈ declared outlines, call ∈ entry.calls (programIndex outlines) := by
    simp only [List.mem_flatMap, (programEntries_perm outlines).mem_iff, Entry.mem_calls_iff,
      resolve_programEntries]
  rw [link, mem_calls_addCalls, offered, ids_link, calls_addFunctions]
  constructor
  · rintro (known | ⟨made, _⟩)
    · cases known
    · exact made
  · rintro ⟨entry, hentry, hcall⟩
    exact Or.inr ⟨⟨entry, hentry, hcall⟩, ends_of_mem_calls hentry hcall⟩

/-- The warnings of a program come entry by entry. -/
theorem warnings_link (outlines : List Outline) :
    (link outlines).2 =
      ((programEntries outlines).flatMap (Entry.openReferences (programIndex outlines))).map
        (warningAbout outlines) := by
  rw [List.map_flatMap]
  refine List.flatMap_congr fun entry _ => ?_
  have refs : entry.openRefs ⟨(programEntries outlines).map Entry.definition⟩ =
      entry.openRefs (programIndex outlines) := by
    simp only [Entry.openRefs, resolve_programEntries]
  have count : ∀ name, (Definition.Index.addedNamed
      ⟨(programEntries outlines).map Entry.definition⟩ name).length = sameNamed outlines name := by
    intro name
    rw [← length_addedNamed_programIndex]
    exact (((programEntries_perm outlines).map Entry.definition).filter _).length_eq
  rw [Entry.warnings_eq, refs, Entry.openReferences, List.map_map]
  simp only [count]
  rfl

/-- Where no two entries share an id, the order of entries and of the references in each is the
order of callers and references. -/
theorem openReferences_ordered {entries : List Entry} (index : Definition.Index)
    (sorted : entries.Pairwise fun a b => a.id ≤ b.id) (distinct : (entries.map Entry.id).Nodup) :
    (entries.flatMap (Entry.openReferences index)).Pairwise ReferenceBefore := by
  rw [List.pairwise_flatMap]
  constructor
  · intro entry _
    refine List.pairwise_map.mpr ((entry.openRefs_increasing index).imp fun before => ?_)
    exact Or.inr ⟨rfl, before⟩
  · refine (sorted.and (List.pairwise_map.mp distinct)).imp fun {a b} hab x hx y hy => ?_
    obtain ⟨_, _, rfl⟩ := List.mem_map.mp hx
    obtain ⟨_, _, rfl⟩ := List.mem_map.mp hy
    exact Or.inl (lt_of_le_of_ne hab.1 hab.2)

/-- Linking accounts for every call reference. The calls are exactly those that references resolve
to, with both ends in the graph. The warnings are about exactly those references to functions of
the program that stay open: declaration by declaration in the order of ids, those of one
declaration in the order of references, and so in the order of callers and references where no
two declarations share an id. -/
theorem link_accounts_for_references (outlines : List Outline) :
    (∀ u v : String, ⟨u, v⟩ ∈ (link outlines).1.calls ↔
      ∃ entry ∈ declared outlines, entry.id = u ∧ ∃ ref : CallRef,
        (ref ∈ entry.declaration.calls.refs ∨ ref ∈ entry.declaration.builtinCalls.refs) ∧
        ∃ targets, (programIndex outlines).resolve entry.place ref = .ok targets ∧
          v ∈ targets) ∧
    (∀ call ∈ (link outlines).1.calls,
      call.caller ∈ (link outlines).1.ids ∧ call.callee ∈ (link outlines).1.ids) ∧
    ∃ entries : List Entry, entries.Perm (declared outlines) ∧
      entries.Pairwise (fun a b => a.id ≤ b.id) ∧
      (∀ entry ∈ entries, (entry.openRefs (programIndex outlines)).Pairwise
        fun a b => compare a b = .lt) ∧
      (link outlines).2 = (entries.flatMap
        (Entry.openReferences (programIndex outlines))).map (warningAbout outlines) ∧
      (((declared outlines).map Entry.id).Nodup →
        (entries.flatMap (Entry.openReferences (programIndex outlines))).Pairwise
          ReferenceBefore) := by
  refine ⟨?_, fun call hcall => (link outlines).1.closed call hcall, programEntries outlines,
    programEntries_perm outlines, programEntries_sorted outlines,
    fun entry _ => entry.openRefs_increasing _, warnings_link outlines, ?_⟩
  · intro u v
    rw [mem_calls_link]
    constructor
    · rintro ⟨entry, hentry, hcall⟩
      obtain ⟨caller, ref, href, targets, resolved, htarget⟩ := Entry.mem_calls_iff.mp hcall
      exact ⟨entry, hentry, caller.symm, ref, List.mem_append.mp href, targets, resolved, htarget⟩
    · rintro ⟨entry, hentry, rfl, ref, href, targets, resolved, htarget⟩
      exact ⟨entry, hentry, Entry.mem_calls_iff.mpr
        ⟨rfl, ref, List.mem_append.mpr href, targets, resolved, htarget⟩⟩
  · intro distinct
    have perm := (programEntries_perm outlines).map Entry.id
    exact openReferences_ordered _ (programEntries_sorted outlines) (perm.nodup_iff.mpr distinct)

/-- A file that is outlined twice, with different calls in its function. -/
def outlinedTwice : List Outline :=
  ["zz", "aa"].map fun callee =>
    { file := "a.py"
      declarations :=
        [{ name := "f", scope := none, signature := "def f()", params := "()", startLine := 1
           endLine := 2, byteRange := (0, 9), code := "def f(): pass"
           calls := .ofList [⟨callee, none⟩], builtinCalls := .empty }] }

/-- Two declarations with one id keep the order of their outlines, so that the warnings are not in
the order of callers and references. -/
theorem warnings_not_in_order_of_references :
    ¬ ∃ references : List (String × CallRef),
      references.Perm ((declared outlinedTwice).flatMap
        (Entry.openReferences (programIndex outlinedTwice))) ∧
      references.Pairwise (fun a b => a = b ∨ ReferenceBefore a b) ∧
      (link outlinedTwice).2 = references.map (warningAbout outlinedTwice) := by
  rintro ⟨references, perm, ordered, warned⟩
  have offered : (declared outlinedTwice).flatMap
      (Entry.openReferences (programIndex outlinedTwice)) =
      [("a.py::f()", ⟨"zz", none⟩), ("a.py::f()", ⟨"aa", none⟩)] := by cbv
  have given : (link outlinedTwice).2 =
      [.unresolvedReference "a.py::f()" "zz" 0, .unresolvedReference "a.py::f()" "aa" 0] := by cbv
  rw [given] at warned
  obtain ⟨first, rest, rfl, hfirst, hrest⟩ := List.map_eq_cons_iff.mp warned.symm
  obtain ⟨second, rest, rfl, hsecond, hrest⟩ := List.map_eq_cons_iff.mp hrest
  rw [offered] at perm
  -- The first warning is about `zz`, which is the greater of the two references.
  have isFirst : first = ("a.py::f()", ⟨"zz", none⟩) := by
    have known := perm.mem_iff.mp List.mem_cons_self
    rcases List.mem_pair.mp known with rfl | rfl
    · rfl
    · exact absurd hfirst (by simp [warningAbout, CallRef.display])
  have isSecond : second = ("a.py::f()", ⟨"aa", none⟩) := by
    have known := perm.mem_iff.mp (List.mem_cons_of_mem _ List.mem_cons_self)
    rcases List.mem_pair.mp known with rfl | rfl
    · exact absurd hsecond (by simp [warningAbout, CallRef.display])
    · rfl
  subst isFirst isSecond
  rcases (List.pairwise_cons.mp ordered).1 _ List.mem_cons_self with same | smaller | ⟨_, smaller⟩
  · exact absurd same (by decide)
  · exact lt_irrefl _ smaller
  · exact absurd smaller (by decide)

end CallGraph

end CallAtlas
