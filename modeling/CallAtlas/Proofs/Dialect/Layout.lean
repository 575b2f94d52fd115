import CallAtlas.Dialect.Python
import CallAtlas.Proofs.CallGraph.Identity
import CallAtlas.Proofs.Dialect.Scopes
import CallAtlas.Proofs.Text.Words

/-!
# Ids and the layout of parameters

A base id depends on the file, on the names around a function, on its own name and on the words of
its parameters, and on nothing else of the source. A file that is laid out anew has other offsets,
lines and texts, but the same nodes with the same names, and parameters with the same words. So its
functions keep their ids, and so does one among several with the same base id.

The words are all that is forgotten: functions that differ in them have different base ids.
-/

namespace CallAtlas

open Text (SameWords collapse)

namespace Header

/-- The base id that a header gives to a function in a file, given the names that enclose it. -/
def baseId (header : Header) (scope : List String) (file : String) : String :=
  match Dialect.joinScope (scope ++ header.receiver.toList) with
  | some scope => file ++ "::" ++ scope ++ "." ++ header.name ++ collapse header.params
  | none => file ++ "::" ++ header.name ++ collapse header.params

/-- Headers of the same function, perhaps with another layout of its parameters. -/
structure Relaid (h h' : Header) : Prop where
  name : h.name = h'.name
  receiver : h.receiver = h'.receiver
  params : SameWords h.params h'.params

instance (h h' : Header) : Decidable (h.Relaid h') :=
  decidable_of_iff (h.name = h'.name ∧ h.receiver = h'.receiver ∧ SameWords h.params h'.params)
    ⟨fun ⟨name, receiver, params⟩ => ⟨name, receiver, params⟩,
      fun ⟨name, receiver, params⟩ => ⟨name, receiver, params⟩⟩

instance : DecidableRel (Option.Rel Relaid)
  | none, none => isTrue .none
  | none, some _ => isFalse nofun
  | some _, none => isFalse nofun
  | some h, some h' => decidable_of_iff (h.Relaid h') ⟨.some, fun (.some relaid) => relaid⟩

variable {h h' : Header}

/-- Functions of one name in one scope have the same base id when their parameters have the same
words, and only then. -/
theorem baseId_eq_iff (name : h.name = h'.name) (receiver : h.receiver = h'.receiver)
    (scope : List String) (file : String) :
    h.baseId scope file = h'.baseId scope file ↔ SameWords h.params h'.params := by
  rw [baseId, baseId, ← name, ← receiver, ← Text.collapse_eq_iff]
  cases Dialect.joinScope (scope ++ h.receiver.toList) <;> exact String.append_right_inj _

theorem Relaid.baseId_eq (relaid : h.Relaid h') (scope : List String) (file : String) :
    h.baseId scope file = h'.baseId scope file :=
  (baseId_eq_iff relaid.name relaid.receiver scope file).mpr relaid.params

end Header

theorem Outline.ids_eq (outline : Outline) :
    outline.entries.map Entry.id = numberRepeated [] outline.baseIds := by
  refine List.ext_getElem? fun i => ?_
  rw [getElem?_ids, getElem?_numberRepeated, baseIds, List.getElem?_map, Option.map_map]
  simp [Function.comp_def, rank, baseIds]

theorem SyntaxTree.site?_eq_none {root : SyntaxTree} {p : Position}
    (outside : p ∉ root.positions) : root.site? p = none := by
  rw [Option.eq_none_iff_forall_ne_some]
  exact fun site here => outside (mem_positions.mpr ⟨site, here⟩)

namespace Dialect

variable {dialect : Dialect} {source source' : Bytes} {root root' : SyntaxTree} {p : Position}

/-- Neither the text nor the place of a declaration has part in its base id. -/
theorem baseId_declaration (scope : List String) (site : Site) (header : Header) (file : String) :
    (dialect.declaration source scope site header).baseId file = header.baseId scope file := rfl

/-- The scope that the node at a position opens. -/
def scopeAt? (dialect : Dialect) (source : Bytes) (root : SyntaxTree) (position : Position) :
    Option String :=
  (root.site? position).bind (dialect.scopeName source)

/-- Two sources with their trees are layouts of one file: the trees have the same positions, and at
each of them the dialect finds the same scope and the same header, up to the layout of
parameters. -/
structure Relaid (dialect : Dialect) (source source' : Bytes) (root root' : SyntaxTree) : Prop where
  positions : root.positions = root'.positions
  header : ∀ p ∈ root.positions, Option.Rel Header.Relaid
    (dialect.headerAt? source root p) (dialect.headerAt? source' root' p)
  scope : ∀ p ∈ root.positions, dialect.scopeAt? source root p = dialect.scopeAt? source' root' p

/-- The names that a node gives are known from its header and its scope. -/
theorem elim_namesOf (p : Position) :
    (root.site? p).elim [] (dialect.namesOf source) =
      (dialect.headerAt? source root p).elim (dialect.scopeAt? source root p).toList
        fun header => header.receiver.toList ++ [header.name] := by
  rw [headerAt?, scopeAt?]
  cases root.site? p with
  | none => rfl
  | some site =>
      rw [Option.elim_some, namesOf, Option.bind_some, Option.bind_some]
      cases dialect.header source site <;> rfl

theorem map_baseId_declarationAt? (file : String) :
    (dialect.declarationAt? source root p).map (·.baseId file) =
      (dialect.headerAt? source root p).map
        (·.baseId (dialect.namesAround source root p) file) := by
  rw [declarationAt?, headerAt?]
  cases root.site? p with
  | none => rfl
  | some site =>
      rw [Option.bind_some, Option.bind_some, Option.map_map]
      rfl

namespace Relaid

variable (relaid : dialect.Relaid source source' root root')
include relaid

/-- Where one tree has no node, the other has none either. -/
theorem inside_or_outside (p : Position) :
    p ∈ root.positions ∨ root.site? p = none ∧ root'.site? p = none := by
  by_cases inside : p ∈ root.positions
  · exact .inl inside
  · have outside : p ∉ root'.positions := relaid.positions ▸ inside
    exact .inr ⟨SyntaxTree.site?_eq_none inside, SyntaxTree.site?_eq_none outside⟩

theorem header_at (p : Position) : Option.Rel Header.Relaid
    (dialect.headerAt? source root p) (dialect.headerAt? source' root' p) := by
  rcases relaid.inside_or_outside p with inside | ⟨nowhere, nowhere'⟩
  · exact relaid.header p inside
  · rw [headerAt?, headerAt?, nowhere, nowhere']
    exact .none

theorem scopeAt?_eq (p : Position) :
    dialect.scopeAt? source root p = dialect.scopeAt? source' root' p := by
  rcases relaid.inside_or_outside p with inside | ⟨nowhere, nowhere'⟩
  · exact relaid.scope p inside
  · rw [scopeAt?, scopeAt?, nowhere, nowhere']
    rfl

theorem namesAround_eq (p : Position) :
    dialect.namesAround source root p = dialect.namesAround source' root' p := by
  refine List.flatMap_congr fun q _ => ?_
  rw [elim_namesOf, elim_namesOf, relaid.scopeAt?_eq q]
  have answers := relaid.header_at q
  generalize dialect.headerAt? source root q = h, dialect.headerAt? source' root' q = h'
    at answers ⊢
  cases answers with
  | none => rfl
  | some same => rw [Option.elim_some, Option.elim_some, same.name, same.receiver]

theorem baseId_eq (p : Position) (file : String) :
    (dialect.declarationAt? source root p).map (·.baseId file) =
      (dialect.declarationAt? source' root' p).map (·.baseId file) := by
  rw [map_baseId_declarationAt?, map_baseId_declarationAt?, relaid.namesAround_eq p]
  have answers := relaid.header_at p
  generalize dialect.headerAt? source root p = h, dialect.headerAt? source' root' p = h'
    at answers ⊢
  cases answers with
  | none => rfl
  | some same => rw [Option.map_some, Option.map_some, same.baseId_eq]

/-- In another layout, a file has the same base ids in the same order. -/
theorem map_baseId_declarations (file : String) :
    (dialect.declarations source root).map (·.baseId file) =
      (dialect.declarations source' root').map (·.baseId file) := by
  have below : SyntaxTree.positionsFrom 0 root.children =
      SyntaxTree.positionsFrom 0 root'.children := by
    have positions := relaid.positions
    cases root
    cases root'
    simpa [SyntaxTree.children] using positions
  rw [declarations_eq, declarations_eq, List.map_filterMap, List.map_filterMap, below]
  exact List.filterMap_congr fun p _ => relaid.baseId_eq p file

end Relaid

/-- A collapsed text stands for the words of a text, which are determined by it: it is the same for
two texts just when they have the same words, it is its own collapsed form, its only blanks are
single spaces between words, and it keeps the other characters in their order. So functions that
differ at most in their parameters have the same base id just when these have the same words, and
another layout of a file changes none of its ids. -/
theorem ids_up_to_layout :
    (∀ s : String, ∃! ws, Text.Spells ws s.toList) ∧
    (∀ s t : String, collapse s = collapse t ↔ SameWords s t) ∧
    (∀ s : String, collapse (collapse s) = collapse s ∧ Text.Tidy (collapse s).toList ∧
      (collapse s).toList.filter (fun c => !Text.isBlank c) =
        s.toList.filter (fun c => !Text.isBlank c)) ∧
    (∀ (dialect : Dialect) (source source' : Bytes) (scope : List String) (site site' : Site)
      (header : Header) (params : String) (signatureEnd : Nat) (file : String),
      (dialect.declaration source scope site header).baseId file =
        (dialect.declaration source' scope site' { header with params, signatureEnd }).baseId file ↔
          SameWords header.params params) ∧
    (∀ (dialect : Dialect) (source source' : Bytes) (root root' : SyntaxTree) (file : String),
      dialect.Relaid source source' root root' →
        (Outline.mk file (dialect.declarations source root)).entries.map Entry.id =
          (Outline.mk file (dialect.declarations source' root')).entries.map Entry.id) := by
  refine ⟨fun s => Text.existsUnique_spells s.toList, fun s t => Text.collapse_eq_iff, ?_, ?_, ?_⟩
  · exact fun s => ⟨Text.collapse_collapse s, Text.tidy_collapse s, Text.filter_collapse s⟩
  · intro dialect source source' scope site site' header params signatureEnd file
    rw [baseId_declaration, baseId_declaration]
    refine Header.baseId_eq_iff ?_ ?_ scope file <;> rfl
  · intro dialect source source' root root' file relaid
    rw [Outline.ids_eq, Outline.ids_eq]
    exact congrArg (numberRepeated []) (relaid.map_baseId_declarations file)

/-- The tree of two functions, one after the other, each with its parameters at its end. -/
def twoFunctions (middle stop : Nat) : SyntaxTree :=
  .node ⟨"module", true, false, false, false, 0, stop, []⟩
    [function 0 middle, function (middle + 1) stop]
where
  /-- A function that is named by its first byte. -/
  function (start stop : Nat) : SyntaxTree :=
    .node ⟨"function_definition", true, false, false, false, start, stop,
        [("name", 0), ("parameters", 1)]⟩
      [.node ⟨"identifier", true, false, false, false, start, start + 1, []⟩ [],
        .node ⟨"parameters", true, false, false, false, start + 1, stop, []⟩ []]

/-- Two functions with parameters `a` and `b`, in three layouts of these. -/
theorem ids_up_to_layout_twoFunctions :
    let source : Bytes := [102, 40, 97, 44, 32, 98, 41, 10, 102, 40, 97, 44, 32, 98, 41]
    let source' : Bytes :=
      [102, 40, 97, 44, 10, 9, 98, 41, 10, 102, 40, 97, 44, 32, 32, 98, 41]
    python.Relaid source source' (twoFunctions 7 15) (twoFunctions 8 17) ∧
      (Outline.mk "m.py" (python.declarations source' (twoFunctions 8 17))).entries.map Entry.id =
        ["m.py::f(a, b)", "m.py::f(a, b)#2"] := by
  intro source source'
  have relaid : python.Relaid source source' (twoFunctions 7 15) (twoFunctions 8 17) :=
    ⟨by decide, by decide +kernel, by decide +kernel⟩
  obtain ⟨-, -, -, -, kept⟩ := ids_up_to_layout
  refine ⟨relaid, (kept python _ _ _ _ "m.py" relaid).symm.trans ?_⟩
  decide +kernel

end Dialect

end CallAtlas
