import CallAtlas.CallGraph
import CallAtlas.Definition.Index
import CallAtlas.Error

/-!
# Linking outlines into a call graph

The outlines of all files become one graph. A function's id is made of its file, scope, name and
parameters; when a file declares the same id again, the later ones are numbered. Then every call
reference is resolved among all definitions of the program. A reference that stays open is
dropped, with a warning unless it may mean a function of the library.

Outlines are taken in the order of their files, and entries in the order of their ids, so the
result does not depend on the order in which outlines were made.
-/

namespace CallAtlas

/-- The id of a declaration, before repeated ones are numbered. -/
def Declaration.baseId (d : Declaration) (file : String) : String :=
  match d.scope with
  | some scope => file ++ "::" ++ scope ++ "." ++ d.name ++ d.params
  | none => file ++ "::" ++ d.name ++ d.params

/-- A declaration with the id it was given. -/
structure Entry where
  id : String
  file : String
  declaration : Declaration

namespace Entry

/-- What other functions may mean by calling it. -/
def definition (entry : Entry) : Definition :=
  ⟨entry.id, entry.declaration.name, entry.file, entry.declaration.scope⟩

/-- The function that it adds to the graph. -/
def node (entry : Entry) : FunctionNode :=
  FunctionNode.ofDeclaration entry.id entry.file entry.declaration

/-- Where its calls are made from. -/
def place (entry : Entry) : Definition.Index.Place :=
  ⟨entry.file, entry.declaration.scope⟩

/-- Its references, those to the library last. -/
def refs (entry : Entry) : List CallRef :=
  entry.declaration.calls.refs ++ entry.declaration.builtinCalls.refs

/-- The calls it makes to functions of the program. -/
def calls (index : Definition.Index) (entry : Entry) : List Call :=
  entry.refs.flatMap fun ref =>
    match index.resolve entry.place ref with
    | .ok targets => targets.map fun target => ⟨entry.id, target⟩
    | .error _ => []

/-- The warnings about references that stay open. -/
def warnings (index : Definition.Index) (entry : Entry) : List Warning :=
  entry.declaration.calls.refs.filterMap fun ref =>
    match index.resolve entry.place ref with
    | .ok _ => none
    | .error candidates => some (.unresolvedReference entry.id ref.display candidates)

end Entry

/-- Ids made distinct: the `k`-th one of a kind, for `k` from two on, is marked with `k`. -/
def numberRepeated (earlier : List String) : List String → List String
  | [] => []
  | id :: rest =>
    let k := earlier.count id + 1
    (if k = 1 then id else s!"{id}#{k}") :: numberRepeated (id :: earlier) rest

/-- The declarations of an outline with their ids, in source order. -/
def Outline.entries (outline : Outline) : List Entry :=
  let bases := outline.declarations.map (·.baseId outline.file)
  (outline.declarations.zip (numberRepeated [] bases)).map fun (d, id) => ⟨id, outline.file, d⟩

/-- All declarations of a program in the order of their ids. -/
def programEntries (outlines : List Outline) : List Entry :=
  ((outlines.mergeSort fun a b => a.file ≤ b.file).flatMap Outline.entries).mergeSort
    fun a b => a.id ≤ b.id

namespace CallGraph

/-- A graph with as many of some functions as have new ids. -/
def addFunctions (graph : CallGraph) (nodes : List FunctionNode) : CallGraph :=
  nodes.foldl (fun graph node => (graph.addFunction? node).getD graph) graph

/-- A graph with as many of some calls as have known ends. -/
def addCalls (graph : CallGraph) (calls : List Call) : CallGraph :=
  calls.foldl (fun graph call => (graph.addCall? call).getD graph) graph

/-- The call graph of a program, and the warnings about its open references. -/
def link (outlines : List Outline) : CallGraph × List Warning :=
  let entries := programEntries outlines
  let index : Definition.Index := ⟨entries.map Entry.definition⟩
  let functions := empty.addFunctions (entries.map Entry.node)
  (functions.addCalls (entries.flatMap (Entry.calls index)), entries.flatMap (Entry.warnings index))

end CallGraph

end CallAtlas
