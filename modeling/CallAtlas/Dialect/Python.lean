import CallAtlas.Dialect

/-!
# The Python dialect

Functions and methods are declared alike, and classes are the scopes.
-/

namespace CallAtlas.Dialect.Python

/-- Names of the standard library. -/
def listed : List String :=
  ["print", "len", "range", "enumerate", "zip", "sorted", "reversed", "list", "dict", "set",
   "tuple", "str", "int", "float", "bool", "bytes", "isinstance", "issubclass", "getattr",
   "setattr", "hasattr", "super", "open", "min", "max", "sum", "any", "all", "repr", "iter",
   "next", "append", "extend", "join", "format", "os.path.join", "os.path.exists", "json.dumps",
   "json.loads", "logging.getLogger"]

/-- The reference that a node makes as a call. -/
def callRef (source : Bytes) (site : Site) : Option CallRef := do
  guard (site.tree.kind == "call")
  let function ← site.tree.field? "function"
  match function.kind with
  | "identifier" => return ⟨function.text source, none⟩
  | "attribute" =>
    let name ← function.fieldText? source "attribute"
    return ⟨name, (function.field? "object").bind
      (textIfKind? source ["identifier", "attribute"])⟩
  | _ => none

end Python

/-- How Python writes functions, scopes and calls. -/
def python : Dialect where
  header source site :=
    if site.tree.kind == "function_definition" then plainHeader source site.tree else none
  scopeName source site :=
    if site.tree.kind == "class_definition" then site.tree.fieldText? source "name" else none
  callRef := Python.callRef
  listed := Python.listed

end CallAtlas.Dialect
