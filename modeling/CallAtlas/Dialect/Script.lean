import CallAtlas.Dialect

/-!
# The dialect of TypeScript and JavaScript

The two languages write functions, classes and calls alike. A variable whose value is a function
is a declaration too, and its parameters are those of the value.
-/

namespace CallAtlas.Dialect.Script

/-- Names of the standard library. -/
def listed : List String :=
  ["console.log", "console.error", "console.warn", "console.info", "JSON.stringify",
   "JSON.parse", "Object.keys", "Object.values", "Object.entries", "Object.assign",
   "Array.isArray", "Array.from", "Promise.resolve", "Promise.reject", "Promise.all",
   "Math.max", "Math.min", "Math.floor", "parseInt", "parseFloat", "setTimeout", "setInterval",
   "clearTimeout", "require", "push", "map", "filter", "forEach", "reduce", "then", "catch"]

/-- The parameters of a function value: a list, or a single name without parentheses. -/
def valueParams (source : Bytes) (value : SyntaxTree) : String :=
  match value.fieldText? source "parameters", value.fieldText? source "parameter" with
  | some params, _ => params
  | none, some param => "(" ++ param ++ ")"
  | none, none => "()"

/-- The function that a variable declares by having one as its value. -/
def variableHeader (source : Bytes) (tree : SyntaxTree) : Option Header := do
  let value ← tree.field? "value"
  guard (["arrow_function", "function_expression", "function",
    "generator_function"].contains value.kind)
  let name ← tree.field? "name"
  guard (name.kind == "identifier")
  return { name := name.text source
           params := valueParams source value
           receiver := none
           signatureEnd := plainHeader.bodyStart value }

/-- The function that a node declares. -/
def header (source : Bytes) (site : Site) : Option Header :=
  match site.tree.kind with
  | "function_declaration" | "generator_function_declaration" | "method_definition" =>
    plainHeader source site.tree
  | "variable_declarator" => variableHeader source site.tree
  | _ => none

/-- The reference that a node makes as a call. -/
def callRef (source : Bytes) (site : Site) : Option CallRef :=
  match site.tree.kind with
  | "call_expression" => do
    let function ← site.tree.field? "function"
    match function.kind with
    | "identifier" => return ⟨function.text source, none⟩
    | "member_expression" =>
      let name ← function.fieldText? source "property"
      return ⟨name, (function.field? "object").bind
        (textIfKind? source ["identifier", "this", "super", "member_expression"])⟩
    | _ => none
  | "new_expression" => do
    let type ← site.tree.field? "constructor"
    guard (type.kind == "identifier")
    return ⟨"constructor", some (type.text source)⟩
  | _ => none

end Script

/-- How TypeScript and JavaScript write functions, scopes and calls. -/
def script : Dialect where
  header := Script.header
  scopeName source site :=
    if ["class_declaration", "abstract_class_declaration", "class"].contains site.tree.kind then
      site.tree.fieldText? source "name"
    else none
  callRef := Script.callRef
  listed := Script.listed

end CallAtlas.Dialect
