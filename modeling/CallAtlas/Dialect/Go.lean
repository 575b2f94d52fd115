import CallAtlas.Dialect

/-!
# The Go dialect

Nothing encloses a function. The scope of a method is the type of its receiver, which the
declaration itself names.
-/

namespace CallAtlas.Dialect.Go

/-- Names of the standard library. -/
def listed : List String :=
  ["make", "len", "cap", "append", "copy", "delete", "panic", "recover", "new", "close",
   "fmt.Println", "fmt.Printf", "fmt.Sprintf", "fmt.Errorf", "errors.New", "log.Printf",
   "log.Println", "log.Fatal", "strings.Join", "strconv.Itoa"]

/-- The type of a method's receiver: the first type in the receiver list. -/
def receiverType? (source : Bytes) (tree : SyntaxTree) : Option String := do
  let receiver ← tree.field? "receiver"
  let type ← receiver.namedChildren.findSome? (·.field? "type")
  return bareTypeName (type.text source)

/-- The function that a node declares. -/
def header (source : Bytes) (site : Site) : Option Header :=
  match site.tree.kind with
  | "function_declaration" => plainHeader source site.tree
  | "method_declaration" => plainHeader source site.tree (receiverType? source site.tree)
  | _ => none

/-- The reference that a node makes as a call. -/
def callRef (source : Bytes) (site : Site) : Option CallRef := do
  guard (site.tree.kind == "call_expression")
  let function ← site.tree.field? "function"
  match function.kind with
  | "identifier" => return ⟨function.text source, none⟩
  | "selector_expression" =>
    let name ← function.fieldText? source "field"
    return ⟨name, (function.field? "operand").bind
      (textIfKind? source ["identifier", "selector_expression"])⟩
  | _ => none

end Go

/-- How Go writes functions, scopes and calls. -/
def go : Dialect where
  header := Go.header
  scopeName _ _ := none
  callRef := Go.callRef
  listed := Go.listed

end CallAtlas.Dialect
