import CallAtlas.Dialect

/-!
# The Rust dialect

Functions and their bare signatures are declarations. Implementations, traits and modules are the
scopes; an implementation is named for its type.
-/

namespace CallAtlas.Dialect.Rust

/-- Names of the standard library. -/
def listed : List String :=
  ["Some", "Ok", "Err", "Box::new", "Vec::new", "Vec::with_capacity", "String::new",
   "String::from", "HashMap::new", "HashSet::new", "Arc::new", "Rc::new", "unwrap", "expect",
   "unwrap_or", "unwrap_or_default", "clone", "to_string", "to_owned", "into", "iter",
   "into_iter", "collect", "push", "len", "is_empty", "as_str", "as_ref"]

/-- The function that a call names; the arguments for its type parameters are passed over. -/
def callee (source : Bytes) (function : SyntaxTree) : Option CallRef :=
  match function.kind with
  | "identifier" => some ⟨function.text source, none⟩
  | "scoped_identifier" => do
    let name ← function.fieldText? source "name"
    return ⟨name, function.fieldText? source "path"⟩
  | "field_expression" => do
    let name ← function.fieldText? source "field"
    return ⟨name, (function.field? "value").bind (textIfKind? source
      ["identifier", "self", "field_expression", "scoped_identifier"])⟩
  | "generic_function" =>
    match _inner : function.field? "function" with
    | some inner => callee source inner
    | none => none
  | _ => none
  termination_by sizeOf function
  decreasing_by
    exact SyntaxTree.sizeOf_lt_of_mem_children (SyntaxTree.mem_children_of_field? _inner)

/-- The scope that a node opens. -/
def scopeName (source : Bytes) (site : Site) : Option String :=
  match site.tree.kind with
  | "impl_item" => (site.tree.fieldText? source "type").map bareTypeName
  | "trait_item" | "mod_item" => site.tree.fieldText? source "name"
  | _ => none

end Rust

/-- How Rust writes functions, scopes and calls. -/
def rust : Dialect where
  header source site :=
    if ["function_item", "function_signature_item"].contains site.tree.kind then
      plainHeader source site.tree
    else none
  scopeName := Rust.scopeName
  callRef source site :=
    if site.tree.kind == "call_expression" then
      (site.tree.field? "function").bind (Rust.callee source)
    else none
  listed := Rust.listed

end CallAtlas.Dialect
