import CallAtlas.Dialect

/-!
# The Java dialect

Methods and constructors are declared inside types, and the types are the scopes. A constructor
call refers to a function with the name of the type, qualified by it.
-/

namespace CallAtlas.Dialect.Java

/-- Names of the standard library. -/
def listed : List String :=
  ["System.out.println", "System.out.print", "System.out.printf", "System.err.println",
   "System.exit", "System.currentTimeMillis", "System.nanoTime", "System.arraycopy",
   "String.valueOf", "String.format", "String.join", "Integer.parseInt", "Integer.valueOf",
   "Long.parseLong", "Double.parseDouble", "Math.max", "Math.min", "Math.abs", "Arrays.asList",
   "Collections.sort", "Collections.emptyList", "Objects.requireNonNull", "Objects.equals",
   "Objects.hash", "Optional.of", "Optional.ofNullable", "Optional.empty", "Thread.sleep",
   "toString", "equals", "hashCode", "getClass", "println", "printf"]

/-- Whether a node declares a type. -/
def isType (tree : SyntaxTree) : Bool :=
  ["class_declaration", "interface_declaration", "enum_declaration",
   "record_declaration"].contains tree.kind

/-- The reference to the constructor of a type, unless the type has no name. -/
def constructorOf (type : String) : Option CallRef :=
  if type.isEmpty then none else some ⟨type, some type⟩

/-- The constructor that one constructor hands over to: another of its type, or one of the type
that its type extends. -/
def chainedConstructor (source : Bytes) (site : Site) : Option CallRef := do
  let owner ← site.ancestors.find? isType
  let target ← site.tree.field? "constructor"
  if target.kind == "this" then
    constructorOf (← owner.fieldText? source "name")
  else if target.kind == "super" then
    let superclass ← owner.field? "superclass"
    let type ← superclass.namedChildren.head?
    constructorOf (bareTypeName (type.text source))
  else none

/-- The reference that a node makes as a call. -/
def callRef (source : Bytes) (site : Site) : Option CallRef :=
  let tree := site.tree
  match tree.kind with
  | "method_invocation" => do
    let name ← tree.fieldText? source "name"
    let object := tree.field? "object"
    return ⟨name, object.bind (textIfKind? source
      ["identifier", "this", "super", "field_access", "scoped_identifier"])⟩
  | "object_creation_expression" => do
    let type ← tree.field? "type"
    constructorOf (bareTypeName (type.text source))
  | "explicit_constructor_invocation" => chainedConstructor source site
  | _ => none

end Java

/-- How Java writes functions, scopes and calls. -/
def java : Dialect where
  header source site :=
    if ["method_declaration", "constructor_declaration"].contains site.tree.kind then
      plainHeader source site.tree
    else none
  scopeName source site :=
    if Java.isType site.tree then site.tree.fieldText? source "name" else none
  callRef := Java.callRef
  listed := Java.listed

end CallAtlas.Dialect
