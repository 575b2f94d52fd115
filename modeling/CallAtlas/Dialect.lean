import CallAtlas.Declaration
import CallAtlas.Syntax.Tree
import CallAtlas.Text.Blank
import CallAtlas.Text.Segment

/-!
# Reading declarations off a syntax tree

A dialect answers three questions about a node in its context: does it declare a function, does it
open a named scope, is it a call. The walk below is the same for all of them. A function's scope
is made of the names around it, and a call belongs to the innermost function that encloses it.

The walk is defined for any answers to the three questions, and what is proved about it holds
for every dialect.
-/

namespace CallAtlas

/-- What a dialect says about a node that declares a function. -/
structure Header where
  name : String
  /-- The parameter list as written, with its delimiters. -/
  params : String
  /-- A scope that the declaration itself names, in front of its own name. -/
  receiver : Option String
  /-- The byte after the header, where the body begins. -/
  signatureEnd : Nat
  deriving DecidableEq, Repr

/-- How one language writes functions, scopes and calls. -/
structure Dialect where
  /-- The function that a node declares. -/
  header : Bytes → Site → Option Header
  /-- The scope that a node opens. -/
  scopeName : Bytes → Site → Option String
  /-- The reference that a node makes as a call. -/
  callRef : Bytes → Site → Option CallRef
  /-- Names of the language's library, bare or with a qualifier. -/
  listed : List String

namespace Dialect

/-- Whose function a call refers to, as far as its wording tells. -/
inductive Origin where
  /-- A function of the library, listed together with its qualifier. -/
  | library
  /-- A name that the library has too, and that the program may declare for itself. -/
  | builtin
  /-- A function of the program. -/
  | program
  deriving DecidableEq, Repr

/-- Where the wording of a call places its function. -/
def origin (dialect : Dialect) (ref : CallRef) : Origin :=
  let isLibrary := ref.qualifier.any fun q =>
    dialect.listed.contains (q ++ "." ++ ref.name)
      || dialect.listed.contains (q ++ "::" ++ ref.name)
  if isLibrary then .library
  else if dialect.listed.contains ref.name then .builtin
  else .program

/-- What a signature loses at its end: the opener of a body, and blanks. -/
def isOpener (c : Char) : Bool := c == '\x7b' || c == ':' || Text.isBlank c

/-- A text without the arrow at its end. -/
def dropArrow (cs : List Char) : List Char :=
  match cs.reverse with
  | '>' :: '=' :: rest => rest.reverse
  | _ => cs

/-- The text of a header between two bytes, on one line and without the opener of the body. -/
def signatureText (source : Bytes) (start stop : Nat) : String :=
  let raw := Text.Utf8.decode ((source.take stop).drop start)
  let trimmed := Text.trimEndBy isOpener (Text.collapse raw).toList
  String.ofList (Text.trimEndBy Text.isBlank (dropArrow trimmed))

/-- A scope as it is written: the names that enclose, with points between them. -/
def joinScope : List String → Option String
  | [] => none
  | names => some (".".intercalate names)

mutual

/-- The calls of a tree that lie in no declaration of their own. -/
def callsIn (dialect : Dialect) (source : Bytes) (ancestors : List SyntaxTree) :
    SyntaxTree → List CallRef
  | .node label children =>
    let tree := SyntaxTree.node label children
    match dialect.header source ⟨tree, ancestors⟩ with
    | some _ => []
    | none =>
      (dialect.callRef source ⟨tree, ancestors⟩).toList
        ++ callsAmong dialect source (tree :: ancestors) children

/-- The calls of the trees of a list that lie in no declaration of their own. -/
def callsAmong (dialect : Dialect) (source : Bytes) (ancestors : List SyntaxTree) :
    List SyntaxTree → List CallRef
  | [] => []
  | tree :: rest =>
    callsIn dialect source ancestors tree ++ callsAmong dialect source ancestors rest

end

/-- The calls that belong to a declaration: those below it that lie in no other one. -/
def callsBelow (dialect : Dialect) (source : Bytes) (site : Site) : List CallRef :=
  callsAmong dialect source (site.tree :: site.ancestors) site.tree.children

/-- The declaration at a site, given its header and the names that enclose it. -/
def declaration (dialect : Dialect) (source : Bytes) (scope : List String) (site : Site)
    (header : Header) : Declaration :=
  let label := site.tree.label
  let calls := dialect.callsBelow source site
  { name := header.name
    scope := joinScope (scope ++ header.receiver.toList)
    signature := signatureText source label.start header.signatureEnd
    params := Text.collapse header.params
    startLine := lineAt source label.start
    endLine := lineAt source label.stop
    byteRange := (label.start, label.stop)
    code := site.tree.text source
    calls := CallSet.ofList (calls.filter (dialect.origin · = .program))
    builtinCalls := CallSet.ofList (calls.filter (dialect.origin · = .builtin)) }

mutual

/-- The declarations of a tree in preorder, given the names that enclose it. -/
def declarationsIn (dialect : Dialect) (source : Bytes) (scope : List String)
    (ancestors : List SyntaxTree) : SyntaxTree → List Declaration
  | .node label children =>
    let tree := SyntaxTree.node label children
    let site : Site := ⟨tree, ancestors⟩
    match dialect.header source site with
    | some header =>
      dialect.declaration source scope site header
        :: declarationsAmong dialect source (scope ++ header.receiver.toList ++ [header.name])
            (tree :: ancestors) children
    | none =>
      let inner := scope ++ (dialect.scopeName source site).toList
      declarationsAmong dialect source inner (tree :: ancestors) children

/-- The declarations of the trees of a list in preorder. -/
def declarationsAmong (dialect : Dialect) (source : Bytes) (scope : List String)
    (ancestors : List SyntaxTree) : List SyntaxTree → List Declaration
  | [] => []
  | tree :: rest =>
    declarationsIn dialect source scope ancestors tree
      ++ declarationsAmong dialect source scope ancestors rest

end

/-- The declarations below the root of a tree, in source order. -/
def declarations (dialect : Dialect) (source : Bytes) (root : SyntaxTree) : List Declaration :=
  dialect.declarationsAmong source [] [root] root.children

/-- Why no outline was made. -/
inductive Refusal where
  /-- The parser gave up. -/
  | noTree
  /-- The first fault of the tree stands on this line. -/
  | faultOnLine (line : Nat)
  /-- The tree is said to hold a fault and none was found. -/
  | faultSomewhere
  deriving DecidableEq, Repr

/-- The words for a refusal. -/
def Refusal.message : Refusal → String
  | noTree => "parser produced no tree"
  | faultOnLine line => s!"syntax error at line {line}"
  | faultSomewhere => "syntax error"

/-- The outline of a source file, refused when its tree holds a fault that is not tolerated. -/
def outline (dialect : Dialect) (tolerant : Bool) (file : String) (source : Bytes)
    (root : SyntaxTree) : Except Refusal Outline :=
  if root.label.hasError && !tolerant then
    match root.firstFault? with
    | some fault => .error (.faultOnLine (lineAt source fault.label.start))
    | none => .error .faultSomewhere
  else .ok ⟨file, dialect.declarations source root⟩

/-- The header of a node that names a function by its fields in the usual way. -/
def plainHeader (source : Bytes) (tree : SyntaxTree) (receiver : Option String := none) :
    Option Header := do
  let name ← tree.fieldText? source "name"
  return { name, receiver
           params := (tree.fieldText? source "parameters").getD "()"
           signatureEnd := bodyStart tree }
where
  /-- The first byte of the body, or the end of a declaration without one. -/
  bodyStart (tree : SyntaxTree) : Nat :=
    ((tree.field? "body").map (·.label.start)).getD tree.label.stop

/-- The text of a tree when it is of one of some kinds, as a qualifier has to be. -/
def textIfKind? (source : Bytes) (kinds : List String) (tree : SyntaxTree) : Option String :=
  if kinds.contains tree.kind then some (tree.text source) else none

/-- A type's own name: no sign of a pointer or reference, no arguments, no path. -/
def bareTypeName (text : String) : String :=
  let cs := Text.trimBy Text.isBlank (text.toList.dropWhile fun c => c == '*' || c == '&')
  let cs := (dropMut cs).takeWhile fun c => c != '<' && c != '['
  String.ofList (Text.trimBy Text.isBlank (Text.lastSegment cs))
where
  /-- A text without a leading mark of mutability. -/
  dropMut : List Char → List Char
    | 'm' :: 'u' :: 't' :: ' ' :: rest => rest
    | cs => cs

end Dialect

end CallAtlas
