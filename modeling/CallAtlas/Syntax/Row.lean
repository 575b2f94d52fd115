import CallAtlas.Json.Codec
import CallAtlas.Syntax.Tree

/-!
# Syntax trees laid out as rows

A parser hands over a tree as a list of rows, one for each node, every node before its children and
these in order. A row says how many children its node has, so the list is read from its end: the
trees of the later rows are at hand when a row is reached, and its children are the first of them.
-/

namespace CallAtlas

/-- One node of a tree and the number of its children. -/
structure Row where
  label : NodeLabel
  arity : Nat
  deriving DecidableEq, Repr

namespace Row

/-- The row of a node. The bits of the flags say, from the lowest, whether it is named, an error,
missing, and whether it holds an error. -/
def ofParts (kind : String) (flags start stop arity : Nat) (fields : List (String × Nat)) : Row where
  label :=
    { kind, start, stop, fields, named := flags.testBit 0, isError := flags.testBit 1,
      isMissing := flags.testBit 2, hasError := flags.testBit 3 }
  arity := arity

/-- A row as an array: the kind, the flags and the range of its node, and for a node with children
their number and the fields. -/
def ofJson? : Json → Option Row
  | .arr [kind, flags, start, stop] => do
    return ofParts (← decode? kind) (← decode? flags) (← decode? start) (← decode? stop) 0 []
  | .arr [kind, flags, start, stop, arity, fields] => do
    let fields : Dictionary Nat ← decode? fields
    return ofParts (← decode? kind) (← decode? flags) (← decode? start) (← decode? stop)
      (← decode? arity) fields.entries
  | _ => none

end Row

namespace SyntaxTree

/-- The trees that a list of rows lays out, one after another. -/
def forest (rows : List Row) : List SyntaxTree :=
  rows.foldr (fun row later => node row.label (later.take row.arity) :: later.drop row.arity) []

/-- The one tree that a list of rows lays out. -/
def ofRows? (rows : List Row) : Option SyntaxTree :=
  match forest rows with
  | [tree] => some tree
  | _ => none

/-- The tree that an array of rows lays out. -/
def ofJson? : Json → Option SyntaxTree
  | .arr rows => (rows.mapM Row.ofJson?).bind ofRows?
  | _ => none

end SyntaxTree

end CallAtlas
