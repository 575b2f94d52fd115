import CallAtlas.Text.Utf8

/-!
# Concrete syntax trees

A tree as a parser leaves it: every node has a kind, covers a range of the source's bytes, may
stand for an error or for something missing, and names some of its children by fields. The source
itself is not in the tree; the text of a node is cut out of it.

A node is placed by bytes alone, without the rows that a parser may note beside them. The row of a
place is assumed to be the number of line feed bytes before it, so lines are counted in the source
(`lineAt`).

A `Site` is a node together with the nodes around it, which is what a question about a node in
its context needs.
-/

namespace CallAtlas

/-- What a node shows of itself. -/
structure NodeLabel where
  kind : String
  /-- Whether the node stands for a rule of the grammar rather than for a token. -/
  named : Bool
  isError : Bool
  isMissing : Bool
  /-- Whether the node or one below it is an error or missing. -/
  hasError : Bool
  /-- The first byte covered, and the one after the last. Their rows are left to `lineAt`. -/
  start : Nat
  stop : Nat
  /-- The children that have a field name, by their position. -/
  fields : List (String × Nat)
  deriving DecidableEq, Repr

/-- A node with its children in source order. -/
inductive SyntaxTree where
  | node (label : NodeLabel) (children : List SyntaxTree)

namespace SyntaxTree

/-- The label of the topmost node. -/
def label : SyntaxTree → NodeLabel
  | node label _ => label

/-- The trees directly below. -/
def children : SyntaxTree → List SyntaxTree
  | node _ children => children

/-- The kind of the topmost node. -/
def kind (tree : SyntaxTree) : String := tree.label.kind

/-- The children that stand for rules of the grammar. -/
def namedChildren (tree : SyntaxTree) : List SyntaxTree :=
  tree.children.filter (·.label.named)

/-- The child with a field name. -/
def field? (tree : SyntaxTree) (name : String) : Option SyntaxTree := do
  let index ← tree.label.fields.lookup name
  tree.children[index]?

/-- The part of the source that a tree covers, empty when its bytes are not well-formed text. -/
def text (source : Bytes) (tree : SyntaxTree) : String :=
  let bytes := (source.drop tree.label.start).take (tree.label.stop - tree.label.start)
  (Text.Utf8.decode? bytes).getD ""

/-- The text of the child with a field name. -/
def fieldText? (source : Bytes) (tree : SyntaxTree) (name : String) : Option String :=
  (tree.field? name).map (·.text source)

theorem sizeOf_lt_of_mem_children {tree child : SyntaxTree} (h : child ∈ tree.children) :
    sizeOf child < sizeOf tree := by
  cases tree with
  | node label children =>
    have := List.sizeOf_lt_of_mem (show child ∈ children from h)
    simp only [node.sizeOf_spec]
    omega

theorem mem_children_of_field? {tree child : SyntaxTree} {name : String}
    (h : tree.field? name = some child) : child ∈ tree.children := by
  simp only [field?, bind, Option.bind] at h
  split at h
  · contradiction
  · exact List.mem_of_getElem? h

/-- A node of which only the place is known to be wrong: an error, or something missing. -/
def isFault (tree : SyntaxTree) : Bool := tree.label.isError || tree.label.isMissing

/-- Whether there is reason to look for a fault in a tree. -/
def mayHoldFault (tree : SyntaxTree) : Bool := tree.label.hasError || tree.label.isMissing

theorem sizeOf_filter_append_lt (p : SyntaxTree → Bool) (trees stack : List SyntaxTree) :
    sizeOf (trees.filter p ++ stack) < sizeOf trees + sizeOf stack := by
  induction trees with
  | nil =>
    rw [List.filter_nil, List.nil_append, List.nil.sizeOf_spec]
    omega
  | cons tree rest ih =>
    rw [List.filter_cons, List.cons.sizeOf_spec]
    split
    · rw [List.cons_append, List.cons.sizeOf_spec]
      omega
    · omega

/-- The first fault that a search from a stack of trees comes to. A tree that is no fault itself
gives its place on the stack to those of its children that may hold one, the first of them on
top. -/
def firstFaultOn? : List SyntaxTree → Option SyntaxTree
  | [] => none
  | tree :: stack =>
    if tree.isFault then some tree
    else firstFaultOn? (tree.children.filter mayHoldFault ++ stack)
  termination_by stack => sizeOf stack
  decreasing_by
    cases tree with
    | node label children =>
      have smaller := sizeOf_filter_append_lt mayHoldFault children stack
      rw [List.cons.sizeOf_spec, node.sizeOf_spec]
      exact Nat.lt_trans smaller (by omega)

/-- The first fault that a search from the root of a tree comes to. -/
def firstFault? (root : SyntaxTree) : Option SyntaxTree := firstFaultOn? [root]

end SyntaxTree

/-- The line of a byte, counted from one, when a parser takes the number of line feed bytes before
a place for its row. -/
def lineAt (source : Bytes) (offset : Nat) : Nat := (source.take offset).count 10 + 1

/-- A node in its context: the tree below it, and the trees that enclose it, innermost first. -/
structure Site where
  tree : SyntaxTree
  ancestors : List SyntaxTree

end CallAtlas
