import CallAtlas.Dialect.Python
import CallAtlas.Proofs.Dialect.Scopes

/-!
# Extents of declarations

Declarations are listed in preorder, and in a tree whose ranges are nested this is the order of the
source. Of two positions the smaller one either begins the larger one, and then its node encloses
the other; or they part at some node, and then one lies below an earlier child than the other, whose
range ends before the other's begins. So any two declarations are nested or apart, and lines, which
grow with the bytes before them, follow.
-/

namespace CallAtlas

/-- A later byte is on the same line or on a later one. -/
theorem lineAt_mono (source : Bytes) {a b : Nat} (h : a ≤ b) :
    lineAt source a ≤ lineAt source b := by
  have sublist := (List.take_prefix_take_left (l := source) h).sublist
  exact Nat.succ_le_succ (sublist.count_le 10)

namespace SyntaxTree

/-- A node covers a range of bytes, and its children lie in it, in order and without overlap. -/
structure Encloses (tree : SyntaxTree) : Prop where
  range : tree.label.start ≤ tree.label.stop
  inside : ∀ child ∈ tree.children,
    tree.label.start ≤ child.label.start ∧ child.label.stop ≤ tree.label.stop
  apart : tree.children.Pairwise fun a b => a.label.stop ≤ b.label.start

/-- The ranges of a tree are nested at every node. -/
def Nested (tree : SyntaxTree) : Prop := tree.Everywhere Encloses

variable {tree a b : SyntaxTree} {p q : Position}

theorem Nested.child (nested : tree.Nested) (h : a ∈ tree.children) : a.Nested :=
  Everywhere.child nested h

/-- What lies below a node lies in its range. -/
theorem Nested.inside (nested : tree.Nested) (here : tree.subtree? p = some a) :
    tree.label.start ≤ a.label.start ∧ a.label.stop ≤ tree.label.stop := by
  induction p generalizing tree with
  | nil =>
      obtain rfl : tree = a := Option.some.inj here
      exact ⟨Nat.le_refl _, Nat.le_refl _⟩
  | cons i p ih =>
      obtain ⟨child, hchild, below⟩ := Option.bind_eq_some_iff.mp here
      have member := List.mem_of_getElem? hchild
      have outer := nested.here.inside child member
      have inner := ih (nested.child member) below
      exact ⟨outer.1.trans inner.1, inner.2.trans outer.2⟩

/-- What lies below a child ends before what lies below a later one begins. -/
theorem Nested.apart (nested : tree.Nested) {i j : Nat} (order : i < j)
    (first : tree.subtree? (i :: p) = some a) (second : tree.subtree? (j :: q) = some b) :
    a.label.stop ≤ b.label.start := by
  obtain ⟨child, hchild, first⟩ := Option.bind_eq_some_iff.mp first
  obtain ⟨later, hlater, second⟩ := Option.bind_eq_some_iff.mp second
  have within := (nested.child (List.mem_of_getElem? hchild)).inside first
  have beyond := (nested.child (List.mem_of_getElem? hlater)).inside second
  have between : child.label.stop ≤ later.label.start := by
    obtain ⟨hi, rfl⟩ := List.getElem?_eq_some_iff.mp hchild
    obtain ⟨hj, rfl⟩ := List.getElem?_eq_some_iff.mp hlater
    exact List.pairwise_iff_getElem.mp nested.here.apart i j hi hj order
  exact within.2.trans (between.trans beyond.1)

/-- Of two nodes the earlier one in preorder encloses the other or ends before it. -/
theorem Nested.laminar (nested : tree.Nested) (order : p < q) (first : tree.subtree? p = some a)
    (second : tree.subtree? q = some b) :
    (a.label.start ≤ b.label.start ∧ b.label.stop ≤ a.label.stop) ∨
      a.label.stop ≤ b.label.start := by
  induction p generalizing tree q with
  | nil =>
      obtain rfl : tree = a := Option.some.inj first
      exact .inl (nested.inside second)
  | cons i p ih =>
      cases q with
      | nil => exact absurd order (List.not_lt_nil _)
      | cons j q =>
          cases List.cons_lt_cons_iff.mp order with
          | inl parted => exact .inr (nested.apart parted first second)
          | inr together =>
              -- Both lie below the same child.
              obtain ⟨rfl, deeper⟩ := together
              obtain ⟨child, hchild, first⟩ := Option.bind_eq_some_iff.mp first
              rw [subtree?_cons, hchild, Option.bind_some] at second
              exact ih (nested.child (List.mem_of_getElem? hchild)) deeper first second

end SyntaxTree

namespace Dialect

variable {dialect : Dialect} {source : Bytes} {root : SyntaxTree} {p : Position} {d : Declaration}

/-- A declaration has the extent of its node. -/
theorem extent_of_declarationAt? (h : dialect.declarationAt? source root p = some d) :
    ∃ tree, root.subtree? p = some tree ∧ d.byteRange = (tree.label.start, tree.label.stop) ∧
      d.startLine = lineAt source d.byteRange.1 ∧ d.endLine = lineAt source d.byteRange.2 := by
  obtain ⟨site, here, made⟩ := Option.bind_eq_some_iff.mp h
  obtain ⟨header, -, rfl⟩ := Option.map_eq_some_iff.mp made
  refine ⟨site.tree, ?_, rfl, rfl, rfl⟩
  rw [← SyntaxTree.map_tree_site?, here, Option.map_some]

/-- The lines of a declaration are those at the ends of its extent. -/
theorem lines_of_mem_declarations (h : d ∈ dialect.declarations source root) :
    d.startLine = lineAt source d.byteRange.1 ∧ d.endLine = lineAt source d.byteRange.2 := by
  rw [declarations_eq] at h
  obtain ⟨p, -, made⟩ := List.mem_filterMap.mp h
  obtain ⟨tree, -, -, lines⟩ := extent_of_declarationAt? made
  exact lines

theorem range_of_mem_declarations (nested : root.Nested)
    (h : d ∈ dialect.declarations source root) : d.byteRange.1 ≤ d.byteRange.2 := by
  rw [declarations_eq] at h
  obtain ⟨p, -, made⟩ := List.mem_filterMap.mp h
  obtain ⟨tree, here, extent, -⟩ := extent_of_declarationAt? made
  rw [extent]
  exact (nested p tree here).range

/-- Preorder lists a declaration before those that lie in it and those that begin after its end. -/
theorem declarations_pairwise (nested : root.Nested) :
    (dialect.declarations source root).Pairwise fun a b =>
      (a.byteRange.1 ≤ b.byteRange.1 ∧ b.byteRange.2 ≤ a.byteRange.2) ∨
        a.byteRange.2 ≤ b.byteRange.1 := by
  have preorder : (SyntaxTree.positionsFrom 0 root.children).Pairwise (· < ·) :=
    SyntaxTree.positionsFrom_increasing fun tree _ => tree.positions_increasing
  rw [declarations_eq]
  refine preorder.filterMap _ fun p q order a ha b hb => ?_
  obtain ⟨first, here, extent, -⟩ := extent_of_declarationAt? ha
  obtain ⟨second, there, extent', -⟩ := extent_of_declarationAt? hb
  rw [extent, extent']
  exact nested.laminar order here there

/-- In a tree with nested ranges, declarations stand in the order of the source. Of two of them the
later one lies in the earlier one or begins at or after its end. No declaration ends on a line
before its first, and the first lines do not decrease. -/
theorem declarations_laminar (dialect : Dialect) (source : Bytes) (root : SyntaxTree)
    (nested : root.Nested) :
    ((dialect.declarations source root).Pairwise fun a b =>
      a.byteRange.1 ≤ b.byteRange.1 ∧
        ((a.byteRange.1 ≤ b.byteRange.1 ∧ b.byteRange.2 ≤ a.byteRange.2) ∨
          a.byteRange.2 ≤ b.byteRange.1)) ∧
    (∀ d ∈ dialect.declarations source root, d.startLine ≤ d.endLine) ∧
    ((dialect.declarations source root).map Declaration.startLine).Pairwise (· ≤ ·) := by
  have ordered : (dialect.declarations source root).Pairwise fun a b =>
      a.byteRange.1 ≤ b.byteRange.1 := by
    refine (declarations_pairwise nested).imp_of_mem fun {a b} ha _ extents => ?_
    cases extents with
    | inl inside => exact inside.1
    | inr beyond => exact (range_of_mem_declarations nested ha).trans beyond
  refine ⟨ordered.and (declarations_pairwise nested), fun d hd => ?_, List.pairwise_map.mpr ?_⟩
  · obtain ⟨first, last⟩ := lines_of_mem_declarations hd
    rw [first, last]
    exact lineAt_mono source (range_of_mem_declarations nested hd)
  · refine ordered.imp_of_mem fun {a b} ha hb starts => ?_
    rw [(lines_of_mem_declarations ha).1, (lines_of_mem_declarations hb).1]
    exact lineAt_mono source starts

/-- The tree of a function with another one in it, and of a third that follows. -/
def nestedFunctions : SyntaxTree :=
  .node ⟨"module", true, false, false, false, 0, 8, []⟩
    [function 0 5 [function 2 4 []], function 6 7 []]
where
  /-- A function that is named by its first byte. -/
  function (start stop : Nat) (inner : List SyntaxTree) : SyntaxTree :=
    .node ⟨"function_definition", true, false, false, false, start, stop, [("name", 0)]⟩
      (.node ⟨"identifier", true, false, false, false, start, start + 1, []⟩ [] :: inner)

/-- Three lines. The first function ends on the second, which is blank. -/
def nestedSource : Bytes := [102, 32, 103, 10, 32, 10, 104, 10]

theorem declarations_laminar_nestedFunctions :
    nestedFunctions.Nested ∧
    (python.declarations nestedSource nestedFunctions).map
      (fun d => (d.name, d.byteRange, d.startLine, d.endLine)) =
        [("f", (0, 5), 1, 2), ("g", (2, 4), 1, 2), ("h", (6, 7), 3, 3)] ∧
    ((python.declarations nestedSource nestedFunctions).Pairwise fun a b =>
      a.byteRange.1 ≤ b.byteRange.1 ∧
        ((a.byteRange.1 ≤ b.byteRange.1 ∧ b.byteRange.2 ≤ a.byteRange.2) ∨
          a.byteRange.2 ≤ b.byteRange.1)) ∧
    ((python.declarations nestedSource nestedFunctions).map Declaration.startLine).Pairwise
      (· ≤ ·) := by
  have function {start stop : Nat} {inner : List SyntaxTree}
      (here : (nestedFunctions.function start stop inner).Encloses)
      (below : ∀ tree ∈ inner, tree.Nested) :
      (nestedFunctions.function start stop inner).Nested := by
    refine SyntaxTree.Everywhere.of_children here (List.forall_mem_cons.mpr ⟨?_, below⟩)
    exact SyntaxTree.Everywhere.of_children ⟨Nat.le_succ start, nofun, .nil⟩ nofun
  have nested : nestedFunctions.Nested := by
    refine SyntaxTree.Everywhere.of_children ⟨by decide, by decide, by decide⟩ ?_
    refine List.forall_mem_cons.mpr ⟨?_, List.forall_mem_singleton.mpr ?_⟩
    · refine function ⟨by decide, by decide, by decide⟩ (List.forall_mem_singleton.mpr ?_)
      exact function ⟨by decide, by decide, by decide⟩ nofun
    · exact function ⟨by decide, by decide, by decide⟩ nofun
  obtain ⟨extents, -, lines⟩ := declarations_laminar python nestedSource nestedFunctions nested
  exact ⟨nested, by decide +kernel, extents, lines⟩

end Dialect

end CallAtlas
