import CallAtlas.Syntax.Tree
import Mathlib.Data.List.Infix

/-!
# Positions in a syntax tree

Equal trees may stand at several places, so a node is named by its position: which child to take at
every step from the root. One node lies below another when its position continues the other's, and
the nodes around a node stand at the beginnings of its position.

`SyntaxTree.positions` lists the nodes of a tree in preorder. In positions this is the
lexicographic order: a node comes before all that is below it, and what is below a child comes
before what is below a later one.

Where the nodes around do not matter, `SyntaxTree.subtree?` gives the tree at a position alone, and
`SyntaxTree.Everywhere` says that something holds at every node.
-/

namespace CallAtlas

/-- The place of a node: the numbers of the children that lead to it from the root. -/
abbrev Position := List Nat

namespace Position

/-- The positions strictly between the root and a position, from the outside in. -/
def around (position : Position) : List Position := position.inits.tail.dropLast

@[simp] theorem around_singleton (i : Nat) : around [i] = [] := rfl

/-- Around a child stands what is around its parent, and then the parent. -/
theorem around_append_singleton {p : Position} (h : p ≠ []) (i : Nat) :
    around (p ++ [i]) = around p ++ [p] := by
  have whole : p.inits.tail ≠ [] := by
    rw [← List.length_pos_iff, List.length_tail, List.length_inits, Nat.add_sub_cancel]
    exact List.length_pos_iff.mpr h
  have last : p.inits.tail.getLast whole = p := by
    have filled := List.length_pos_iff.mpr h
    simp only [List.getLast_eq_getElem, List.getElem_tail, List.getElem_inits, List.length_tail,
      List.length_inits]
    exact List.take_of_length_le (by omega)
  have both : around (p ++ [i]) = p.inits.tail := by
    have start : p.inits ≠ [] := List.ne_nil_of_length_pos (by simp)
    rw [around, List.inits_append, List.tail_append_of_ne_nil start]
    exact List.dropLast_concat
  calc around (p ++ [i]) = p.inits.tail := both
    _ = p.inits.tail.dropLast ++ [p.inits.tail.getLast whole] :=
      (List.dropLast_append_getLast whole).symm
    _ = around p ++ [p] := by rw [last, around]

end Position

namespace Site

/-- The child with a number, in its context. -/
def child? (site : Site) (i : Nat) : Option Site :=
  site.tree.children[i]?.map (⟨·, site.tree :: site.ancestors⟩)

/-- The node to which a position leads from a site. -/
def at? (site : Site) : Position → Option Site
  | [] => some site
  | i :: position => (site.child? i).bind (·.at? position)

@[simp] theorem at?_nil (site : Site) : site.at? [] = some site := rfl

@[simp] theorem at?_cons (site : Site) (i : Nat) (position : Position) :
    site.at? (i :: position) = (site.child? i).bind (·.at? position) := rfl

/-- A way that goes on leads on from the node reached before. -/
theorem at?_append (site : Site) (p q : Position) :
    site.at? (p ++ q) = (site.at? p).bind (·.at? q) := by
  induction p generalizing site with
  | nil => rfl
  | cons i p ih =>
      rw [List.cons_append, at?_cons, at?_cons]
      cases site.child? i with
      | none => rfl
      | some child => exact ih child

end Site

namespace SyntaxTree

/-- The node at a position of a tree. -/
def site? (root : SyntaxTree) (position : Position) : Option Site :=
  Site.at? ⟨root, []⟩ position

@[simp] theorem site?_nil (root : SyntaxTree) : root.site? [] = some ⟨root, []⟩ := rfl

theorem site?_append (root : SyntaxTree) (p q : Position) :
    root.site? (p ++ q) = (root.site? p).bind (·.at? q) :=
  Site.at?_append _ p q

/-- The children of the node at a position stand at its continuations by one number. -/
theorem site?_child {root tree : SyntaxTree} {ancestors : List SyntaxTree} {p : Position}
    (here : root.site? p = some ⟨tree, ancestors⟩) {i : Nat} {child : SyntaxTree}
    (hchild : tree.children[i]? = some child) :
    root.site? (p ++ [i]) = some ⟨child, tree :: ancestors⟩ := by
  simp [site?_append, here, Site.child?, hchild]

/-- What goes on from a position passes through one of the children there. -/
theorem exists_child_of_site? {root tree : SyntaxTree} {ancestors : List SyntaxTree}
    {p q : Position} {i : Nat} {target : Site} (here : root.site? p = some ⟨tree, ancestors⟩)
    (there : root.site? (p ++ i :: q) = some target) :
    ∃ child, tree.children[i]? = some child := by
  rw [site?_append, here, Option.bind_some, Site.at?_cons] at there
  obtain ⟨next, hnext, -⟩ := Option.bind_eq_some_iff.mp there
  obtain ⟨child, hchild, -⟩ := Option.map_eq_some_iff.mp hnext
  exact ⟨child, hchild⟩

/-- A property that a tree inherits from its children holds of every tree. -/
@[elab_as_elim]
theorem inductionOnChildren {motive : SyntaxTree → Prop} (tree : SyntaxTree)
    (node : ∀ label children, (∀ child ∈ children, motive child) →
      motive (SyntaxTree.node label children)) : motive tree := by
  induction hsize : sizeOf tree using Nat.strongRecOn generalizing tree with
  | ind size ih =>
      cases tree with
      | node label children =>
          refine node label children fun child hchild => ih (sizeOf child) ?_ child rfl
          have below : child ∈ (SyntaxTree.node label children).children := hchild
          exact hsize ▸ sizeOf_lt_of_mem_children below

mutual

/-- The positions of a tree in preorder. -/
def positions : SyntaxTree → List Position
  | node _ children => [] :: positionsFrom 0 children

/-- The positions of the trees of a list, which are children from some number on. -/
def positionsFrom (first : Nat) : List SyntaxTree → List Position
  | [] => []
  | tree :: rest => (positions tree).map (first :: ·) ++ positionsFrom (first + 1) rest

end

@[simp] theorem positions_node (label : NodeLabel) (children : List SyntaxTree) :
    (node label children).positions = [] :: positionsFrom 0 children := by
  rw [positions]

@[simp] theorem positionsFrom_nil (first : Nat) : positionsFrom first [] = [] := by
  rw [positionsFrom]

@[simp] theorem positionsFrom_cons (first : Nat) (tree : SyntaxTree) (rest : List SyntaxTree) :
    positionsFrom first (tree :: rest) =
      tree.positions.map (first :: ·) ++ positionsFrom (first + 1) rest := by
  rw [positionsFrom]

theorem mem_positionsFrom {first : Nat} {trees : List SyntaxTree} {p : Position} :
    p ∈ positionsFrom first trees ↔
      ∃ i tree q, trees[i]? = some tree ∧ q ∈ tree.positions ∧ p = (first + i) :: q := by
  induction trees generalizing first with
  | nil => simp
  | cons tree rest ih =>
      rw [positionsFrom_cons, List.mem_append, List.mem_map, ih]
      constructor
      · rintro (⟨q, hq, rfl⟩ | ⟨i, other, q, hother, hq, rfl⟩)
        · exact ⟨0, tree, q, rfl, hq, rfl⟩
        · exact ⟨i + 1, other, q, hother, hq, by rw [Nat.add_right_comm, Nat.add_assoc]⟩
      · rintro ⟨_ | i, other, q, hother, hq, rfl⟩
        · obtain rfl : tree = other := Option.some.inj hother
          exact .inl ⟨q, hq, rfl⟩
        · exact .inr ⟨i, other, q, hother, hq, by rw [Nat.add_right_comm, Nat.add_assoc]⟩

/-- The listed positions are those that lead to a node. -/
theorem mem_positions {tree : SyntaxTree} {ancestors : List SyntaxTree} {p : Position} :
    p ∈ tree.positions ↔ ∃ target, Site.at? ⟨tree, ancestors⟩ p = some target := by
  induction tree using inductionOnChildren generalizing ancestors p with
  | node label children ih =>
      rw [positions_node, List.mem_cons, mem_positionsFrom]
      cases p with
      | nil => simp
      | cons i q =>
          simp only [reduceCtorEq, false_or, Nat.zero_add, List.cons.injEq, Site.at?_cons,
            Site.child?, SyntaxTree.children]
          constructor
          · rintro ⟨_, child, _, hchild, hq, rfl, rfl⟩
            rw [hchild, Option.map_some, Option.bind_some]
            exact (ih child (List.mem_of_getElem? hchild)).mp hq
          · rintro ⟨target, reached⟩
            obtain ⟨next, hnext, reached⟩ := Option.bind_eq_some_iff.mp reached
            obtain ⟨child, hchild, rfl⟩ := Option.map_eq_some_iff.mp hnext
            have inside := (ih child (List.mem_of_getElem? hchild)).mpr ⟨target, reached⟩
            exact ⟨i, child, q, hchild, inside, rfl, rfl⟩

/-- The positions of the children of a root are all positions but its own. -/
theorem mem_positionsFrom_children {root : SyntaxTree} {p : Position} :
    p ∈ positionsFrom 0 root.children ↔ p ≠ [] ∧ ∃ site, root.site? p = some site := by
  have listed : p ∈ root.positions ↔ ∃ site, Site.at? ⟨root, []⟩ p = some site := mem_positions
  cases root with
  | node label children =>
      rw [positions_node, List.mem_cons] at listed
      rw [site?, ← listed]
      constructor
      · intro below
        obtain ⟨i, _, q, -, -, rfl⟩ := mem_positionsFrom.mp below
        exact ⟨List.cons_ne_nil _ _, .inr below⟩
      · rintro ⟨other, inside⟩
        exact inside.resolve_left other

/-- Below one child all positions come before those below the next. -/
theorem positionsFrom_increasing {first : Nat} {trees : List SyntaxTree}
    (each : ∀ tree ∈ trees, tree.positions.Pairwise (· < ·)) :
    (positionsFrom first trees).Pairwise (· < ·) := by
  induction trees generalizing first with
  | nil => exact positionsFrom_nil first ▸ List.Pairwise.nil
  | cons tree rest ih =>
      obtain ⟨now, later⟩ := List.forall_mem_cons.mp each
      rw [positionsFrom_cons]
      refine List.pairwise_append.mpr ⟨?_, ih later, ?_⟩
      · exact List.pairwise_map.mpr (now.imp List.cons_lt_cons_self.mpr)
      · intro p hp q hq
        obtain ⟨p, -, rfl⟩ := List.mem_map.mp hp
        obtain ⟨i, _, q, -, -, rfl⟩ := mem_positionsFrom.mp hq
        exact List.cons_lt_cons_iff.mpr (.inl (by omega))

/-- Preorder is the lexicographic order of positions. -/
theorem positions_increasing (tree : SyntaxTree) : tree.positions.Pairwise (· < ·) := by
  induction tree using inductionOnChildren with
  | node label children ih =>
      rw [positions_node]
      refine List.pairwise_cons.mpr ⟨?_, positionsFrom_increasing ih⟩
      intro p hp
      obtain ⟨i, _, q, -, -, rfl⟩ := mem_positionsFrom.mp hp
      exact List.nil_lt_cons _ _

/-- The tree at a position. -/
def subtree? (tree : SyntaxTree) : Position → Option SyntaxTree
  | [] => some tree
  | i :: position => tree.children[i]?.bind (·.subtree? position)

@[simp] theorem subtree?_nil (tree : SyntaxTree) : tree.subtree? [] = some tree := rfl

@[simp] theorem subtree?_cons (tree : SyntaxTree) (i : Nat) (position : Position) :
    tree.subtree? (i :: position) = tree.children[i]?.bind (·.subtree? position) := rfl

/-- The tree at a position is that of the node there. -/
theorem map_tree_at? (site : Site) (p : Position) :
    (site.at? p).map Site.tree = site.tree.subtree? p := by
  induction p generalizing site with
  | nil => rfl
  | cons i p ih =>
      rw [Site.at?_cons, Site.child?, subtree?_cons]
      cases site.tree.children[i]? with
      | none => rfl
      | some child => exact ih ⟨child, site.tree :: site.ancestors⟩

theorem map_tree_site? (root : SyntaxTree) (p : Position) :
    (root.site? p).map Site.tree = root.subtree? p :=
  map_tree_at? _ p

theorem mem_positions_iff_subtree? {tree : SyntaxTree} {p : Position} :
    p ∈ tree.positions ↔ ∃ inner, tree.subtree? p = some inner := by
  have listed : p ∈ tree.positions ↔ ∃ site, tree.site? p = some site := mem_positions
  rw [listed, ← map_tree_site?]
  simp only [Option.map_eq_some_iff]
  constructor
  · rintro ⟨site, here⟩
    exact ⟨site.tree, site, here, rfl⟩
  · rintro ⟨_, site, here, _⟩
    exact ⟨site, here⟩

/-- A property holds at every node of a tree. -/
def Everywhere (tree : SyntaxTree) (P : SyntaxTree → Prop) : Prop :=
  ∀ p inner, tree.subtree? p = some inner → P inner

theorem Everywhere.here {tree : SyntaxTree} {P : SyntaxTree → Prop} (h : tree.Everywhere P) :
    P tree :=
  h [] tree rfl

theorem Everywhere.child {tree child : SyntaxTree} {P : SyntaxTree → Prop}
    (h : tree.Everywhere P) (hchild : child ∈ tree.children) : child.Everywhere P := by
  intro p inner found
  obtain ⟨i, hi⟩ := List.mem_iff_getElem?.mp hchild
  refine h (i :: p) inner ?_
  rw [subtree?_cons, hi, Option.bind_some, found]

/-- What holds at a node and everywhere below its children holds everywhere. -/
theorem Everywhere.of_children {tree : SyntaxTree} {P : SyntaxTree → Prop} (here : P tree)
    (below : ∀ child ∈ tree.children, child.Everywhere P) : tree.Everywhere P := by
  intro p inner found
  cases p with
  | nil => exact Option.some.inj found ▸ here
  | cons i p =>
      obtain ⟨child, hchild, found⟩ := Option.bind_eq_some_iff.mp found
      exact below child (List.mem_of_getElem? hchild) p inner found

end SyntaxTree

end CallAtlas
