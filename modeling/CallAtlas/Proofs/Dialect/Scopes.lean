import CallAtlas.Dialect
import CallAtlas.Proofs.Syntax.Position
import Mathlib.Data.List.Forall2

/-!
# Which functions are declared, and in which scope

The walk over a tree hands the names around a node down as a list, and lists a declaration wherever
the dialect finds a header. Here the same is said without a walk. A declaration belongs to a
position below the root where the dialect answers with a header; there is one for each of them, and
they stand in preorder. The scope is read off the positions around: going from the outside in, every
node on the way adds its own names or none.

Nothing is asked of a dialect. Its answers may be any functions of a node in its context.
-/

namespace CallAtlas.Dialect

variable (dialect : Dialect) (source : Bytes) (root : SyntaxTree)

/-- The header at a position. -/
def headerAt? (position : Position) : Option Header :=
  (root.site? position).bind (dialect.header source)

/-- A function is declared at a position below the root. -/
def DeclaresAt (position : Position) : Prop :=
  position ≠ [] ∧ ∃ header, dialect.headerAt? source root position = some header

/-- The names that a node gives to the scope of what it encloses: a function the scope that it
belongs to and its own name, another node the scope that it opens. -/
def namesOf (site : Site) : List String :=
  match dialect.header source site with
  | some header => header.receiver.toList ++ [header.name]
  | none => (dialect.scopeName source site).toList

/-- The names that the nodes around a position give, from the outermost one below the root
inwards. -/
def namesAround (position : Position) : List String :=
  position.around.flatMap fun p => (root.site? p).elim [] (dialect.namesOf source)

/-- The declaration at a position. -/
def declarationAt? (position : Position) : Option Declaration :=
  (root.site? position).bind fun site =>
    (dialect.header source site).map
      (dialect.declaration source (dialect.namesAround source root position) site)

variable {dialect source root} {tree : SyntaxTree} {ancestors : List SyntaxTree} {p : Position}

@[simp] theorem namesAround_singleton (i : Nat) : dialect.namesAround source root [i] = [] := rfl

/-- Around a child are the names around its parent and those that the parent gives. -/
theorem namesAround_child (below : p ≠ []) (here : root.site? p = some ⟨tree, ancestors⟩)
    (i : Nat) :
    dialect.namesAround source root (p ++ [i]) =
      dialect.namesAround source root p ++ dialect.namesOf source ⟨tree, ancestors⟩ := by
  simp [namesAround, Position.around_append_singleton below, here]

theorem declarationsIn_node (scope : List String) (label : NodeLabel)
    (children : List SyntaxTree) :
    dialect.declarationsIn source scope ancestors (.node label children) =
      ((dialect.header source ⟨.node label children, ancestors⟩).map
        (dialect.declaration source scope ⟨.node label children, ancestors⟩)).toList ++
      dialect.declarationsAmong source
        (scope ++ dialect.namesOf source ⟨.node label children, ancestors⟩)
        (.node label children :: ancestors) children := by
  rw [declarationsIn, namesOf]
  cases dialect.header source ⟨.node label children, ancestors⟩ with
  | none => rfl
  | some header => simp

theorem joinScope_eq (names : List String) :
    joinScope names = if names = [] then none else some (".".intercalate names) := by
  cases names with
  | nil => rfl
  | cons name rest => simp [joinScope]

/-- The walk over some trees lists the declarations at their positions, if it does so for each. -/
theorem declarationsAmong_eq {scope : List String} {first : Nat} {trees : List SyntaxTree}
    (each : ∀ i tree, trees[i]? = some tree →
      dialect.declarationsIn source scope ancestors tree =
        tree.positions.filterMap fun q =>
          dialect.declarationAt? source root (p ++ (first + i) :: q)) :
    dialect.declarationsAmong source scope ancestors trees =
      (SyntaxTree.positionsFrom first trees).filterMap fun q =>
        dialect.declarationAt? source root (p ++ q) := by
  induction trees generalizing first with
  | nil => rw [declarationsAmong, SyntaxTree.positionsFrom_nil, List.filterMap_nil]
  | cons tree rest ih =>
      have now := each 0 tree rfl
      have later : dialect.declarationsAmong source scope ancestors rest =
          (SyntaxTree.positionsFrom (first + 1) rest).filterMap fun q =>
            dialect.declarationAt? source root (p ++ q) := by
        refine ih fun i other hother => ?_
        rw [Nat.add_right_comm, Nat.add_assoc]
        exact each (i + 1) other hother
      rw [declarationsAmong, now, later, SyntaxTree.positionsFrom_cons, List.filterMap_append,
        List.filterMap_map]
      rfl

/-- Below the root, the walk over a tree lists the declarations at its positions. The scope handed
down is made of the names around. -/
theorem declarationsIn_eq (below : p ≠ []) (here : root.site? p = some ⟨tree, ancestors⟩) :
    dialect.declarationsIn source (dialect.namesAround source root p) ancestors tree =
      tree.positions.filterMap fun q => dialect.declarationAt? source root (p ++ q) := by
  induction tree using SyntaxTree.inductionOnChildren generalizing p ancestors with
  | node label children ih =>
      have own : dialect.declarationAt? source root (p ++ []) =
          (dialect.header source ⟨.node label children, ancestors⟩).map
            (dialect.declaration source (dialect.namesAround source root p)
              ⟨.node label children, ancestors⟩) := by
        rw [List.append_nil, declarationAt?, here, Option.bind_some]
      have inner : dialect.declarationsAmong source
          (dialect.namesAround source root p ++
            dialect.namesOf source ⟨.node label children, ancestors⟩)
          (.node label children :: ancestors) children =
          (SyntaxTree.positionsFrom 0 children).filterMap fun q =>
            dialect.declarationAt? source root (p ++ q) := by
        refine declarationsAmong_eq fun i child hchild => ?_
        have there := SyntaxTree.site?_child here hchild
        rw [← namesAround_child below here i,
          ih child (List.mem_of_getElem? hchild) (by simp) there]
        simp
      rw [declarationsIn_node, inner, SyntaxTree.positions_node, List.filterMap_cons, own]
      cases dialect.header source ⟨.node label children, ancestors⟩ with
      | none => rfl
      | some header => rfl

/-- The walk from the root lists the declarations at the positions below it. -/
theorem declarations_eq :
    dialect.declarations source root =
      (SyntaxTree.positionsFrom 0 root.children).filterMap
        (dialect.declarationAt? source root) := by
  have among : dialect.declarationsAmong source [] [root] root.children =
      (SyntaxTree.positionsFrom 0 root.children).filterMap fun q =>
        dialect.declarationAt? source root ([] ++ q) := by
    refine declarationsAmong_eq fun i child hchild => ?_
    have there : root.site? [i] = some ⟨child, [root]⟩ :=
      SyntaxTree.site?_child (SyntaxTree.site?_nil root) hchild
    rw [← namesAround_singleton i, declarationsIn_eq (List.cons_ne_nil i []) there]
    simp
  exact among

/-- The positions of the declarations, in preorder. -/
def declaredPositions (dialect : Dialect) (source : Bytes) (root : SyntaxTree) : List Position :=
  (SyntaxTree.positionsFrom 0 root.children).filter fun p =>
    (dialect.headerAt? source root p).isSome

theorem declaredPositions_increasing :
    (dialect.declaredPositions source root).Pairwise (· < ·) :=
  (SyntaxTree.positionsFrom_increasing fun tree _ => tree.positions_increasing).filter _

theorem mem_declaredPositions :
    p ∈ dialect.declaredPositions source root ↔ dialect.DeclaresAt source root p := by
  rw [declaredPositions, List.mem_filter, SyntaxTree.mem_positionsFrom_children,
    Option.isSome_iff_exists, DeclaresAt]
  constructor
  · rintro ⟨⟨below, -⟩, found⟩
    exact ⟨below, found⟩
  · rintro ⟨below, header, found⟩
    obtain ⟨site, here, -⟩ := Option.bind_eq_some_iff.mp found
    exact ⟨⟨below, site, here⟩, header, found⟩

theorem isSome_declarationAt? :
    (dialect.declarationAt? source root p).isSome = (dialect.headerAt? source root p).isSome := by
  cases here : root.site? p <;> simp [headerAt?, declarationAt?, here]

/-- The declarations stand one by one at the positions where a function is declared. -/
theorem declarations_forall₂ :
    List.Forall₂
      (fun p d => dialect.DeclaresAt source root p ∧ dialect.declarationAt? source root p = some d)
      (dialect.declaredPositions source root) (dialect.declarations source root) := by
  refine (List.forall₂_and_left _ _).mpr ⟨fun p hp => mem_declaredPositions.mp hp, ?_⟩
  rw [declaredPositions, declarations_eq]
  induction SyntaxTree.positionsFrom 0 root.children with
  | nil => exact .nil
  | cons p rest ih =>
      rw [List.filter_cons, List.filterMap_cons, ← isSome_declarationAt?]
      cases found : dialect.declarationAt? source root p with
      | none => exact ih
      | some d => exact .cons found ih

/-- There is one declaration for each position below the root where the dialect answers with a
header, in preorder. Its scope joins the names around by points, from the outermost node below the
root inwards, and at the end the scope that its own header names; without any name it has none. -/
theorem declarations_at_headers (dialect : Dialect) (source : Bytes) (root : SyntaxTree) :
    ∃ positions : List Position,
      positions.Pairwise (· < ·) ∧
      (∀ p, p ∈ positions ↔
        p ≠ [] ∧ ∃ site header, root.site? p = some site ∧
          dialect.header source site = some header) ∧
      List.Forall₂ (fun p d => ∃ site header,
          root.site? p = some site ∧ dialect.header source site = some header ∧
          d = dialect.declaration source (dialect.namesAround source root p) site header ∧
          let segments := dialect.namesAround source root p ++ header.receiver.toList
          d.scope = if segments = [] then none else some (".".intercalate segments))
        positions (dialect.declarations source root) := by
  refine ⟨dialect.declaredPositions source root, declaredPositions_increasing, ?_, ?_⟩
  · intro p
    rw [mem_declaredPositions, DeclaresAt]
    simp only [headerAt?, Option.bind_eq_some_iff]
    refine and_congr_right fun _ => ⟨?_, ?_⟩
    · rintro ⟨header, site, here, found⟩
      exact ⟨site, header, here, found⟩
    · rintro ⟨site, header, here, found⟩
      exact ⟨header, site, here, found⟩
  · refine declarations_forall₂.imp fun {p d} ⟨_, listed⟩ => ?_
    obtain ⟨site, here, listed⟩ := Option.bind_eq_some_iff.mp listed
    obtain ⟨header, found, rfl⟩ := Option.map_eq_some_iff.mp listed
    refine ⟨site, header, here, found, rfl, ?_⟩
    exact joinScope_eq _

end CallAtlas.Dialect
