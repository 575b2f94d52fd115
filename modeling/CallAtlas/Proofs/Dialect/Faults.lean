import CallAtlas.Dialect.Python
import CallAtlas.Proofs.Syntax.Position
import Mathlib.Data.List.Lex

/-!
# Sources with faults are refused at the first one

The search for a fault keeps a stack of trees and looks only where a flag tells that there is
something to find. Where the flags are right this loses nothing: at every step the first fault on
the stack, in preorder and from the top down, is the first fault of the tree. So a source is refused
exactly when its tree holds a fault, and the line reported is that of the first one.
-/

namespace CallAtlas

namespace SyntaxTree

/-- The nodes of a tree in preorder, each with what is below it. -/
def nodes (tree : SyntaxTree) : List SyntaxTree := tree.positions.filterMap tree.subtree?

/-- The trees at the positions of some children are the nodes of these, one after another. -/
theorem filterMap_positionsFrom {find : Position → Option SyntaxTree} {first : Nat}
    {trees : List SyntaxTree}
    (each : ∀ (i : Nat) (tree : SyntaxTree), trees[i]? = some tree →
      ∀ q, find ((first + i) :: q) = tree.subtree? q) :
    (positionsFrom first trees).filterMap find = trees.flatMap nodes := by
  induction trees generalizing first with
  | nil => rw [positionsFrom_nil, List.filterMap_nil, List.flatMap_nil]
  | cons tree rest ih =>
      have now : (tree.positions.map (first :: ·)).filterMap find = tree.nodes := by
        rw [List.filterMap_map, nodes]
        exact List.filterMap_congr fun q _ => each 0 tree rfl q
      have later : (positionsFrom (first + 1) rest).filterMap find = rest.flatMap nodes := by
        refine ih fun i other hother q => ?_
        rw [Nat.add_right_comm, Nat.add_assoc]
        exact each (i + 1) other hother q
      rw [positionsFrom_cons, List.filterMap_append, now, later, List.flatMap_cons]

theorem nodes_node (label : NodeLabel) (children : List SyntaxTree) :
    (node label children).nodes = node label children :: children.flatMap nodes := by
  have below : (positionsFrom 0 children).filterMap (node label children).subtree? =
      children.flatMap nodes := by
    refine filterMap_positionsFrom fun i child hchild q => ?_
    rw [Nat.zero_add, subtree?_cons, SyntaxTree.children, hchild, Option.bind_some]
  rw [nodes, positions_node, List.filterMap_cons, subtree?_nil, below]

theorem mem_nodes {tree inner : SyntaxTree} :
    inner ∈ tree.nodes ↔ ∃ p, tree.subtree? p = some inner := by
  rw [nodes, List.mem_filterMap]
  constructor
  · rintro ⟨p, -, found⟩
    exact ⟨p, found⟩
  · rintro ⟨p, found⟩
    exact ⟨p, mem_positions_iff_subtree?.mpr ⟨inner, found⟩, found⟩

/-- Some node of a tree is an error or missing. -/
def HoldsFault (tree : SyntaxTree) : Prop :=
  ∃ p fault, tree.subtree? p = some fault ∧ fault.isFault = true

/-- The flag of every node tells whether the node or one below it is an error or missing. -/
def Flagged (tree : SyntaxTree) : Prop :=
  tree.Everywhere fun inner => inner.label.hasError = true ↔ inner.HoldsFault

/-- The node at a position is a fault, and none before it in preorder is. -/
structure FirstFault (tree : SyntaxTree) (p : Position) (fault : SyntaxTree) : Prop where
  here : tree.subtree? p = some fault
  isFault : fault.isFault = true
  first : ∀ q < p, ∀ earlier, tree.subtree? q = some earlier → earlier.isFault = false

variable {tree : SyntaxTree}

theorem holdsFault_iff : tree.HoldsFault ↔ ∃ fault ∈ tree.nodes, fault.isFault = true := by
  simp only [mem_nodes]
  constructor
  · rintro ⟨p, fault, here, isFault⟩
    exact ⟨fault, ⟨p, here⟩, isFault⟩
  · rintro ⟨fault, ⟨p, here⟩, isFault⟩
    exact ⟨p, fault, here, isFault⟩

theorem holdsFault_node {label : NodeLabel} {children : List SyntaxTree} :
    (node label children).HoldsFault ↔
      (node label children).isFault = true ∨ ∃ child ∈ children, child.HoldsFault := by
  simp only [holdsFault_iff, nodes_node, List.mem_cons, List.mem_flatMap]
  constructor
  · rintro ⟨fault, rfl | ⟨child, hchild, inside⟩, isFault⟩
    · exact .inl isFault
    · exact .inr ⟨child, hchild, fault, inside, isFault⟩
  · rintro (isFault | ⟨child, hchild, fault, inside, isFault⟩)
    · exact ⟨_, .inl rfl, isFault⟩
    · exact ⟨fault, .inr ⟨child, hchild, inside⟩, isFault⟩

/-- Flags are right when each is set for a fault at its node or for a flag at a child. -/
theorem flagged_node {label : NodeLabel} {children : List SyntaxTree}
    (own : label.hasError = true ↔ (node label children).isFault = true ∨
      ∃ child ∈ children, child.label.hasError = true)
    (below : ∀ child ∈ children, child.Flagged) : (node label children).Flagged := by
  refine Everywhere.of_children ?_ below
  rw [holdsFault_node]
  refine own.trans (or_congr_right (exists_congr fun child => and_congr_right fun hchild => ?_))
  exact (below child hchild).here

/-- A tree that is passed over holds no fault. -/
theorem Flagged.find?_eq_none (flagged : tree.Flagged) (clean : tree.mayHoldFault = false) :
    tree.nodes.find? isFault = none := by
  have unflagged : tree.label.hasError = false := (Bool.or_eq_false_iff.mp clean).1
  refine List.find?_eq_none.mpr fun inner hinner fault => ?_
  have flag := flagged.here.mpr (holdsFault_iff.mpr ⟨inner, hinner, fault⟩)
  rw [unflagged] at flag
  cases flag

/-- The first fault of some trees is not in one that is passed over. -/
theorem find?_flatMap_filter {trees : List SyntaxTree} (flagged : ∀ tree ∈ trees, tree.Flagged) :
    ((trees.filter mayHoldFault).flatMap nodes).find? isFault =
      (trees.flatMap nodes).find? isFault := by
  induction trees with
  | nil => rfl
  | cons tree rest ih =>
      obtain ⟨now, later⟩ := List.forall_mem_cons.mp flagged
      rw [List.flatMap_cons, List.find?_append, ← ih later]
      cases clean : tree.mayHoldFault with
      | false =>
          rw [List.filter_cons_of_neg (by simp [clean]), now.find?_eq_none clean, Option.none_or]
      | true =>
          rw [List.filter_cons_of_pos clean, List.flatMap_cons, List.find?_append]

/-- After a step of the search the flags on the stack are still right. -/
theorem flagged_of_mem_next {stack : List SyntaxTree} {next : SyntaxTree}
    (flagged : ∀ root ∈ tree :: stack, root.Flagged)
    (h : next ∈ tree.children.filter mayHoldFault ++ stack) : next.Flagged := by
  obtain ⟨now, later⟩ := List.forall_mem_cons.mp flagged
  cases List.mem_append.mp h with
  | inl below => exact now.child (List.mem_of_mem_filter below)
  | inr waiting => exact later next waiting

/-- A step of the search keeps the first fault of the stack: the node that leaves it is none, and
what is not pushed holds none. -/
theorem find?_next (flagged : tree.Flagged) (other : ¬ tree.isFault = true)
    (stack : List SyntaxTree) :
    ((tree.children.filter mayHoldFault ++ stack).flatMap nodes).find? isFault =
      ((tree :: stack).flatMap nodes).find? isFault := by
  cases tree with
  | node label children =>
      have pushed : ((children.filter mayHoldFault).flatMap nodes).find? isFault =
          (children.flatMap nodes).find? isFault :=
        find?_flatMap_filter fun child hchild => flagged.child hchild
      rw [List.flatMap_append, List.find?_append, List.flatMap_cons, nodes_node, List.cons_append,
        List.find?_cons_of_neg other, List.find?_append, SyntaxTree.children, pushed]

/-- The search comes to the first fault of the trees on the stack. -/
theorem firstFaultOn?_eq {stack : List SyntaxTree} (flagged : ∀ tree ∈ stack, tree.Flagged) :
    firstFaultOn? stack = (stack.flatMap nodes).find? isFault := by
  fun_induction firstFaultOn? stack with
  | case1 => rfl
  | case2 tree stack fault =>
      cases tree with
      | node label children =>
          rw [List.flatMap_cons, nodes_node, List.cons_append, List.find?_cons_of_pos fault]
  | case3 tree stack other ih =>
      have now : tree.Flagged := flagged tree List.mem_cons_self
      rw [ih fun next hnext => flagged_of_mem_next flagged hnext, find?_next now other]

theorem firstFault?_eq (flagged : tree.Flagged) :
    tree.firstFault? = tree.nodes.find? isFault := by
  have alone : ∀ root ∈ [tree], root.Flagged := List.forall_mem_singleton.mpr flagged
  rw [firstFault?, firstFaultOn?_eq alone, List.flatMap_singleton]

/-- What is found is the first fault in preorder. -/
theorem exists_firstFault_of_firstFault? (flagged : tree.Flagged) {fault : SyntaxTree}
    (found : tree.firstFault? = some fault) : ∃ p, tree.FirstFault p fault := by
  rw [firstFault?_eq flagged, nodes, List.find?_filterMap] at found
  obtain ⟨p, hp, here⟩ := Option.bind_eq_some_iff.mp found
  obtain ⟨isFault, before, after, split, clear⟩ := List.find?_eq_some_iff_append.mp hp
  have ordered := tree.positions_increasing
  rw [split] at ordered
  rw [here, Option.any_some] at isFault
  refine ⟨p, here, isFault, fun q earlier inner hq => ?_⟩
  -- Positions increase, so one that is smaller was listed before.
  have listed : q ∈ before ++ p :: after := split ▸ mem_positions_iff_subtree?.mpr ⟨inner, hq⟩
  cases List.mem_append.mp listed with
  | inl first => simpa [hq] using clear q first
  | inr rest =>
      cases List.mem_cons.mp rest with
      | inl same => exact absurd (same ▸ earlier) (lt_irrefl p)
      | inr last =>
          have later := (List.pairwise_cons.mp (List.pairwise_append.mp ordered).2.1).1 q last
          exact absurd earlier later.asymm

/-- There is only one first fault. -/
theorem FirstFault.unique {p q : Position} {fault other : SyntaxTree}
    (h : tree.FirstFault p fault) (h' : tree.FirstFault q other) : fault = other := by
  have same : p = q := by
    rcases lt_trichotomy p q with before | same | after
    · exact absurd (h'.first p before fault h.here) (by simp [h.isFault])
    · exact same
    · exact absurd (h.first q after other h'.here) (by simp [h'.isFault])
  exact Option.some.inj (h.here.symm.trans (same ▸ h'.here))

theorem exists_firstFault?_iff (flagged : tree.Flagged) :
    (∃ fault, tree.firstFault? = some fault) ↔ tree.HoldsFault := by
  rw [firstFault?_eq flagged, ← Option.isSome_iff_exists, List.find?_isSome, holdsFault_iff]

end SyntaxTree

namespace Dialect

section Outline

variable (dialect : Dialect) (file : String) (source : Bytes) {root : SyntaxTree}

/-- Without tolerance, a tree with a fault is refused for the first one. -/
theorem outline_of_holdsFault (flagged : root.Flagged) (faulty : root.HoldsFault) :
    ∃ p fault, root.FirstFault p fault ∧ dialect.outline false file source root =
      .error (.faultOnLine (lineAt source fault.label.start)) := by
  have flag : root.label.hasError = true := flagged.here.mpr faulty
  obtain ⟨fault, found⟩ := (SyntaxTree.exists_firstFault?_iff flagged).mpr faulty
  obtain ⟨p, first⟩ := SyntaxTree.exists_firstFault_of_firstFault? flagged found
  refine ⟨p, fault, first, ?_⟩
  rw [outline, flag, found]
  rfl

/-- A tree without a fault has an outline. -/
theorem outline_of_not_holdsFault (flagged : root.Flagged) (sound : ¬ root.HoldsFault) :
    dialect.outline false file source root = .ok ⟨file, dialect.declarations source root⟩ := by
  have flag : root.label.hasError = false :=
    Bool.eq_false_iff.mpr fun set => sound (flagged.here.mp set)
  rw [outline, flag]
  rfl

end Outline

/-- A reason with a line is not the one without. -/
theorem Refusal.message_faultOnLine_ne (line : Nat) :
    (faultOnLine line).message ≠ faultSomewhere.message := by
  intro same
  have lengths :
      "syntax error at line ".length + (toString line).length = "syntax error".length := by
    rw [← String.length_append]
    exact congrArg String.length same
  have longer : "syntax error".length < "syntax error at line ".length := by decide
  omega

/-- A source is refused exactly when its tree holds a fault. There is then a first fault in
preorder, and the reason names the line on which it starts; the reason without a line is never
given. -/
theorem outline_refused_at_first_fault (dialect : Dialect) (file : String) (source : Bytes)
    (root : SyntaxTree) (flagged : root.Flagged) :
    ((∃ refusal, dialect.outline false file source root = .error refusal) ↔ root.HoldsFault) ∧
    (root.HoldsFault → ∃ p fault, root.FirstFault p fault) ∧
    ∀ refusal, dialect.outline false file source root = .error refusal →
      (∀ p fault, root.FirstFault p fault →
        refusal.message = s!"syntax error at line {lineAt source fault.label.start}") ∧
      refusal.message ≠ Refusal.faultSomewhere.message := by
  by_cases faulty : root.HoldsFault
  · obtain ⟨p, fault, first, refused⟩ := outline_of_holdsFault dialect file source flagged faulty
    refine ⟨iff_of_true ⟨_, refused⟩ faulty, fun _ => ⟨p, fault, first⟩, fun refusal given => ?_⟩
    obtain rfl : _ = refusal := Except.error.inj (refused.symm.trans given)
    refine ⟨fun q other first' => ?_, Refusal.message_faultOnLine_ne _⟩
    rw [← first.unique first']
    rfl
  · have unrefused (refusal : Refusal) :
        dialect.outline false file source root ≠ .error refusal := by
      rw [outline_of_not_holdsFault dialect file source flagged faulty]
      nofun
    refine ⟨iff_of_false ?_ faulty, fun h => absurd h faulty, fun refusal given => ?_⟩
    · exact fun ⟨refusal, given⟩ => unrefused refusal given
    · exact absurd given (unrefused refusal)

/-- A bracket that is missing on the second line, deeper than the error on the third. -/
def missingBracket : SyntaxTree :=
  .node ⟨")", false, false, true, true, 3, 3, []⟩ []

/-- The tree of a source of three lines with two faults. -/
def brokenTree : SyntaxTree :=
  .node ⟨"module", true, false, false, true, 0, 5, []⟩
    [.node ⟨"identifier", true, false, false, false, 0, 1, []⟩ [],
      .node ⟨"call", true, false, false, true, 2, 3, []⟩
        [.node ⟨"identifier", true, false, false, false, 2, 3, []⟩ [], missingBracket],
      .node ⟨"ERROR", true, true, false, true, 4, 5, []⟩ []]

theorem outline_refused_brokenTree :
    brokenTree.Flagged ∧ brokenTree.FirstFault [1, 1] missingBracket ∧
    ∃ refusal, python.outline false "a.py" [97, 10, 102, 10, 63] brokenTree = .error refusal ∧
      refusal.message = "syntax error at line 2" := by
  have leaf (label : NodeLabel) (own : label.hasError = (label.isError || label.isMissing)) :
      (SyntaxTree.node label []).Flagged :=
    SyntaxTree.flagged_node (by simp [SyntaxTree.isFault, SyntaxTree.label, own]) nofun
  have flagged : brokenTree.Flagged := by
    refine SyntaxTree.flagged_node (by decide) ?_
    simp only [List.forall_mem_cons, List.not_mem_nil, false_implies, implies_true, and_true]
    refine ⟨leaf _ rfl, SyntaxTree.flagged_node (by decide) ?_, leaf _ rfl⟩
    simp only [List.forall_mem_cons, List.not_mem_nil, false_implies, implies_true, and_true]
    exact ⟨leaf _ rfl, leaf _ rfl⟩
  have first : brokenTree.FirstFault [1, 1] missingBracket := by
    have clear : ∀ q ∈ brokenTree.positions, q < [1, 1] →
        (brokenTree.subtree? q).any SyntaxTree.isFault = false := by decide
    refine ⟨rfl, rfl, fun q before earlier hq => ?_⟩
    have listed := SyntaxTree.mem_positions_iff_subtree?.mpr ⟨earlier, hq⟩
    simpa [hq] using clear q listed before
  obtain ⟨refused, -, reason⟩ :=
    outline_refused_at_first_fault python "a.py" [97, 10, 102, 10, 63] brokenTree flagged
  obtain ⟨refusal, given⟩ := refused.mpr ⟨[1, 1], missingBracket, first.here, first.isFault⟩
  exact ⟨flagged, first, refusal, given, (reason refusal given).1 _ _ first⟩

end Dialect

end CallAtlas
