import CallAtlas.Proofs.Dialect.Scopes
import CallAtlas.Proofs.Ordered
import Mathlib.Data.String.Basic

/-!
# Which declaration a call belongs to

Two walks have to agree on where a declaration ends: one finds the declarations and goes on below
them, the other gathers the calls of a declaration and stops at the next one. In positions both are
simple. The calls of a declaration are made at the positions that continue its own without passing
a header, so each of them has this declaration as the innermost one around it.

A position lies in at most one innermost declaration, since the positions around it are the
beginnings of its own and of two of them one continues the other. And it lies in one whenever it
lies in any declaration at all: the longest of the beginnings where one is declared.
-/

namespace CallAtlas

instance : Std.LawfulEqOrd CallRef where
  eq_of_compare {a b} h := by
    obtain ⟨names, qualifiers⟩ := Ordering.then_eq_eq.mp h
    cases a
    cases b
    simp only [compareOn, Std.LawfulEqOrd.compare_eq_iff_eq] at names qualifiers
    exact CallRef.mk.injEq .. ▸ ⟨names, qualifiers⟩

@[simp] theorem CallSet.mem_refs_ofList {ref : CallRef} {refs : List CallRef} :
    ref ∈ (CallSet.ofList refs).refs ↔ ref ∈ refs :=
  Ordered.mem_ofList_id

namespace Dialect

variable (dialect : Dialect) (source : Bytes) (root : SyntaxTree)

/-- A call that is listed together with its qualifier. -/
def IsLibraryCall (ref : CallRef) : Prop :=
  ∃ q, ref.qualifier = some q ∧
    (q ++ "." ++ ref.name ∈ dialect.listed ∨ q ++ "::" ++ ref.name ∈ dialect.listed)

/-- The node at a position makes a reference, and declares nothing itself. -/
def CallsAt (position : Position) (ref : CallRef) : Prop :=
  dialect.headerAt? source root position = none ∧
    (root.site? position).bind (dialect.callRef source) = some ref

/-- The declaration at `p` is the innermost one around the node at `q`. -/
structure Innermost (p q : Position) : Prop where
  declares : dialect.DeclaresAt source root p
  above : p <+: q
  proper : p ≠ q
  alone : ∀ s, p <+: s → s <+: q → s ≠ p → s ≠ q → dialect.headerAt? source root s = none

variable {dialect source root} {tree : SyntaxTree} {ancestors : List SyntaxTree}
variable {p q : Position} {ref : CallRef}

theorem origin_eq_library_iff : dialect.origin ref = .library ↔ dialect.IsLibraryCall ref := by
  cases ref with
  | mk name qualifier =>
      cases qualifier <;> simp [origin, IsLibraryCall] <;> grind

theorem origin_eq_builtin_iff :
    dialect.origin ref = .builtin ↔ ¬ dialect.IsLibraryCall ref ∧ ref.name ∈ dialect.listed := by
  rw [← origin_eq_library_iff]
  simp only [origin, List.contains_iff_mem]
  grind

theorem origin_eq_program_iff :
    dialect.origin ref = .program ↔ ¬ dialect.IsLibraryCall ref ∧ ref.name ∉ dialect.listed := by
  rw [← origin_eq_library_iff]
  simp only [origin, List.contains_iff_mem]
  grind

theorem mem_callsAmong {trees : List SyntaxTree} :
    ref ∈ dialect.callsAmong source ancestors trees ↔
      ∃ (i : Nat) (tree : SyntaxTree),
        trees[i]? = some tree ∧ ref ∈ dialect.callsIn source ancestors tree := by
  induction trees with
  | nil => simp [callsAmong]
  | cons tree rest ih =>
      rw [callsAmong, List.mem_append, ih]
      constructor
      · rintro (now | ⟨i, other, hother, later⟩)
        · exact ⟨0, tree, rfl, now⟩
        · exact ⟨i + 1, other, hother, later⟩
      · rintro ⟨_ | i, other, hother, made⟩
        · obtain rfl : tree = other := Option.some.inj hother
          exact .inl made
        · exact .inr ⟨i, other, hother, made⟩

/-- The calls of a tree are made at the positions that no header shuts off. -/
theorem mem_callsIn (here : root.site? p = some ⟨tree, ancestors⟩) :
    ref ∈ dialect.callsIn source ancestors tree ↔
      ∃ r, (∀ s, s <+: r → dialect.headerAt? source root (p ++ s) = none) ∧
        (root.site? (p ++ r)).bind (dialect.callRef source) = some ref := by
  induction tree using SyntaxTree.inductionOnChildren generalizing p ancestors with
  | node label children ih =>
      have own : dialect.headerAt? source root p =
          dialect.header source ⟨.node label children, ancestors⟩ := by
        rw [headerAt?, here, Option.bind_some]
      rw [callsIn]
      cases found : dialect.header source ⟨.node label children, ancestors⟩ with
      | some header =>
          -- The node declares a function, so nothing below it counts.
          simp only [List.not_mem_nil, false_iff, not_exists]
          rintro r ⟨clear, -⟩
          have headless := clear [] List.nil_prefix
          rw [List.append_nil, own, found] at headless
          cases headless
      | none =>
          simp only [List.mem_append, Option.mem_toList, mem_callsAmong]
          constructor
          · rintro (call | ⟨i, child, hchild, call⟩)
            · refine ⟨[], fun s hs => ?_, by simpa [here] using call⟩
              rw [List.prefix_nil.mp hs, List.append_nil, own, found]
            · have there := SyntaxTree.site?_child here hchild
              obtain ⟨r, clear, made⟩ := (ih child (List.mem_of_getElem? hchild) there).mp call
              refine ⟨i :: r, fun s hs => ?_, by simpa using made⟩
              cases s with
              | nil => rw [List.append_nil, own, found]
              | cons j s =>
                  obtain ⟨rfl, inside⟩ := List.cons_prefix_cons.mp hs
                  simpa using clear s inside
          · rintro ⟨_ | ⟨i, r⟩, clear, made⟩
            · exact .inl (by simpa [here] using made)
            · obtain ⟨target, reached, -⟩ := Option.bind_eq_some_iff.mp made
              obtain ⟨child, hchild⟩ := SyntaxTree.exists_child_of_site? here reached
              have there := SyntaxTree.site?_child here hchild
              refine .inr ⟨i, child, hchild, ?_⟩
              refine (ih child (List.mem_of_getElem? hchild) there).mpr ⟨r, fun s hs => ?_, ?_⟩
              · simpa using clear (i :: s) (List.cons_prefix_cons.mpr ⟨rfl, hs⟩)
              · simpa using made

/-- The calls of a declaration are made where it is the innermost one. -/
theorem mem_callsBelow {site : Site} (declares : dialect.DeclaresAt source root p)
    (here : root.site? p = some site) :
    ref ∈ dialect.callsBelow source site ↔
      ∃ q, dialect.Innermost source root p q ∧ dialect.CallsAt source root q ref := by
  obtain ⟨tree, ancestors⟩ := site
  rw [callsBelow, mem_callsAmong]
  constructor
  · rintro ⟨i, child, hchild, call⟩
    have there := SyntaxTree.site?_child here hchild
    obtain ⟨r, clear, made⟩ := (mem_callsIn there).mp call
    have step : p ++ i :: r = p ++ [i] ++ r := by simp
    refine ⟨p ++ i :: r, ⟨declares, List.prefix_append _ _, by simp, ?_⟩, ?_, step ▸ made⟩
    · intro s below above other _
      obtain ⟨_ | ⟨j, s⟩, rfl⟩ := below
      · exact absurd (List.append_nil p) other
      · obtain ⟨rfl, hs⟩ := List.cons_prefix_cons.mp ((List.prefix_append_right_inj p).mp above)
        simpa using clear s hs
    · exact step ▸ clear r List.prefix_rfl
  · rintro ⟨q, ⟨-, ⟨_ | ⟨i, r⟩, rfl⟩, proper, alone⟩, free, made⟩
    · exact absurd (List.append_nil p).symm proper
    obtain ⟨target, reached, -⟩ := Option.bind_eq_some_iff.mp made
    obtain ⟨child, hchild⟩ := SyntaxTree.exists_child_of_site? here reached
    have there := SyntaxTree.site?_child here hchild
    refine ⟨i, child, hchild, (mem_callsIn there).mpr ⟨r, fun s hs => ?_, by simpa using made⟩⟩
    have step : p ++ [i] ++ s = p ++ i :: s := by simp
    rw [step]
    by_cases whole : s = r
    · rw [whole, free]
    · refine alone _ (List.prefix_append _ _) ?_ (by simp) (by simpa using whole)
      exact (List.prefix_append_right_inj p).mpr (List.cons_prefix_cons.mpr ⟨rfl, hs⟩)

/-- There is at most one innermost declaration around a node. -/
theorem Innermost.unique {p' : Position} (h : dialect.Innermost source root p q)
    (h' : dialect.Innermost source root p' q) : p = p' := by
  -- Of two declarations around one node, the inner one would stand between the outer one and it.
  have inner : ∀ {a b : Position}, dialect.Innermost source root a q →
      dialect.Innermost source root b q → a <+: b → a = b := by
    intro a b ha hb below
    by_contra other
    obtain ⟨-, header, found⟩ := hb.declares
    have headless := ha.alone b below hb.above (Ne.symm other) hb.proper
    rw [found] at headless
    cases headless
  rcases List.prefix_or_prefix_of_prefix h.above h'.above with below | below
  · exact inner h h' below
  · exact (inner h' h below).symm

/-- A node below some declaration has an innermost one: the last of its beginnings where a function
is declared. -/
theorem exists_innermost (declares : dialect.DeclaresAt source root p) (above : p <+: q)
    (proper : p ≠ q) : ∃ p', dialect.Innermost source root p' q := by
  induction hn : q.length - p.length using Nat.strongRecOn generalizing p with
  | ind n ih =>
      by_cases alone : ∀ s, p <+: s → s <+: q → s ≠ p → s ≠ q →
          dialect.headerAt? source root s = none
      · exact ⟨p, declares, above, proper, alone⟩
      · -- A header between the two is a declaration that lies closer to the node.
        push Not at alone
        obtain ⟨s, below, before, other, inside, found⟩ := alone
        have longer : p.length < s.length := by
          refine lt_of_le_of_ne below.length_le fun same => other ?_
          exact (below.eq_of_length same).symm
        have shorter := before.length_le
        have nonroot : s ≠ [] := List.ne_nil_of_length_pos (by omega)
        refine ih (q.length - s.length) (by omega) ⟨nonroot, ?_⟩ before inside rfl
        exact Option.ne_none_iff_exists'.mp found

/-- What a declaration has of a reference: it is among the calls or the builtin calls when some node
makes it of which the declaration is the innermost one, unless it is a library call; which of the
two, its bare name decides. -/
def Attributes (dialect : Dialect) (source : Bytes) (root : SyntaxTree) (p : Position)
    (d : Declaration) : Prop :=
  ∀ ref,
    (ref ∈ d.calls.refs ↔
      (∃ q, dialect.Innermost source root p q ∧ dialect.CallsAt source root q ref) ∧
        ¬ dialect.IsLibraryCall ref ∧ ref.name ∉ dialect.listed) ∧
    (ref ∈ d.builtinCalls.refs ↔
      (∃ q, dialect.Innermost source root p q ∧ dialect.CallsAt source root q ref) ∧
        ¬ dialect.IsLibraryCall ref ∧ ref.name ∈ dialect.listed)

theorem declarations_attributed :
    List.Forall₂ (dialect.Attributes source root) (dialect.declaredPositions source root)
      (dialect.declarations source root) := by
  refine declarations_forall₂.imp fun {p d} ⟨declares, listed⟩ ref => ?_
  obtain ⟨site, here, listed⟩ := Option.bind_eq_some_iff.mp listed
  obtain ⟨header, found, rfl⟩ := Option.map_eq_some_iff.mp listed
  simp only [declaration, CallSet.mem_refs_ofList, List.mem_filter, decide_eq_true_eq,
    mem_callsBelow declares here, origin_eq_program_iff, origin_eq_builtin_iff, and_self]

/-- The declaration with the number of a position. -/
theorem exists_declaration {k : Nat}
    (hk : (dialect.declaredPositions source root)[k]? = some p) :
    ∃ d, (dialect.declarations source root)[k]? = some d ∧
      dialect.Attributes source root p d := by
  have attributed := @declarations_attributed dialect source root
  obtain ⟨hlt, rfl⟩ := List.getElem?_eq_some_iff.mp hk
  have hlt' := attributed.length_eq ▸ hlt
  exact ⟨_, List.getElem?_eq_getElem hlt', attributed.get hlt hlt'⟩

/-- The innermost declaration around a call lists it, library calls apart. -/
theorem Attributes.listed {d : Declaration} (h : dialect.Attributes source root p d)
    (innermost : dialect.Innermost source root p q) (call : dialect.CallsAt source root q ref)
    (other : ¬ dialect.IsLibraryCall ref) : ref ∈ d.calls.refs ∨ ref ∈ d.builtinCalls.refs := by
  rw [(h ref).1, (h ref).2]
  by_cases known : ref.name ∈ dialect.listed
  · exact .inr ⟨⟨q, innermost, call⟩, other, known⟩
  · exact .inl ⟨⟨q, innermost, call⟩, other, known⟩

/-- A call belongs to the innermost declaration around it and to no other. Declarations stand at the
positions below the root with a header, and each has the references that are made where it is the
innermost one. So a call that is no library call feeds exactly one declaration when it lies below
any, and none otherwise. -/
theorem calls_of_innermost (dialect : Dialect) (source : Bytes) (root : SyntaxTree) :
    ∃ positions : List Position,
      positions.Pairwise (· < ·) ∧
      (∀ p, p ∈ positions ↔ dialect.DeclaresAt source root p) ∧
      List.Forall₂ (dialect.Attributes source root) positions (dialect.declarations source root) ∧
      ∀ q ref, dialect.CallsAt source root q ref → ¬ dialect.IsLibraryCall ref →
        ((∃ p, dialect.DeclaresAt source root p ∧ p <+: q ∧ p ≠ q) →
          ∃! k : Nat, ∃ p d, positions[k]? = some p ∧
            (dialect.declarations source root)[k]? = some d ∧
            dialect.Innermost source root p q ∧
            (ref ∈ d.calls.refs ∨ ref ∈ d.builtinCalls.refs)) ∧
        ((¬ ∃ p, dialect.DeclaresAt source root p ∧ p <+: q ∧ p ≠ q) →
          ∀ p ∈ positions, ¬ dialect.Innermost source root p q) := by
  refine ⟨dialect.declaredPositions source root, declaredPositions_increasing,
    fun p => mem_declaredPositions, declarations_attributed, ?_⟩
  intro q ref call other
  constructor
  · rintro ⟨p, declares, above, proper⟩
    obtain ⟨p, innermost⟩ := exists_innermost declares above proper
    obtain ⟨k, hk⟩ := List.mem_iff_getElem?.mp (mem_declaredPositions.mpr innermost.declares)
    obtain ⟨d, hd, attributes⟩ := exists_declaration hk
    refine ⟨k, ⟨p, d, hk, hd, innermost, attributes.listed innermost call other⟩, ?_⟩
    rintro j ⟨p', -, hj, -, innermost', -⟩
    obtain rfl := innermost.unique innermost'
    have distinct : (dialect.declaredPositions source root).Nodup :=
      declaredPositions_increasing.imp fun h => ne_of_lt h
    obtain ⟨hlt, -⟩ := List.getElem?_eq_some_iff.mp hj
    exact (List.getElem?_inj hlt distinct).mp (hj.trans hk.symm)
  · intro nowhere p _ innermost
    exact nowhere ⟨p, innermost.declares, innermost.above, innermost.proper⟩

end Dialect

end CallAtlas
