import CallAtlas.CallGraph.Impact
import CallAtlas.Proofs.CallGraph.Changes

/-!
# Edits of a graph

The code of functions is edited one function at a time, and each edit is answered by the direct
callers of the function. The answer is read off the ids and the calls, and an edit touches neither.
So an edit is answered by what the graph was before all edits, however many came before it and
whether or not they failed, and of several edits of one function only the last one shows.
-/

namespace CallAtlas.CallGraph

variable {graph : CallGraph} {id code : String}

@[simp] theorem ids_setCode (graph : CallGraph) (id code : String) :
    (graph.setCode id code).ids = graph.ids :=
  graph.ids_mapNodes _ _

@[simp] theorem calls_setCode (graph : CallGraph) (id code : String) :
    (graph.setCode id code).calls = graph.calls := rfl

theorem nodes_setCode (graph : CallGraph) (id code : String) :
    (graph.setCode id code).nodes =
      graph.nodes.map fun node => if node.id = id then { node with code } else node := rfl

theorem setCode_of_notMem (unknown : id ∉ graph.ids) (code : String) :
    graph.setCode id code = graph := by
  refine eq_of_nodes_of_calls ?_ rfl
  calc
    (graph.setCode id code).nodes = graph.nodes.map fun node => node := by
      rw [nodes_setCode]
      refine List.map_congr_left fun node here => if_neg fun same => unknown ?_
      exact same ▸ List.mem_map_of_mem here
    _ = graph.nodes := List.map_id graph.nodes

@[simp] theorem callers_setCode (graph : CallGraph) (id code other : String) :
    (graph.setCode id code).callers other = graph.callers other := by
  simp [callers, callers?]

/-- The answer to an edit, and the graph after it. An edit that fails leaves the graph as it is. -/
def edit (graph : CallGraph) (edit : String × String) : Except Error Ripple × CallGraph :=
  match graph.updateCode edit.1 edit.2 with
  | .ok (edited, ripple) => (.ok ripple, edited)
  | .error e => (.error e, graph)

/-- The answers to some edits that are made one after another, and the graph after them. -/
def editAll (graph : CallGraph) : List (String × String) → List (Except Error Ripple) × CallGraph
  | [] => ([], graph)
  | first :: rest =>
    let (answer, edited) := graph.edit first
    let (answers, final) := edited.editAll rest
    (answer :: answers, final)

/-- What an edit of a function is answered. -/
def answer (graph : CallGraph) (id : String) : Except Error Ripple :=
  (graph.callers id).map (⟨id, ·⟩)

/-- The code that some edits leave a function with, if one of them names it. -/
def lastCode? (edits : List (String × String)) (id : String) : Option String :=
  edits.reverse.lookup id

theorem lastCode?_append (edits later : List (String × String)) (id : String) :
    lastCode? (edits ++ later) id = (lastCode? later id).or (lastCode? edits id) := by
  rw [lastCode?, List.reverse_append, List.lookup_append]
  rfl

/-- A graph is another one after some edits: each function has the last code that was written to
it, and nothing else differs. -/
structure Recoded (graph : CallGraph) (edits : List (String × String)) (final : CallGraph) :
    Prop where
  calls : final.calls = graph.calls
  nodes : final.nodes = graph.nodes.map fun node =>
    { node with code := (lastCode? edits node.id).getD node.code }

namespace Recoded

variable {middle final : CallGraph} {edits later : List (String × String)}

theorem refl (graph : CallGraph) : graph.Recoded [] graph :=
  ⟨rfl, (List.map_id graph.nodes).symm⟩

theorem eq_of_nil (h : graph.Recoded [] final) : final = graph :=
  eq_of_nodes_of_calls (h.nodes.trans (List.map_id graph.nodes)) h.calls

theorem ids (h : graph.Recoded edits final) : final.ids = graph.ids := by
  rw [CallGraph.ids, h.nodes, List.map_map]
  rfl

theorem trans (first : graph.Recoded edits middle) (second : middle.Recoded later final) :
    graph.Recoded (edits ++ later) final := by
  refine ⟨second.calls.trans first.calls, ?_⟩
  rw [second.nodes, first.nodes, List.map_map]
  refine List.map_congr_left fun node _ => ?_
  rw [lastCode?_append, Option.getD_or]
  rfl

theorem setCode (graph : CallGraph) (id code : String) :
    graph.Recoded [(id, code)] (graph.setCode id code) := by
  refine ⟨rfl, ?_⟩
  rw [nodes_setCode]
  refine List.map_congr_left fun node _ => ?_
  by_cases same : node.id = id
  · simp [lastCode?, same]
  · simp [lastCode?, List.lookup_cons, beq_false_of_ne same, same]

end Recoded

/-- All that an edit does. -/
theorem edit_eq (graph : CallGraph) (edit : String × String) :
    graph.edit edit = (graph.answer edit.1, graph.setCode edit.1 edit.2) := by
  cases found : graph.callers? edit.1 with
  | some affected => simp [CallGraph.edit, updateCode, answer, callers, found, Except.map]
  | none =>
      have unknown := callers?_eq_none_iff.mp found
      simp [CallGraph.edit, updateCode, answer, callers, found, Except.map,
        setCode_of_notMem unknown]

theorem answer_setCode (graph : CallGraph) (id code other : String) :
    (graph.setCode id code).answer other = graph.answer other := by
  rw [answer, callers_setCode, answer]

/-- Edits are answered by what the graph was before them. -/
theorem answers_editAll (graph : CallGraph) (edits : List (String × String)) :
    (graph.editAll edits).1 = edits.map fun edit => graph.answer edit.1 := by
  induction edits generalizing graph with
  | nil => rfl
  | cons first rest ih =>
      simp only [editAll, edit_eq, ih, answer_setCode, List.map_cons]

theorem editAll_concat (graph : CallGraph) (edits : List (String × String))
    (last : String × String) :
    (graph.editAll (edits ++ [last])).2 = (graph.editAll edits).2.setCode last.1 last.2 := by
  induction edits generalizing graph with
  | nil => simp only [List.nil_append, editAll, edit_eq]
  | cons first rest ih => exact ih (graph.edit first).2

theorem recoded_editAll (graph : CallGraph) (edits : List (String × String)) :
    graph.Recoded edits (graph.editAll edits).2 := by
  induction edits generalizing graph with
  | nil => exact .refl graph
  | cons first rest ih =>
      have now : graph.Recoded [first] (graph.edit first).2 := by
        rw [edit_eq]
        exact .setCode graph first.1 first.2
      exact now.trans (ih (graph.edit first).2)

/-- The graph and the answers that some edits lead to. -/
structure Edited (graph : CallGraph) (edits : List (String × String))
    (answers : List (Except Error Ripple)) (final : CallGraph) : Prop
    extends graph.Recoded edits final where
  answered : answers.length = edits.length
  /-- An edit of a known function is answered by its callers in the graph before all edits. -/
  known : ∀ (i : Nat) (id code : String), edits[i]? = some (id, code) → id ∈ graph.ids →
    ∃ callers, answers[i]? = some (.ok ⟨id, callers⟩) ∧ callers.Pairwise (· < ·) ∧
      ∀ y, y ∈ callers ↔ ⟨y, id⟩ ∈ graph.calls
  /-- An edit of an unknown function fails, and the graph stays as the edits before it left it. -/
  unknown : ∀ (i : Nat) (id code : String), edits[i]? = some (id, code) → id ∉ graph.ids →
    answers[i]? = some (.error (.nodeNotFound id)) ∧
      (graph.editAll (edits.take (i + 1))).2 = (graph.editAll (edits.take i)).2

theorem exists_callers_eq_ok (known : id ∈ graph.ids) :
    ∃ callers, graph.callers id = .ok callers ∧ callers.Pairwise (· < ·) ∧
      ∀ y, y ∈ callers ↔ ⟨y, id⟩ ∈ graph.calls := by
  have found : graph.callers? id = some _ := if_pos known
  refine ⟨_, ?_, callers_increasing found, fun y => mem_callers_iff found⟩
  rw [callers, found]

theorem callers_of_notMem (unknown : id ∉ graph.ids) :
    graph.callers id = .error (.nodeNotFound id) := by
  rw [callers, callers?_eq_none_iff.mpr unknown]

theorem exists_callees_eq_ok (known : id ∈ graph.ids) :
    ∃ callees, graph.callees id = .ok callees ∧ callees.Pairwise (· < ·) ∧
      ∀ y, y ∈ callees ↔ ⟨id, y⟩ ∈ graph.calls := by
  have found : graph.callees? id = some _ := if_pos known
  refine ⟨_, ?_, callees_increasing found, fun y => mem_callees_iff found⟩
  rw [callees, found]

theorem callees_of_notMem (unknown : id ∉ graph.ids) :
    graph.callees id = .error (.nodeNotFound id) := by
  rw [callees, callees?_eq_none_iff.mpr unknown]

theorem exists_answer_eq_ok (known : id ∈ graph.ids) :
    ∃ callers, graph.answer id = .ok ⟨id, callers⟩ ∧ callers.Pairwise (· < ·) ∧
      ∀ y, y ∈ callers ↔ ⟨y, id⟩ ∈ graph.calls := by
  obtain ⟨callers, answered, right⟩ := exists_callers_eq_ok known
  exact ⟨callers, by rw [answer, answered]; rfl, right⟩

theorem answer_of_notMem (unknown : id ∉ graph.ids) :
    graph.answer id = .error (.nodeNotFound id) := by
  rw [answer, callers_of_notMem unknown]
  rfl

theorem edited_editAll (graph : CallGraph) (edits : List (String × String)) :
    graph.Edited edits (graph.editAll edits).1 (graph.editAll edits).2 := by
  have answer_at : ∀ (i : Nat) (id code : String), edits[i]? = some (id, code) →
      (graph.editAll edits).1[i]? = some (graph.answer id) := by
    intro i id code made
    rw [answers_editAll, List.getElem?_map, made]
    rfl
  refine ⟨recoded_editAll graph edits, ?_, ?_, ?_⟩
  · rw [answers_editAll, List.length_map]
  · intro i id code made known
    obtain ⟨callers, answered, right⟩ := exists_answer_eq_ok known
    exact ⟨callers, answered ▸ answer_at i id code made, right⟩
  · intro i id code made unknown
    refine ⟨answer_of_notMem unknown ▸ answer_at i id code made, ?_⟩
    rw [List.take_add_one, made, Option.toList_some, editAll_concat]
    apply setCode_of_notMem
    rwa [(recoded_editAll graph _).ids]

end CallAtlas.CallGraph
