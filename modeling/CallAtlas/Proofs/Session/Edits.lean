import CallAtlas.Proofs.Session.History

/-!
# Edits through a session

A session passes edits on to the graph that it has published. Whatever else is asked of it in
between, the edits are answered, and the graph ends, as if they were made of that graph alone, and
nothing else that was published changes. Before the first publication every edit is refused, also
one that the observer of the first run asks for.
-/

namespace CallAtlas

/-- The edit that a request asks for. -/
def Request.edit? : Request → Option (String × String)
  | .update id code => some (id, code)
  | _ => none

/-- What an edit is answered. -/
def Reply.ripple? : Reply → Option (Except Error CallGraph.Ripple)
  | .updated result => some result
  | _ => none

namespace Publication

/-- A publication with another graph. -/
def withGraph (publication : Publication) (graph : CallGraph) : Publication :=
  { publication with analysis := { publication.analysis with graph } }

/-- The answers to some edits of what is published, and what is published after them. -/
def editAll (edits : List (String × String)) :
    Option Publication → List (Except Error CallGraph.Ripple) × Option Publication
  | none => (edits.map fun _ => .error Session.nothingYet, none)
  | some publication =>
    let (answers, graph) := publication.analysis.graph.editAll edits
    (answers, some (publication.withGraph graph))

end Publication

namespace Session

variable (fs : FileSystem) (stamp : Stamp)

/-- A request for anything but an edit has another reply, and what is published stays. -/
theorem serve_of_edit?_eq_none (session : Session) {request : Request}
    (other : request.edit? = none) :
    (session.serve fs stamp request).1.ripple? = none ∧
      (session.serve fs stamp request).2.published = session.published := by
  cases request with
  | update id code => cases other
  | cancel =>
      refine ⟨rfl, ?_⟩
      simp only [serve, cancel]
      split <;> rfl
  | _ => exact ⟨rfl, rfl⟩

/-- An edit is one of what is published. -/
theorem serve_update (session : Session) (edit : String × String) (edits : List (String × String)) :
    ∃ answer, (session.serve fs stamp (.update edit.1 edit.2)).1 = .updated answer ∧
      let rest := Publication.editAll edits
        (session.serve fs stamp (.update edit.1 edit.2)).2.published
      Publication.editAll (edit :: edits) session.published = (answer :: rest.1, rest.2) := by
  cases published : session.published with
  | none =>
      have refused : session.serve fs stamp (.update edit.1 edit.2) =
          (.updated (.error nothingYet), session) := by
        simp only [serve, updateCode, published]
      rw [refused]
      refine ⟨.error nothingYet, rfl, ?_⟩
      rw [published]
      rfl
  | some publication =>
      refine ⟨(publication.analysis.graph.edit edit).1, ?_⟩
      simp only [serve, updateCode, published, Publication.editAll, CallGraph.editAll,
        CallGraph.edit]
      cases publication.analysis.graph.updateCode edit.1 edit.2 with
      | ok made => exact ⟨rfl, rfl⟩
      | error e =>
          refine ⟨rfl, ?_⟩
          rw [published]

theorem serveAll_cons (session : Session) (request : Request) (requests : List Request) :
    session.serveAll fs stamp (request :: requests) =
      ((session.serve fs stamp request).1 ::
          ((session.serve fs stamp request).2.serveAll fs stamp requests).1,
        ((session.serve fs stamp request).2.serveAll fs stamp requests).2) := rfl

/-- Whatever else is asked, the edits among some requests are those of what is published. -/
theorem serveAll_edits (session : Session) (requests : List Request) :
    ((session.serveAll fs stamp requests).1.filterMap Reply.ripple?,
        (session.serveAll fs stamp requests).2.published) =
      Publication.editAll (requests.filterMap Request.edit?) session.published := by
  induction requests generalizing session with
  | nil =>
      show ([], session.published) = _
      cases session.published <;> rfl
  | cons request requests ih =>
      rw [serveAll_cons]
      cases asked : request.edit? with
      | none =>
          obtain ⟨silent, kept⟩ := serve_of_edit?_eq_none fs stamp session asked
          rw [List.filterMap_cons_none asked, List.filterMap_cons_none silent, ih, kept]
      | some edit =>
          obtain rfl : request = .update edit.1 edit.2 := by
            cases request <;> cases asked
            rfl
          obtain ⟨answer, reply, rest⟩ := serve_update fs stamp session edit
            (requests.filterMap Request.edit?)
          rw [List.filterMap_cons_some asked, rest, ← ih, reply]
          rfl

/-- Requests change neither the state of a session nor its message. -/
theorem state_serveAll (session : Session) (requests : List Request) :
    (session.serveAll fs stamp requests).2.state = session.state ∧
      (session.serveAll fs stamp requests).2.lastError = session.lastError := by
  induction requests generalizing session with
  | nil => exact ⟨rfl, rfl⟩
  | cons request requests ih =>
      have now := session.served_serve fs stamp request
      obtain ⟨state, lastError⟩ := ih (session.serve fs stamp request).2
      exact ⟨state.trans now.state, lastError.trans now.lastError⟩

variable {fs stamp} in
/-- The observer of a run is refused every edit when nothing was published before. -/
theorem Observed.refuses_edits {before : Session} {requests : Phase → List Request}
    {notices : List Notice} (observed : Observed fs stamp before requests notices)
    (unpublished : before.published = none) {notice : Notice} (noticed : notice ∈ notices) {i : Nat}
    {id code : String} (asked : (requests notice.phase)[i]? = some (.update id code)) :
    notice.replies[i]? = some (.updated (.error nothingYet)) := by
  have inside : i < notice.replies.length := by
    rw [observed.replied notice noticed]
    exact (List.getElem?_eq_some_iff.mp asked).1
  have replied := List.getElem?_eq_getElem inside
  have exchanged : (.update id code, notice.replies[i]) ∈ Notice.served requests notice := by
    apply List.mem_of_getElem? (i := i)
    rw [Notice.served, List.getElem?_zip_eq_some]
    exact ⟨asked, replied⟩
  obtain ⟨earlier, later, split⟩ :=
    List.append_of_mem (List.mem_flatMap.mpr ⟨notice, noticed, exchanged⟩)
  obtain ⟨current, kept, told⟩ := observed.answered earlier _ _ later split
  rw [replied]
  rw [unpublished] at kept
  cases kept
  generalize notice.replies[i] = reply at told ⊢
  cases told with
  | update about =>
      cases about
      rfl

/-- Any edits of a graph change nothing but the code of the functions that they name and the graph
has. Each is answered by the callers of its function before all edits, or fails when there is no
such function. The same holds of what a session has published, whatever else is asked of the session
in between. A new session refuses every edit for as long as no run of it has succeeded. -/
theorem edits_change_code_alone :
    (∀ (graph : CallGraph) (edits : List (String × String)),
      graph.Edited edits (graph.editAll edits).1 (graph.editAll edits).2) ∧
    (∀ (session : Session) (publication : Publication) (fs : FileSystem) (stamp : Stamp)
      (requests : List Request), session.published = some publication →
        let served := session.serveAll fs stamp requests
        ∃ final,
          publication.analysis.graph.Edited (requests.filterMap Request.edit?)
            (served.1.filterMap Reply.ripple?) final ∧
          served.2.published = some (publication.withGraph final) ∧
          served.2.state = session.state ∧ served.2.lastError = session.lastError) ∧
    ∀ operations : List Operation,
      (∀ episode ∈ ({} : Session).history operations, episode.succeeded = false) →
        let session := ({} : Session).after operations
        (∀ (fs : FileSystem) (stamp : Stamp) (requests : List Request),
          let served := session.serveAll fs stamp requests
          served.1.filterMap Reply.ripple? =
              (requests.filterMap Request.edit?).map (fun _ => .error nothingYet) ∧
            served.2.published = none) ∧
        ∀ (fs : FileSystem) (timings : Timings) (stamp : Stamp) (config : Config)
          (requests : Phase → List Request),
          ∀ notice ∈ (session.analyze fs timings stamp config requests).notices,
            ∀ (i : Nat) (id code : String), (requests notice.phase)[i]? = some (.update id code) →
              notice.replies[i]? = some (.updated (.error nothingYet)) := by
  refine ⟨CallGraph.edited_editAll, ?_, ?_⟩
  · intro session publication fs stamp requests published served
    have edits := session.serveAll_edits fs stamp requests
    rw [published] at edits
    obtain ⟨answers, final⟩ := Prod.mk.inj edits
    refine ⟨_, ?_, final, session.state_serveAll fs stamp requests⟩
    rw [show served.1.filterMap Reply.ripple? = _ from answers]
    exact CallGraph.edited_editAll _ _
  · intro operations unsuccessful session
    have settled := settled_new.after operations
    have unpublished : session.published = none := by
      rw [← Option.not_isSome_iff_eq_none, settled.publishes.isSome_iff]
      rintro ⟨episode, past, success⟩
      rw [unsuccessful episode past] at success
      cases success
    constructor
    · intro fs stamp requests served
      have edits := session.serveAll_edits fs stamp requests
      rw [unpublished] at edits
      exact Prod.mk.inj edits
    · intro fs timings stamp config requests notice noticed i id code asked
      obtain ⟨observed, -⟩ := ended_analyze (not_processing_of_noticed noticed) fs timings stamp
        config requests
      exact observed.refuses_edits unpublished noticed asked

/-- Two edits of one function, with a query and an edit of no function in between, and an edit after
a run that failed. -/
theorem edits_change_code_alone_mutualCalls :
    let analysis := Analysis.summed ⟨fun _ => 0.0, 0.0⟩ [] [] [] CallGraph.mutualCalls
    let session : Session := { state := .ready, published := some ⟨mutualConfig, analysis⟩ }
    let requests : List Request := [.update "f.py::pong()" "first", .graph,
      .update "f.py::pang()" "lost", .update "f.py::pong()" "last"]
    let served := session.serveAll mutualSource ⟨"", none⟩ requests
    let failed : Operation := .run mutualSource ⟨fun _ => 0.0, 0.0⟩ ⟨"", none⟩ { root := "lib" }
      fun _ => []
    (∃ final callers,
      served.2.published = some (Publication.withGraph ⟨mutualConfig, analysis⟩ final) ∧
      final.nodes.map FunctionNode.code = ["", "last"] ∧
      (served.1.filterMap Reply.ripple?)[2]? = some (.ok ⟨"f.py::pong()", callers⟩) ∧
      ∀ y, y ∈ callers ↔ ⟨y, "f.py::pong()"⟩ ∈ CallGraph.mutualCalls.calls) ∧
    (∀ episode ∈ ({} : Session).history [failed], episode.succeeded = false) ∧
      ((({} : Session).after [failed]).serveAll mutualSource ⟨"", none⟩
        [.update "a.py::f()" "", .summary]).1.filterMap Reply.ripple? = [.error nothingYet] := by
  intro analysis session requests served failed
  obtain ⟨-, published, unpublished⟩ := edits_change_code_alone
  obtain ⟨final, edited, publication, -⟩ :=
    published session ⟨mutualConfig, analysis⟩ mutualSource ⟨"", none⟩ requests rfl
  obtain ⟨callers, answered, -, listed⟩ :=
    edited.known 2 "f.py::pong()" "last" rfl (by decide +kernel)
  have unsuccessful : ∀ episode ∈ ({} : Session).history [failed], episode.succeeded = false := by
    decide +kernel
  refine ⟨⟨final, callers, publication, ?_, answered, listed⟩, unsuccessful, ?_⟩
  · rw [edited.nodes]
    decide +kernel
  · exact ((unpublished [failed] unsuccessful).1 mutualSource ⟨"", none⟩ _).1

end Session

end CallAtlas
