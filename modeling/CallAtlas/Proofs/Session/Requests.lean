import CallAtlas.Session
import CallAtlas.Proofs.CallGraph.Distance
import CallAtlas.Proofs.CallGraph.Edits
import CallAtlas.Proofs.Dictionary
import Mathlib.Data.List.Forall2

/-!
# One request of a session

`Session.Tells` says what a session answers to a request, by the data that is published: its
functions and calls, its clusters, its figures, and the calls and distances in its graph.
`Session.Served` says what a request does to a session. An accepted edit goes into what is
published, where it replaces the code of one function (`Publication.EditedBy`), and a cancellation
marks the run that is going. Nothing else changes.
-/

namespace CallAtlas

/-- The ids of which something holds, in order. -/
structure Lists (holds : String → Prop) (ids : List String) : Prop where
  increasing : ids.Pairwise (· < ·)
  mem_iff : ∀ id, id ∈ ids ↔ holds id

namespace ClusterView

/-- A reader is shown a cluster. -/
structure Shows (cluster : Cluster) (view : ClusterView) : Prop where
  id : view.id = cluster.id
  label : view.label = cluster.label
  cohesion : view.cohesion = cluster.cohesion
  members : view.members.Perm cluster.members
  ordered : view.members.Pairwise (· ≤ ·)
  nodeCount : view.nodeCount = cluster.members.length

/-- A reader is shown some clusters, in the order of their numbers. -/
structure ShowsAll (clusters : List Cluster) (views : List ClusterView) : Prop where
  shown : ∃ each, views.Perm each ∧ List.Forall₂ Shows clusters each
  ordered : views.Pairwise (·.id ≤ ·.id)

theorem shows_ofCluster (cluster : Cluster) : Shows cluster (ofCluster cluster) where
  id := rfl
  label := rfl
  cohesion := rfl
  members := List.mergeSort_perm _ _
  ordered := Ordered.pairwise_mergeSort_key (fun id => id) cluster.members
  nodeCount := rfl

theorem showsAll_ofClusters (clusters : List Cluster) :
    ShowsAll clusters (ofClusters clusters) where
  shown := by
    refine ⟨clusters.map ofCluster, List.mergeSort_perm _ _, ?_⟩
    rw [List.forall₂_map_right_iff]
    exact List.forall₂_same.mpr fun cluster _ => shows_ofCluster cluster
  ordered := Ordered.pairwise_mergeSort_key ClusterView.id (clusters.map ofCluster)

end ClusterView

/-- A report describes what is published, and where and when it was made. -/
structure Report.Describes (fs : FileSystem) (stamp : Stamp) (publication : Publication)
    (report : Report) : Prop where
  version : report.version = "1.0"
  nodes : report.nodes = publication.analysis.graph.nodes
  links : report.links = publication.analysis.graph.calls
  clusters : ClusterView.ShowsAll publication.analysis.clusters report.clusters
  stats : report.stats.entries.Perm
    [("files", encode publication.analysis.summary.fileCount),
      ("functions", encode publication.analysis.graph.nodes.length),
      ("calls", encode publication.analysis.graph.calls.length),
      ("clusters", encode publication.analysis.clusters.length),
      ("warnings", encode publication.analysis.summary.warnings.length)]
  metadata : report.metadata.entries.Perm
    [("root_name", encode (rootName fs publication.config)),
      ("root_path", encode ((fs.canonical? publication.config.root).getD publication.config.root)),
      ("language", encode publication.config.language),
      ("analysed_at", encode stamp.time),
      ("codearc_version", encode "0.3.0"),
      ("commit_hash", Codec.encodeOption stamp.commit),
      ("analysis_duration_ms", encode publication.analysis.summary.durationMs),
      ("phase_timings", encode publication.analysis.summary.phaseTimings)]

theorem Report.describes_make (fs : FileSystem) (stamp : Stamp) (publication : Publication) :
    (make fs stamp publication.config publication.analysis).Describes fs stamp publication where
  version := rfl
  nodes := rfl
  links := rfl
  clusters := ClusterView.showsAll_ofClusters _
  stats := Dictionary.entries_ofList_perm (by simp)
  metadata := Dictionary.entries_ofList_perm (by simp)

namespace Session

/-- An answer about a function of the published graph. -/
inductive About {α : Type} (id : String) (right : CallGraph → α → Prop) :
    Option Publication → Except Error α → Prop where
  | nothing : About id right none (.error nothingYet)
  | unknown (publication : Publication) (unknown : id ∉ publication.analysis.graph.ids) :
      About id right (some publication) (.error (.nodeNotFound id))
  | known (publication : Publication) (known : id ∈ publication.analysis.graph.ids) {answer : α}
      (answered : right publication.analysis.graph answer) :
      About id right (some publication) (.ok answer)

/-- What a session tells that has published something, or nothing, and whose run is going, or
not. -/
inductive Tells (fs : FileSystem) (stamp : Stamp) (running : Bool)
    (published : Option Publication) : Request → Reply → Prop where
  | cancel : Tells fs stamp running published .cancel (.cancelled running)
  | start (config : Config) :
      Tells fs stamp running published (.start config)
        (.refusal (if running then some .alreadyProcessing else none))
  | update {id code : String} {result : Except Error CallGraph.Ripple}
      (about : About id (fun graph ripple => ripple.node = id ∧
        Lists (fun y => ⟨y, id⟩ ∈ graph.calls) ripple.affected) published result) :
      Tells fs stamp running published (.update id code) (.updated result)
  | graph :
      Tells fs stamp running published .graph
        (.graph ⟨published.elim [] (·.analysis.graph.nodes),
          published.elim [] (·.analysis.graph.calls)⟩)
  | clusters {views : List ClusterView}
      (shown : ClusterView.ShowsAll (published.elim [] (·.analysis.clusters)) views) :
      Tells fs stamp running published .clusters (.clusters views)
  | summary :
      Tells fs stamp running published .summary (.summary (published.map (·.analysis.summary)))
  | report {report : Option Report}
      (described : Option.Rel (fun publication report => report.Describes fs stamp publication)
        published report) :
      Tells fs stamp running published .report (.report report)
  | callers {id : String} {result : Except Error (List String)}
      (about : About id (fun graph => Lists fun y => ⟨y, id⟩ ∈ graph.calls) published result) :
      Tells fs stamp running published (.callers id) (.functions result)
  | callees {id : String} {result : Except Error (List String)}
      (about : About id (fun graph => Lists fun y => ⟨id, y⟩ ∈ graph.calls) published result) :
      Tells fs stamp running published (.callees id) (.functions result)
  | radius {id : String} {depth : Nat} {result : Except Error (List (String × Nat))}
      (about : About id (fun graph reached => (reached.map Prod.fst).Pairwise (· < ·) ∧
        ∀ y d, (y, d) ∈ reached ↔ y ≠ id ∧ graph.Distance y id d ∧ d ≤ depth) published result) :
      Tells fs stamp running published (.radius id depth) (.radius result)

section Tells

variable {fs : FileSystem} {stamp : Stamp} {id : String}

theorem about_withGraph {α : Type} {right : CallGraph → α → Prop} (session : Session)
    {f : CallGraph → Except Error α}
    (known : ∀ graph : CallGraph, id ∈ graph.ids → ∃ answer, f graph = .ok answer ∧ right graph answer)
    (unknown : ∀ graph : CallGraph, id ∉ graph.ids → f graph = .error (.nodeNotFound id)) :
    About id right session.published (session.withGraph f) := by
  rw [withGraph]
  cases session.published with
  | none => exact .nothing
  | some publication =>
      by_cases here : id ∈ publication.analysis.graph.ids
      · obtain ⟨answer, answered, correct⟩ := known _ here
        show About id right _ (f publication.analysis.graph)
        rw [answered]
        exact .known publication here correct
      · show About id right _ (f publication.analysis.graph)
        rw [unknown _ here]
        exact .unknown publication here

/-- The answer to an edit is one about the published graph. -/
theorem updateCode_eq_withGraph (session : Session) (id code : String) :
    (session.updateCode id code).1 = session.withGraph (·.answer id) := by
  rw [updateCode, withGraph]
  cases session.published with
  | none => rfl
  | some publication =>
      have edit := publication.analysis.graph.edit_eq (id, code)
      rw [CallGraph.edit] at edit
      dsimp only at edit ⊢
      rw [← (Prod.mk.inj edit).1]
      cases publication.analysis.graph.updateCode id code <;> rfl

/-- What a session answers goes with what it has published and whether a run is going. -/
theorem tells_serve (session : Session) {running : Bool}
    (state : session.state = .processing ↔ running) (active : session.active.isSome = running)
    (request : Request) :
    Tells fs stamp running session.published request (session.serve fs stamp request).1 := by
  cases request with
  | cancel =>
      have told : session.cancel.1 = running := by
        rw [← active, cancel]
        cases session.active <;> rfl
      show Tells _ _ _ _ _ (.cancelled session.cancel.1)
      rw [told]
      exact .cancel
  | start config =>
      have told : session.refusal? = if running then some .alreadyProcessing else none := by
        simp only [refusal?, state]
      rw [serve, told]
      exact .start config
  | update id code =>
      show Tells _ _ _ _ _ (.updated (session.updateCode id code).1)
      rw [updateCode_eq_withGraph]
      refine .update (about_withGraph session ?_ fun graph => CallGraph.answer_of_notMem)
      intro graph known
      obtain ⟨callers, answered, increasing, mem_iff⟩ := CallGraph.exists_answer_eq_ok known
      exact ⟨_, answered, rfl, increasing, mem_iff⟩
  | graph =>
      have told : session.graphView = ⟨session.published.elim [] (·.analysis.graph.nodes),
          session.published.elim [] (·.analysis.graph.calls)⟩ := by
        rw [graphView]
        cases session.published <;> rfl
      rw [serve, told]
      exact .graph
  | clusters =>
      refine .clusters ?_
      rw [clusterViews]
      cases session.published with
      | none => exact ⟨⟨[], .nil, .nil⟩, .nil⟩
      | some publication => exact ClusterView.showsAll_ofClusters _
  | summary => exact .summary
  | report =>
      refine .report ?_
      rw [report?]
      cases session.published with
      | none => exact .none
      | some publication => exact .some (Report.describes_make fs stamp publication)
  | callers id =>
      refine .callers (about_withGraph session ?_ fun graph => CallGraph.callers_of_notMem)
      intro graph known
      obtain ⟨callers, answered, increasing, mem_iff⟩ := CallGraph.exists_callers_eq_ok known
      exact ⟨callers, answered, increasing, mem_iff⟩
  | callees id =>
      refine .callees (about_withGraph session ?_ fun graph => CallGraph.callees_of_notMem)
      intro graph known
      obtain ⟨callees, answered, increasing, mem_iff⟩ := CallGraph.exists_callees_eq_ok known
      exact ⟨callees, answered, increasing, mem_iff⟩
  | radius id depth =>
      refine .radius (about_withGraph session ?_ ?_)
      · intro graph known
        exact CallGraph.exists_radius_eq_ok known depth
      · intro graph unknown
        exact CallGraph.radius_of_notMem unknown depth

end Tells

end Session

/-- A publication is another one after some edits: each function has the last code that was written
to it, and nothing else differs. -/
structure Publication.EditedBy (edits : List (String × String)) (original current : Publication) :
    Prop where
  config : current.config = original.config
  graph : original.analysis.graph.Recoded edits current.analysis.graph
  clusters : current.analysis.clusters = original.analysis.clusters
  summary : current.analysis.summary = original.analysis.summary

namespace Publication.EditedBy

variable {edits later : List (String × String)} {original middle current : Publication}

theorem refl (publication : Publication) : EditedBy [] publication publication :=
  ⟨rfl, .refl _, rfl, rfl⟩

theorem eq_of_nil (h : EditedBy [] original current) : current = original := by
  obtain ⟨config, graph, clusters, summary⟩ := h
  obtain ⟨_, _, _, _⟩ := original
  obtain ⟨_, _, _, _⟩ := current
  have graph := graph.eq_of_nil
  cases config
  cases clusters
  cases summary
  cases graph
  rfl

theorem trans (first : EditedBy edits original middle) (second : EditedBy later middle current) :
    EditedBy (edits ++ later) original current where
  config := second.config.trans first.config
  graph := first.graph.trans second.graph
  clusters := second.clusters.trans first.clusters
  summary := second.summary.trans first.summary

end Publication.EditedBy

/-- What is published after some edits, if anything is. -/
def PublishedAfter (edits : List (String × String)) : Option Publication → Option Publication → Prop :=
  Option.Rel (Publication.EditedBy edits)

namespace PublishedAfter

variable {edits later : List (String × String)} {original middle current : Option Publication}

theorem refl (published : Option Publication) : PublishedAfter [] published published := by
  cases published with
  | none => exact .none
  | some publication => exact .some (.refl publication)

theorem eq_of_nil (h : PublishedAfter [] original current) : current = original := by
  cases h with
  | none => rfl
  | some edited => rw [edited.eq_of_nil]

theorem trans (first : PublishedAfter edits original middle) (second : PublishedAfter later middle current) :
    PublishedAfter (edits ++ later) original current := by
  cases first with
  | none =>
      cases second
      exact .none
  | some first =>
      cases second with
      | some second => exact .some (first.trans second)

theorem isSome_eq (h : PublishedAfter edits original current) : current.isSome = original.isSome := by
  cases h <;> rfl

theorem exists_of_some {publication : Publication}
    (h : PublishedAfter edits (some publication) current) :
    ∃ edited, current = some edited ∧ Publication.EditedBy edits publication edited := by
  cases h with
  | some edited => exact ⟨_, rfl, edited⟩

end PublishedAfter

/-- The edit that a request made, if it asked for one and was granted it. -/
def acceptedEdit? : Request × Reply → Option (String × String)
  | (.update id code, .updated (.ok _)) => some (id, code)
  | _ => none

/-- The edits that some requests made, in order. -/
def acceptedEdits (served : List (Request × Reply)) : List (String × String) :=
  served.filterMap acceptedEdit?

theorem acceptedEdits_append (served later : List (Request × Reply)) :
    acceptedEdits (served ++ later) = acceptedEdits served ++ acceptedEdits later :=
  List.filterMap_append

namespace Session

/-- Whether a run that is going was cancelled, after a request. -/
def stopped : Request → Option Bool → Option Bool
  | .cancel, active => active.map fun _ => true
  | _, active => active

/-- All that a request does to a session, when it is answered by some reply. -/
structure Served (request : Request) (reply : Reply) (before after : Session) : Prop where
  state : after.state = before.state
  lastError : after.lastError = before.lastError
  active : after.active = stopped request before.active
  published : PublishedAfter (acceptedEdits [(request, reply)]) before.published after.published

theorem served_updateCode (session : Session) (id code : String) :
    Served (.update id code) (.updated (session.updateCode id code).1) session
      (session.updateCode id code).2 := by
  -- Without a publication, and for an unknown function, nothing is accepted and nothing changes.
  have refused : ∀ e, session.updateCode id code = (.error e, session) →
      Served (.update id code) (.updated (session.updateCode id code).1) session
        (session.updateCode id code).2 := by
    intro e h
    rw [h]
    exact ⟨rfl, rfl, rfl, .refl _⟩
  cases h : session.published with
  | none => exact refused nothingYet (by simp [updateCode, h])
  | some publication =>
      cases known : publication.analysis.graph.callers? id with
      | none =>
          exact refused (.nodeNotFound id) (by simp [updateCode, CallGraph.updateCode, h, known])
      | some affected =>
          simp only [updateCode, CallGraph.updateCode, h, known]
          refine ⟨rfl, rfl, rfl, ?_⟩
          rw [h]
          exact .some ⟨rfl, .setCode publication.analysis.graph id code, rfl, rfl⟩

theorem served_serve (session : Session) (fs : FileSystem) (stamp : Stamp) (request : Request) :
    Served request (session.serve fs stamp request).1 session
      (session.serve fs stamp request).2 := by
  cases request with
  | cancel =>
      obtain ⟨state, published, lastError, active⟩ := session
      cases active <;> exact ⟨rfl, rfl, rfl, .refl _⟩
  | update id code => exact session.served_updateCode id code
  | _ => exact ⟨rfl, rfl, rfl, .refl _⟩

end Session

end CallAtlas
