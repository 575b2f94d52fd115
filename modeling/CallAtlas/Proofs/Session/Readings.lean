import CallAtlas.Proofs.Report.Agreement
import CallAtlas.Proofs.Session.History

/-!
# What a reader of a session finds

A session publishes the output of a run as a whole and afterwards changes only the code of
functions in it. What is published is therefore coherent after every history, and also while a
further run is going. Everything that a reader then fetches, at any time and place, agrees with
everything else.
-/

namespace CallAtlas

/-- A list with an element that passes a test has a last one that does. -/
theorem exists_last {α : Type} {test : α → Bool} {xs : List α} (h : ∃ x ∈ xs, test x) :
    ∃ earlier x later, xs = earlier ++ x :: later ∧ test x ∧ ∀ y ∈ later, test y = false := by
  induction xs with
  | nil => simp at h
  | cons x xs ih =>
      by_cases rest : ∃ y ∈ xs, test y
      · obtain ⟨earlier, y, later, rfl, passes, fail⟩ := ih rest
        exact ⟨x :: earlier, y, later, rfl, passes, fail⟩
      · have fail : ∀ y ∈ xs, test y = false := by simpa using rest
        refine ⟨[], x, xs, rfl, ?_, fail⟩
        obtain ⟨y, hy, passes⟩ := h
        rcases List.mem_cons.mp hy with rfl | hy
        · exact passes
        · exact absurd ⟨y, hy, passes⟩ rest

theorem Publication.EditedBy.coherent {edits : List (String × String)}
    {original current : Publication} (edited : EditedBy edits original current)
    (h : original.analysis.Coherent) : current.analysis.Coherent :=
  h.recoded edited.graph edited.clusters edited.summary

namespace Session

variable {session : Session} {publication : Publication}

theorem Episode.coherent_of_output? {episode : Episode} {output : Publication}
    (h : episode.output? = some output) : output.analysis.Coherent := by
  obtain ⟨operation, answer⟩ := episode
  cases operation with
  | request => cases h
  | run fs timings stamp config requests =>
      obtain ⟨result, ended, given⟩ := Option.bind_eq_some_iff.mp h
      obtain ⟨analysis, succeeded, rfl⟩ := Option.map_eq_some_iff.mp given
      cases result with
      | error e => cases succeeded
      | ok analysis' =>
          cases succeeded
          exact Analysis.coherent_of_unwatched ended

/-- What is published was the output of some run, and edits keep it coherent. -/
theorem Publishes.coherent {episodes : List Episode} (h : Publishes episodes (some publication)) :
    publication.analysis.Coherent := by
  obtain ⟨earlier, run, later, split, success, quiet⟩ := exists_last (h.isSome_iff.mp rfl)
  obtain ⟨output, _, given, -, current, edited⟩ := h.latest earlier run later split success quiet
  cases current
  exact edited.coherent (Episode.coherent_of_output? given)

/-- All that a reader can fetch from a session at some time and place agrees. -/
def ReadsTogether (session : Session) (fs : FileSystem) (stamp : Stamp) : Prop :=
  ∃ summary report, session.summary? = some summary ∧ session.report? fs stamp = some report ∧
    report.Agrees session.graphView session.clusterViews summary

theorem readsTogether_of_published (published : session.published = some publication)
    (coherent : publication.analysis.Coherent) (fs : FileSystem) (stamp : Stamp) :
    session.ReadsTogether fs stamp := by
  refine ⟨publication.analysis.summary,
    .make fs stamp publication.config publication.analysis, ?_, ?_, ?_⟩
  · simp [summary?, published]
  · simp [report?, published]
  · simp only [graphView, clusterViews, published]
    exact Report.agrees_make coherent fs stamp publication.config

/-- In every session that has published something, after every history and at every moment of a
further run, all that a reader can fetch agrees: the report, the graph, the clusters and the
summary. -/
theorem readings_agree (operations : List Operation)
    (published : (({} : Session).after operations).published.isSome) :
    let session := ({} : Session).after operations
    (∀ (fs : FileSystem) (stamp : Stamp), session.ReadsTogether fs stamp) ∧
    ∀ (fs : FileSystem) (stamp : Stamp) (requests : Phase → List Request) (count : Nat),
      let now := ((observer fs stamp requests).after (session.begun, []) count).1
      ∀ (fs' : FileSystem) (stamp' : Stamp), now.ReadsTogether fs' stamp' := by
  intro session
  have publishes := (settled_new.after operations).publishes
  obtain ⟨publication, current⟩ := Option.isSome_iff_exists.mp published
  rw [current] at publishes
  have coherent := publishes.coherent
  refine ⟨readsTogether_of_published current coherent, ?_⟩
  intro fs stamp requests count now
  have kept := (watched_after fs stamp session requests count).running.published
  rw [show session.published = some publication from current] at kept
  obtain ⟨edited, published, edits⟩ := kept.exists_of_some
  exact readsTogether_of_published published (edits.coherent coherent)

/-- A run that succeeds, an edit, and runs that fail and are called off. -/
theorem readings_agree_mutualHistory :
    let session := ({} : Session).after mutualHistory
    session.published.isSome ∧
      ∀ (fs : FileSystem) (stamp : Stamp), session.ReadsTogether fs stamp :=
  ⟨published_mutualHistory, (readings_agree mutualHistory published_mutualHistory).1⟩

end Session

end CallAtlas
