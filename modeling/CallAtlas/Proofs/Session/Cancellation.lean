import CallAtlas.Grammar.Python
import CallAtlas.Proofs.Analysis.Cancellation
import CallAtlas.Proofs.CallGraph.References
import CallAtlas.Proofs.Cluster.Tuning
import CallAtlas.Proofs.Session.Runs
import CallAtlas.Proofs.SourceFile.Scan

/-!
# Sessions whose runs are called off

The observer of a session calls a run off by asking for it. The request marks the run that is going,
and nothing removes the mark, so the run is called off in its last state exactly when one of the
phases it came to was answered with such a request. A run that is called off then publishes nothing,
and one that ends as cancelled leaves no other trace either.

A run that is called off as its last phase begins is not cancelled where tuning the resolution goes
on forever. `Analysis.unwatched_eq_none_iff_tunesForever` says where that is.
-/

namespace CallAtlas

namespace Session

variable {fs : FileSystem} {stamp : Stamp} {session before : Session}

/-- A run is going, and it is marked in the case that it was `called` off. -/
structure Marked (called : Prop) (session : Session) : Prop where
  going : session.active.isSome
  mark_iff : session.active = some true ↔ called

section Marked

variable {called called' : Prop}

theorem Marked.congr (h : Marked called session) (same : called ↔ called') :
    Marked called' session :=
  ⟨h.going, h.mark_iff.trans same⟩

theorem Marked.serve (h : Marked called session) (request : Request) :
    Marked (called ∨ request = .cancel) (session.serve fs stamp request).2 := by
  have marked := (session.served_serve fs stamp request).active
  obtain ⟨mark, active⟩ := Option.isSome_iff_exists.mp h.going
  cases request with
  | cancel => exact ⟨by simp [marked, stopped, active], by simp [marked, stopped, active]⟩
  | _ => exact ⟨by rw [marked]; exact h.going, by simpa [marked, stopped] using h.mark_iff⟩

theorem Marked.serveAll (h : Marked called session) (requests : List Request) :
    Marked (called ∨ .cancel ∈ requests) (session.serveAll fs stamp requests).2 := by
  induction requests generalizing called session with
  | nil => exact h.congr (by simp)
  | cons request requests ih =>
      have rest : Marked _ (session.serveAll fs stamp (request :: requests)).2 :=
        ih (h.serve request)
      apply rest.congr
      rw [List.mem_cons, or_assoc, eq_comm]

theorem Marked.foldl {requests : Phase → List Request} {seen : Session × List Notice}
    (h : Marked called seen.1) (phases : List Phase) :
    Marked (called ∨ ∃ phase ∈ phases, .cancel ∈ requests phase)
      (phases.foldl (fun seen phase => (observer fs stamp requests).notify phase seen) seen).1 := by
  induction phases generalizing called seen with
  | nil => exact h.congr (by simp)
  | cons phase phases ih =>
      have told : Marked _ ((observer fs stamp requests).notify phase seen).1 :=
        h.serveAll (requests phase)
      apply (ih told).congr
      simp only [List.mem_cons, exists_eq_or_imp, or_assoc]

end Marked

theorem cancelled_after_iff (fs : FileSystem) (stamp : Stamp) (before : Session)
    (requests : Phase → List Request) (count : Nat) :
    let watcher := observer fs stamp requests
    watcher.cancelled (watcher.after (before.begun, []) count) = true ↔
      ∃ phase ∈ Phase.all.take count, .cancel ∈ requests phase := by
  intro watcher
  have begun : Marked False before.begun := ⟨rfl, by simp [Session.begun]⟩
  have marked : Marked _ (watcher.after (before.begun, []) count).1 :=
    Marked.foldl begun (Phase.all.take count)
  have mark := marked.mark_iff
  rw [false_or] at mark
  exact decide_eq_true_iff.trans mark

section Analyze

variable {timings : Timings} {config : Config} {requests : Phase → List Request}

/-- The run of a session at rest heeds the session's observer, which notices the phases it is told
of. -/
theorem heeded_analyze (rest : before.state ≠ .processing) (fs : FileSystem) (timings : Timings)
    (stamp : Stamp) (config : Config) (requests : Phase → List Request) :
    ∃ (result : Option (Except Error Analysis)) (told : List Phase),
      let final := (observer fs stamp requests).after (before.begun, []) told.length
      before.analyze fs timings stamp config requests =
          ⟨result.map (·.map Analysis.summary), final.2, final.1.left before.state config result⟩ ∧
        final.2.map Notice.phase = told ∧
        Analysis.Heeded fs timings config (observer fs stamp requests) (before.begun, []) result
          final told := by
  obtain ⟨told, -, heeded⟩ :=
    Analysis.heeded_run fs timings config (observer fs stamp requests) (before.begun, [])
  rw [analyze_eq rest]
  generalize (Analysis.run fs timings config (observer fs stamp requests)).outcome
    (before.begun, []) = ran at heeded ⊢
  obtain ⟨result, final⟩ := ran
  have final_eq : final = _ := heeded.final_eq
  subst final_eq
  have watched := watched_after fs stamp before requests told.length
  refine ⟨result, told, rfl, ?_, heeded⟩
  exact watched.phases.trans (List.prefix_iff_eq_take.mp heeded.inOrder).symm

/-- A run that its observer asked to call off is cancelled, or failed in the scan before, or goes on
forever after its last phase began. -/
theorem result_of_cancel
    (asked : ∃ notice ∈ (before.analyze fs timings stamp config requests).notices,
      .cancel ∈ requests notice.phase) :
    let outcome := before.analyze fs timings stamp config requests
    outcome.result = some (.error .cancelled) ∨
      (outcome.notices.map Notice.phase = [.scan] ∧ ∃ e, outcome.result = some (.error e)) ∨
      (outcome.notices.map Notice.phase = Phase.all ∧ outcome.result = none) := by
  obtain ⟨notice, noticed, asked⟩ := asked
  obtain ⟨result, told, outcome, phases, heeded⟩ :=
    heeded_analyze (not_processing_of_noticed noticed) fs timings stamp config requests
  rw [outcome] at noticed ⊢
  have phase : notice.phase ∈ told := phases ▸ List.mem_map_of_mem noticed
  rw [List.prefix_iff_eq_take.mp heeded.inOrder] at phase
  have called := (cancelled_after_iff fs stamp before requests told.length).mpr ⟨_, phase, asked⟩
  rcases heeded.calledOff called with rfl | ⟨scanning, e, -, rfl, -⟩ | ⟨last, rfl, -⟩
  · exact .inl rfl
  · exact .inr (.inl ⟨phases.trans scanning, e, rfl⟩)
  · exact .inr (.inr ⟨phases.trans last, rfl⟩)

/-- A run that nobody asked to call off has the result that it has with nobody watching. -/
theorem result_of_uncancelled (rest : before.state ≠ .processing)
    (passed : ∀ phase, .cancel ∉ requests phase) :
    (before.analyze fs timings stamp config requests).result =
      (Analysis.unwatched fs timings config).map (·.map Analysis.summary) := by
  obtain ⟨result, told, outcome, -, heeded⟩ :=
    heeded_analyze rest fs timings stamp config requests
  have uncalled : (observer fs stamp requests).cancelled
      ((observer fs stamp requests).after (before.begun, []) told.length) = false := by
    rw [Bool.eq_false_iff]
    intro called
    obtain ⟨phase, -, asked⟩ := (cancelled_after_iff fs stamp before requests _).mp called
    exact passed phase asked
  rw [outcome, ← (heeded.notCalledOff uncalled).1]

/-- A run comes back, whatever its observer does, if it does with nobody watching. -/
theorem isSome_result (before : Session) (stamp : Stamp) (requests : Phase → List Request)
    (ends : (Analysis.unwatched fs timings config).isSome) :
    (before.analyze fs timings stamp config requests).result.isSome := by
  by_cases processing : before.state = .processing
  · rw [analyze_of_processing processing]
    rfl
  obtain ⟨result, told, outcome, -, heeded⟩ :=
    heeded_analyze processing fs timings stamp config requests
  rw [outcome, Option.isSome_map, Option.isSome_iff_ne_none]
  intro endless
  rw [(heeded.endless_iff.mp endless).2] at ends
  cases ends

/-- A run without success leaves what was published, and all else as well if it was cancelled. -/
theorem Ended.of_unsuccessful {edits : List (String × String)}
    {result : Option (Except Error Summary)} {final : Session}
    (ended : Ended fs timings config before edits result final)
    (unsuccessful : ∀ summary, result ≠ some (.ok summary)) :
    PublishedAfter edits before.published final.published ∧
      (result = some (.error .cancelled) →
        final.lastError = before.lastError ∧ final.state = before.state) := by
  cases ended with
  | published analysis output => exact absurd rfl (unsuccessful analysis.summary)
  | cancelled kept => exact ⟨kept, fun _ => ⟨rfl, rfl⟩⟩
  | failed e other kept =>
      refine ⟨kept, fun cancelled => ?_⟩
      cases cancelled
      exact absurd rfl other
  | endless processing lastError kept => exact ⟨kept, nofun⟩

end Analyze

end Session

namespace Analysis

/-- The files of a run are found, and their graph has a community that is too large at the
resolution zero. -/
def TunesForever (fs : FileSystem) (config : Config) : Prop :=
  ∃ scanned language, SourceFile.scan fs config false = .ok scanned ∧
    config.chosenLanguage = .ok language ∧ (config.resolution == 0) = true ∧
    max 1 config.maxClusterSize <
      Network.largest ((Network.ofGraph Float (linked fs config language scanned.files).1).communities
        config.resolution)

/-- With nobody watching, a run goes on forever when tuning its resolution does. -/
theorem unwatched_eq_none_iff_tunesForever {fs : FileSystem} {timings : Timings} {config : Config} :
    unwatched fs timings config = none ↔ TunesForever fs config := by
  simp only [unwatched_eq_none_iff, concluded_eq_none_iff, CallGraph.cluster?_eq_none_iff,
    TunesForever, found_eq_ok_iff, and_assoc]

end Analysis

namespace Session

/-- Every run heeds its observer. A run that is called off has no result: it is cancelled, or it
fails in the scan as it would have failed anyway, or it is called off as its last phase begins and
goes on forever as it would have done anyway. No phase is told of after that, and a run that is
never called off is never cancelled. A run goes on forever only where tuning its resolution does. In
a session, a run that was called off leaves what was published before, with the edits accepted
meanwhile, and one that ends as cancelled leaves the state and the last message of the session as
well. -/
theorem cancellation_heeded {σ : Type} (fs : FileSystem) (timings : Timings) (config : Config)
    (observer : Observer σ) (s : σ) (session : Session) (stamp : Stamp)
    (requests : Phase → List Request) :
    (let ran := (Analysis.run fs timings config observer).outcome s
    ∃ told, (Analysis.run fs timings config observer.logged).outcome (s, []) =
        (ran.1, ran.2, told) ∧
      Analysis.Heeded fs timings config observer s ran.1 ran.2 told) ∧
    (Analysis.unwatched fs timings config = none ↔ Analysis.TunesForever fs config) ∧
    let outcome := session.analyze fs timings stamp config requests
    let edits := acceptedEdits (outcome.notices.flatMap (Notice.served requests))
    (∃ notice ∈ outcome.notices, .cancel ∈ requests notice.phase) →
      (∀ summary, outcome.result ≠ some (.ok summary)) ∧
      PublishedAfter edits session.published outcome.session.published ∧
      (edits = [] → outcome.session.published = session.published) ∧
      (outcome.result = some (.error .cancelled) →
        outcome.session.lastError = session.lastError ∧
          outcome.session.state = session.state) := by
  refine ⟨Analysis.heeded_run fs timings config observer s,
    Analysis.unwatched_eq_none_iff_tunesForever, ?_⟩
  intro outcome edits asked
  have unsuccessful : ∀ summary, outcome.result ≠ some (.ok summary) := by
    intro summary success
    rcases result_of_cancel asked with ended | ⟨-, e, ended⟩ | ⟨-, ended⟩ <;>
      cases success.symm.trans ended
  obtain ⟨notice, noticed, -⟩ := asked
  obtain ⟨-, ended⟩ :=
    ended_analyze (not_processing_of_noticed noticed) fs timings stamp config requests
  obtain ⟨kept, cancelled⟩ := ended.of_unsuccessful unsuccessful
  refine ⟨unsuccessful, kept, ?_, cancelled⟩
  intro unedited
  have kept : PublishedAfter edits session.published outcome.session.published := kept
  rw [unedited] at kept
  exact kept.eq_of_nil

/-- A source with two functions that call each other. -/
def mutualText : Bytes := Text.Utf8.encode "def f():\n    g()\n\ndef g():\n    f()\n"

/-- A directory with that source. -/
def mutualSource : FileSystem where
  tree := .dir [(Text.Utf8.encode "src",
    .dir [(Text.Utf8.encode "a.py",
      .file { bytes := mutualText, syntaxTree := Grammar.Python.parse? mutualText })])]
  here := []

/-- A run over that directory, at a resolution that needs no tuning. -/
def mutualConfig : Config := { root := "src", language := "python", resolution := 16.0 }

/-- A new session whose first run is called off as its files are to be read stays as it is. -/
theorem cancelled_mutualSource :
    let requests : Phase → List Request := fun phase => if phase = .parsing then [.cancel] else []
    let outcome := ({} : Session).analyze mutualSource ⟨fun _ => 0.0, 0.0⟩ ⟨"", none⟩ mutualConfig
      requests
    outcome.notices.map Notice.phase = [.scan, .parsing] ∧
      outcome.result = some (.error .cancelled) ∧ outcome.session.published.isNone ∧
      outcome.session.lastError = none ∧ outcome.session.state = .idle := by
  intro requests outcome
  have phases : outcome.notices.map Notice.phase = [.scan, .parsing] := by decide +kernel
  have asked : ∃ notice ∈ outcome.notices, .cancel ∈ requests notice.phase := by
    have parsing : Phase.parsing ∈ outcome.notices.map Notice.phase := by simp [phases]
    obtain ⟨notice, noticed, phase⟩ := List.mem_map.mp parsing
    exact ⟨notice, noticed, by simp [requests, phase]⟩
  have cancelled : outcome.result = some (.error .cancelled) := by
    rcases result_of_cancel asked with cancelled | ⟨scanning, -⟩ | ⟨last, -⟩
    · exact cancelled
    · cases phases.symm.trans scanning
    · cases phases.symm.trans last
  obtain ⟨-, -, left⟩ := cancellation_heeded mutualSource ⟨fun _ => 0.0, 0.0⟩ mutualConfig .silent ()
    {} ⟨"", none⟩ requests
  obtain ⟨-, -, unedited, restored⟩ := left asked
  have kept : outcome.session.published = none := unedited (by decide +kernel)
  exact ⟨phases, cancelled, by simp [kept], restored cancelled⟩

/-- A run over that directory that may put no two functions together, at the resolution zero. -/
def mutualConfigZero : Config := { mutualConfig with resolution := 0, maxClusterSize := 1 }

theorem tunesForever_mutualSource : Analysis.TunesForever mutualSource mutualConfigZero := by
  have chosen : mutualConfigZero.chosenLanguage = .ok .python := by decide +kernel
  have located : mutualSource.locate (Text.Utf8.encode "src") = .ok [Text.Utf8.encode "src"] := by
    decide +kernel
  have root : mutualSource.entry (Text.Utf8.encode "src") = .ok (.dir [(Text.Utf8.encode "a.py",
      .file { bytes := mutualText, syntaxTree := Grammar.Python.parse? mutualText })]) := by
    rw [FileSystem.entry, located]
    simp [bind, Except.bind, mutualSource, FileTree.get?]
  have found : SourceFile.below mutualConfigZero .python [(Text.Utf8.encode "a.py",
      .file { bytes := mutualText, syntaxTree := Grammar.Python.parse? mutualText })] =
        [[Text.Utf8.encode "a.py"]] := by
    rw [SourceFile.below, List.mergeSort_of_pairwise] <;> decide +kernel
  refine ⟨_, .python, SourceFile.scan_eq_below chosen root, chosen, by decide, ?_⟩
  rw [found, Analysis.linked, CallGraph.link]
  rw [programEntries_of_ordered (by decide +kernel) (by decide +kernel)]
  decide +kernel

/-- Called off as its last phase begins, that run is not cancelled, but goes on forever. -/
theorem endless_mutualSource :
    let watcher : Observer Bool :=
      { notify := fun phase stopped => stopped || phase = .communities, cancelled := id }
    (Analysis.run mutualSource ⟨fun _ => 0.0, 0.0⟩ mutualConfigZero watcher.logged).outcome
      (false, []) = (none, true, Phase.all) := by
  intro watcher
  have ends := Analysis.ends_run mutualSource ⟨fun _ => 0.0, 0.0⟩ mutualConfigZero watcher.logged
    (false, [])
  have unanswered := ends.eq_none_iff.mpr ⟨by decide,
    Analysis.unwatched_eq_none_iff_tunesForever.mpr tunesForever_mutualSource⟩
  generalize (Analysis.run mutualSource ⟨fun _ => 0.0, 0.0⟩ mutualConfigZero watcher.logged).outcome
    (false, []) = ran at ends unanswered ⊢
  obtain ⟨result, final⟩ := ran
  dsimp only at ends unanswered
  subst unanswered
  cases ends with
  | endless => rfl

end Session

end CallAtlas
