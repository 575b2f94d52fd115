import CallAtlas.Proofs.Analysis.Accounting
import CallAtlas.Proofs.Session.Cancellation

/-!
# Sessions over any history

A session is used by one operation after another: a run, with whatever its observer asks meanwhile,
or a single request. Each operation and its answer make an episode, so that what happened can be
told from the answers alone: which runs succeeded, and which edits were accepted.

What a session has published is the output of the last run that succeeded, with the edits accepted
since (`Publishes`). As long as all runs came back, the session is at rest between operations
(`Session.AtRest`). Both are kept by every operation, hence by every history of a new session.
-/

namespace CallAtlas.Session

/-- What is done with a session. File systems and times are those of the moment. -/
inductive Operation where
  /-- A run, during which its observer makes some requests at the beginning of each phase. -/
  | run (fs : FileSystem) (timings : Timings) (stamp : Stamp) (config : Config)
      (requests : Phase → List Request)
  /-- A request between runs. -/
  | request (fs : FileSystem) (stamp : Stamp) (request : Request)

/-- What comes of an operation. -/
inductive Answer where
  | outcome (result : Option (Except Error Summary)) (notices : List Notice)
  | reply (reply : Reply)

/-- The answer to an operation, and the session after it. -/
def perform (session : Session) : Operation → Answer × Session
  | .run fs timings stamp config requests =>
    let outcome := session.analyze fs timings stamp config requests
    (.outcome outcome.result outcome.notices, outcome.session)
  | .request fs stamp request =>
    let (reply, session) := session.serve fs stamp request
    (.reply reply, session)

/-- An operation and what came of it. -/
structure Episode where
  operation : Operation
  answer : Answer

namespace Episode

/-- The summary that a run answered, if it succeeded. -/
def summary? : Episode → Option Summary
  | ⟨.run .., .outcome (some (.ok summary)) _⟩ => some summary
  | _ => none

/-- Whether it was a run that succeeded. -/
def succeeded (episode : Episode) : Bool := episode.summary?.isSome

/-- Whether it came back: a run may not. -/
def returned : Episode → Bool
  | ⟨.run .., .outcome none _⟩ => false
  | _ => true

/-- What a run has for its configuration with nobody watching. -/
def output? : Episode → Option Publication
  | ⟨.run fs timings _ config _, _⟩ =>
    (Analysis.unwatched fs timings config).bind fun result =>
      result.toOption.map fun analysis => ⟨config, analysis⟩
  | ⟨.request .., _⟩ => none

/-- The edits that were accepted in its course. -/
def edits : Episode → List (String × String)
  | ⟨.run _ _ _ _ requests, .outcome _ notices⟩ =>
    acceptedEdits (notices.flatMap (Notice.served requests))
  | ⟨.request _ _ request, .reply reply⟩ => acceptedEdits [(request, reply)]
  | _ => []

end Episode

/-- A session after some operations. -/
def after (session : Session) (operations : List Operation) : Session :=
  operations.foldl (fun session operation => (session.perform operation).2) session

/-- What came of some operations, in order. -/
def history (session : Session) : List Operation → List Episode
  | [] => []
  | operation :: rest =>
    ⟨operation, (session.perform operation).1⟩ :: (session.perform operation).2.history rest

/-- What holds of a session between operations. -/
structure AtRest (session : Session) : Prop where
  not_processing : session.state ≠ .processing
  cancel : session.cancel = (false, session)
  idle : session.state = .idle → session.published = none ∧ session.lastError = none
  ready : session.state = .ready → session.published.isSome ∧ session.lastError = none
  error : session.state = .error ↔ session.lastError.isSome

/-- What is published after some episodes: nothing before the first run that succeeds, and the
output of the last one that did, which answered its summary, with all edits accepted after it. -/
structure Publishes (episodes : List Episode) (published : Option Publication) : Prop where
  isSome_iff : published.isSome ↔ ∃ episode ∈ episodes, episode.succeeded
  latest : ∀ earlier run later, episodes = earlier ++ run :: later → run.succeeded →
    (∀ episode ∈ later, episode.succeeded = false) →
      ∃ output current, run.output? = some output ∧ run.summary? = some output.analysis.summary ∧
        published = some current ∧ Publication.EditedBy (later.flatMap Episode.edits) output current

section AtRest

variable {session : Session}

theorem AtRest.inactive (h : session.AtRest) : session.active = none := by
  have cancelled := h.cancel
  cases active : session.active with
  | none => rfl
  | some mark => simp [Session.cancel, active] at cancelled

theorem AtRest.edited (h : session.AtRest) {edits : List (String × String)}
    {current : Option Publication} (kept : PublishedAfter edits session.published current) :
    { session with published := current, active := none : Session }.AtRest := by
  refine ⟨h.not_processing, rfl, ?_, ?_, h.error⟩
  · intro idle
    obtain ⟨unpublished, fine⟩ := h.idle idle
    rw [unpublished] at kept
    cases kept
    exact ⟨rfl, fine⟩
  · intro ready
    obtain ⟨published, fine⟩ := h.ready ready
    exact ⟨kept.isSome_eq.trans published, fine⟩

theorem AtRest.fail (published : Option Publication) (message : String) :
    { state := .error, published, lastError := some message : Session }.AtRest := by
  refine ⟨RunState.noConfusion, rfl, ?_, ?_, by simp⟩
  · intro idle
    cases idle
  · intro ready
    cases ready

theorem AtRest.publish (publication : Publication) :
    { state := .ready, published := some publication : Session }.AtRest := by
  refine ⟨RunState.noConfusion, rfl, ?_, fun _ => ⟨rfl, rfl⟩, ?_⟩
  · intro idle
    cases idle
  · constructor <;> intro h <;> cases h

theorem AtRest.serve (h : session.AtRest) (fs : FileSystem) (stamp : Stamp) (request : Request) :
    (session.serve fs stamp request).2.AtRest := by
  have now := session.served_serve fs stamp request
  have unmarked : (session.serve fs stamp request).2.active = none := by
    rw [now.active, h.inactive]
    cases request <;> rfl
  have rest := h.edited now.published
  rwa [← now.state, ← now.lastError, ← unmarked] at rest

end AtRest

section Publishes

variable {episodes : List Episode} {published current : Option Publication} {episode : Episode}

/-- An episode without success only edits. -/
theorem Publishes.edit (h : Publishes episodes published) (failed : episode.succeeded = false)
    (kept : PublishedAfter episode.edits published current) :
    Publishes (episodes ++ [episode]) current := by
  refine ⟨?_, ?_⟩
  · rw [kept.isSome_eq, h.isSome_iff]
    simp [failed]
  · intro earlier run later split success quiet
    rcases concat_eq_append_cons split with ⟨rfl, rfl, rfl⟩ | ⟨rest, rfl, old⟩
    · rw [failed] at success
      cases success
    -- The run stands before the new episode, whose edits come after all others.
    · obtain ⟨output, _, given, answered, rfl, edited⟩ :=
        h.latest earlier run rest old success fun e he => quiet e (List.mem_append_left _ he)
      obtain ⟨last, rfl, edits⟩ := kept.exists_of_some
      refine ⟨output, last, given, answered, rfl, ?_⟩
      rw [List.flatMap_append, List.flatMap_singleton]
      exact edited.trans edits

/-- A run that succeeds replaces what was published. -/
theorem Publishes.replace {output : Publication} (given : episode.output? = some output)
    (answered : episode.summary? = some output.analysis.summary) :
    Publishes (episodes ++ [episode]) (some output) := by
  have success : episode.succeeded := by rw [Episode.succeeded, answered, Option.isSome_some]
  refine ⟨?_, ?_⟩
  · simp [success]
  · intro earlier run later split _ quiet
    rcases concat_eq_append_cons split with ⟨rfl, rfl, rfl⟩ | ⟨rest, rfl, old⟩
    · exact ⟨output, output, given, answered, rfl, .refl output⟩
    · have failed := quiet episode (List.mem_append_right _ List.mem_cons_self)
      rw [success] at failed
      cases failed

end Publishes

/-- What every history of a session keeps. -/
structure Settled (episodes : List Episode) (session : Session) : Prop where
  rest : (∀ episode ∈ episodes, episode.returned) → session.AtRest
  publishes : Publishes episodes session.published

theorem Settled.perform {episodes : List Episode} {session : Session}
    (h : Settled episodes session) (operation : Operation) :
    Settled (episodes ++ [⟨operation, (session.perform operation).1⟩])
      (session.perform operation).2 := by
  have earlier : (∀ episode ∈ episodes ++ [⟨operation, (session.perform operation).1⟩],
      Episode.returned episode) → session.AtRest := fun returned =>
    h.rest fun episode past => returned episode (List.mem_append_left _ past)
  cases operation with
  | request fs stamp request =>
      refine ⟨fun returned => (earlier returned).serve fs stamp request, ?_⟩
      exact h.publishes.edit rfl (session.served_serve fs stamp request).published
  | run fs timings stamp config requests =>
      by_cases processing : session.state = .processing
      -- A session that is processing refuses the run and stays as it is.
      · have refused := analyze_of_processing processing fs timings stamp config requests
        simp only [Session.perform, refused] at earlier ⊢
        exact ⟨earlier, h.publishes.edit rfl (.refl _)⟩
      obtain ⟨-, ended⟩ := ended_analyze processing fs timings stamp config requests
      simp only [Session.perform] at earlier ⊢
      generalize session.analyze fs timings stamp config requests = outcome at earlier ended ⊢
      obtain ⟨result, notices, final⟩ := outcome
      dsimp only at earlier ended ⊢
      cases ended with
      | published analysis output =>
          refine ⟨fun _ => AtRest.publish ⟨config, analysis⟩, Publishes.replace ?_ rfl⟩
          simp [Episode.output?, output, Except.toOption]
      | cancelled kept =>
          exact ⟨fun returned => (earlier returned).edited kept, h.publishes.edit rfl kept⟩
      | failed e other kept =>
          exact ⟨fun _ => AtRest.fail _ e.message, h.publishes.edit rfl kept⟩
      | endless processing lastError kept =>
          refine ⟨fun returned => ?_, h.publishes.edit rfl kept⟩
          cases returned _ (List.mem_append_right _ List.mem_cons_self)

theorem Settled.after {episodes : List Episode} {session : Session}
    (h : Settled episodes session) (operations : List Operation) :
    Settled (episodes ++ session.history operations) (session.after operations) := by
  induction operations generalizing episodes session with
  | nil => simpa [Session.history, Session.after] using h
  | cons operation rest ih =>
      have later := ih (h.perform operation)
      rw [List.append_assoc] at later
      exact later

theorem settled_new : Settled [] ({} : Session) := by
  refine ⟨fun _ => ⟨by decide, rfl, fun _ => ⟨rfl, rfl⟩, ?_, ?_⟩, ⟨by simp, ?_⟩⟩
  · intro ready
    cases ready
  · constructor <;> intro h <;> cases h
  · intro earlier run later split
    simp at split

/-- A history came back if each of its runs does with nobody watching. -/
theorem returned_history {operations : List Operation}
    (ends : ∀ fs timings stamp config requests,
      .run fs timings stamp config requests ∈ operations →
        (Analysis.unwatched fs timings config).isSome) (session : Session) :
    ∀ episode ∈ session.history operations, episode.returned := by
  induction operations generalizing session with
  | nil => simp [history]
  | cons operation rest ih =>
      refine List.forall_mem_cons.mpr ⟨?_, ih (fun _ _ _ _ _ later => ends _ _ _ _ _
        (List.mem_cons_of_mem _ later)) _⟩
      cases operation with
      | request => rfl
      | run fs timings stamp config requests =>
          have back := session.isSome_result stamp requests (ends _ _ _ _ _ List.mem_cons_self)
          simp only [perform]
          cases result : (session.analyze fs timings stamp config requests).result with
          | none =>
              rw [result] at back
              cases back
          | some _ => rfl

/-- A run that succeeds, an edit, a run that fails for want of its root, and a run that is called
off as its files are to be read. -/
def mutualHistory : List Operation :=
  let timings : Timings := ⟨fun _ => 0.0, 0.0⟩
  [.run mutualSource timings ⟨"", none⟩ mutualConfig fun _ => [],
    .request mutualSource ⟨"", none⟩ (.update "a.py::f()" "def f(): pass"),
    .run mutualSource timings ⟨"", none⟩ { root := "lib" } fun _ => [],
    .run mutualSource timings ⟨"", none⟩ mutualConfig fun phase =>
      if phase = .parsing then [.cancel] else []]

theorem exists_unwatched_mutualSource : ∃ analysis,
    Analysis.unwatched mutualSource ⟨fun _ => 0.0, 0.0⟩ mutualConfig = some (.ok analysis) :=
  Analysis.exists_unwatched_eq_ok (by decide +kernel) (by decide +kernel) _

theorem published_mutualHistory : (({} : Session).after mutualHistory).published.isSome := by
  obtain ⟨analysis, output⟩ := exists_unwatched_mutualSource
  have succeeded : (({} : Session).analyze mutualSource ⟨fun _ => 0.0, 0.0⟩ ⟨"", none⟩ mutualConfig
      fun _ => []).result = some (.ok analysis.summary) := by
    rw [result_of_uncancelled RunState.noConfusion (by simp), output]
    rfl
  refine (settled_new.after mutualHistory).publishes.isSome_iff.mpr ⟨_, List.mem_cons_self, ?_⟩
  simp only [perform, succeeded]
  rfl

/-- After every history whose runs came back, a new session is at rest and has published the output
of the last run that succeeded, with the edits accepted since, and it answers every request by what
it has published. A further run finds it processing, with a run to call off, and its observer reads
what was published before. -/
theorem settled_after_history (operations : List Operation)
    (returned : ∀ episode ∈ ({} : Session).history operations, episode.returned) :
    let session := ({} : Session).after operations
    session.AtRest ∧
      Publishes (({} : Session).history operations) session.published ∧
      (∀ (fs : FileSystem) (stamp : Stamp) (request : Request),
        Tells fs stamp false session.published request (session.serve fs stamp request).1) ∧
      ∀ (fs : FileSystem) (timings : Timings) (stamp : Stamp) (config : Config)
        (requests : Phase → List Request),
        Observed fs stamp session requests
          (session.analyze fs timings stamp config requests).notices := by
  intro session
  have settled := settled_new.after operations
  have rest := settled.rest returned
  refine ⟨rest, settled.publishes, ?_, ?_⟩
  · intro fs stamp request
    refine tells_serve session ?_ ?_ request
    · simpa using rest.not_processing
    · rw [rest.inactive, Option.isSome_none]
  · intro fs timings stamp config requests
    exact (ended_analyze rest.not_processing fs timings stamp config requests).1

/-- That history came back. Its last two runs leave what the first one has published, and a further
run that is called off at every phase is observed. -/
theorem settled_mutualHistory :
    let session := ({} : Session).after mutualHistory
    let requests : Phase → List Request := fun _ => [.cancel, .graph, .callers "a.py::f()"]
    (∀ episode ∈ ({} : Session).history mutualHistory, episode.returned) ∧
      session.AtRest ∧ session.published.isSome ∧
      Observed mutualSource ⟨"", none⟩ session requests
        (session.analyze mutualSource ⟨fun _ => 0.0, 0.0⟩ ⟨"", none⟩ mutualConfig requests).notices := by
  intro session requests
  obtain ⟨analysis, output⟩ := exists_unwatched_mutualSource
  have returned : ∀ episode ∈ ({} : Session).history mutualHistory, episode.returned := by
    apply returned_history
    intro fs timings stamp config requests made
    simp only [mutualHistory, List.mem_cons, Operation.run.injEq, reduceCtorEq, false_or,
      List.not_mem_nil, or_false] at made
    rcases made with ⟨rfl, rfl, -, rfl, -⟩ | ⟨rfl, rfl, -, rfl, -⟩ | ⟨rfl, rfl, -, rfl, -⟩
    · simp [output]
    · decide +kernel
    · simp [output]
  obtain ⟨rest, -, -, observed⟩ := settled_after_history mutualHistory returned
  exact ⟨returned, rest, published_mutualHistory, observed _ _ _ _ _⟩

end CallAtlas.Session
