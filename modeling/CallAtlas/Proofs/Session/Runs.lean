import CallAtlas.Proofs.Analysis.Phases
import CallAtlas.Proofs.Session.Requests

/-!
# A session during a run

What one request does is said by `Session.Served`, and what it is answered by `Session.Tells`. From
these follows what the observer of a run meets, request after request and phase after phase: the
session is processing, further runs are refused, and queries are answered by what was published
before, with the edits accepted since.

`Session.Ended` lists the ways in which a run leaves a session, or stays in it.
-/

namespace CallAtlas

/-- The last of a list is what stands behind a place in it, or is at that place. -/
theorem concat_eq_append_cons {α : Type} {l earlier later : List α} {x y : α}
    (h : l ++ [x] = earlier ++ y :: later) :
    (later = [] ∧ earlier = l ∧ y = x) ∨
      ∃ rest, later = rest ++ [x] ∧ l = earlier ++ y :: rest := by
  rcases List.eq_nil_or_concat later with rfl | ⟨rest, last, rfl⟩
  · obtain ⟨rfl, same⟩ := List.append_inj' h rfl
    exact .inl ⟨rfl, rfl, (List.cons.inj same).1.symm⟩
  · rw [List.concat_eq_append, ← List.cons_append, ← List.append_assoc] at h
    obtain ⟨rfl, same⟩ := List.append_inj' h rfl
    exact .inr ⟨rest, by rw [List.concat_eq_append, same], rfl⟩

namespace Session

variable {fs : FileSystem} {stamp : Stamp}

/-- A session that begins a run. -/
def begun (session : Session) : Session :=
  { session with state := .processing, active := some false }

/-- Some requests were answered in a run, from what was published before it and the edits that were
accepted among them. -/
def Answered (fs : FileSystem) (stamp : Stamp) (published : Option Publication)
    (served : List (Request × Reply)) : Prop :=
  ∀ earlier request reply later, served = earlier ++ (request, reply) :: later →
    ∃ current, PublishedAfter (acceptedEdits earlier) published current ∧
      Tells fs stamp true current request reply

/-- A session in the middle of a run that began when it was `before`, after some requests. -/
structure Running (fs : FileSystem) (stamp : Stamp) (before : Session)
    (served : List (Request × Reply)) (session : Session) : Prop where
  processing : session.state = .processing
  active : session.active.isSome
  lastError : session.lastError = before.lastError
  published : PublishedAfter (acceptedEdits served) before.published session.published
  answered : Answered fs stamp before.published served

section Running

variable {before session : Session} {served : List (Request × Reply)}

theorem Running.serve (h : Running fs stamp before served session) (request : Request) :
    Running fs stamp before (served ++ [(request, (session.serve fs stamp request).1)])
      (session.serve fs stamp request).2 := by
  have now := session.served_serve fs stamp request
  refine ⟨now.state.trans h.processing, ?_, now.lastError.trans h.lastError, ?_, ?_⟩
  · rw [now.active]
    cases request <;> simpa [stopped] using h.active
  · rw [acceptedEdits_append]
    exact h.published.trans now.published
  · intro earlier request' reply' later split
    rcases concat_eq_append_cons split with ⟨rfl, rfl, same⟩ | ⟨rest, rfl, old⟩
    · cases same
      exact ⟨_, h.published, tells_serve session (by simp [h.processing]) h.active request⟩
    · exact h.answered earlier request' reply' rest old

theorem Running.serveAll (h : Running fs stamp before served session) (requests : List Request) :
    Running fs stamp before (served ++ requests.zip (session.serveAll fs stamp requests).1)
      (session.serveAll fs stamp requests).2 := by
  induction requests generalizing served session with
  | nil => simpa [Session.serveAll] using h
  | cons request requests ih =>
      have rest := ih (h.serve request)
      rw [List.append_assoc] at rest
      exact rest

theorem length_serveAll (session : Session) (requests : List Request) :
    (session.serveAll fs stamp requests).1.length = requests.length := by
  induction requests generalizing session with
  | nil => rfl
  | cons request requests ih => exact congrArg (· + 1) (ih _)

end Running

/-- The requests that an observer made at a notice, with the replies. -/
def Notice.served (requests : Phase → List Request) (notice : Notice) : List (Request × Reply) :=
  (requests notice.phase).zip notice.replies

/-- What the observer of a run from the session `before` notices. The run has begun and is
processing, and every request at every phase has its reply: the one that goes with what was
published before and the edits accepted since, and so with what was published before alone when
the observer edits nothing. -/
structure Observed (fs : FileSystem) (stamp : Stamp) (before : Session)
    (requests : Phase → List Request) (notices : List Notice) : Prop where
  phases : notices.map Notice.phase <+: Phase.all
  begun : notices ≠ []
  processing : ∀ notice ∈ notices, notice.state = .processing
  replied : ∀ notice ∈ notices, notice.replies.length = (requests notice.phase).length
  answered : Answered fs stamp before.published (notices.flatMap (Notice.served requests))
  unedited : acceptedEdits (notices.flatMap (Notice.served requests)) = [] →
    ∀ notice ∈ notices,
      List.Forall₂ (Tells fs stamp true before.published) (requests notice.phase) notice.replies

/-- The state of an observer during a run, after some phases. -/
structure Watched (fs : FileSystem) (stamp : Stamp) (before : Session)
    (requests : Phase → List Request) (phases : List Phase) (seen : Session × List Notice) :
    Prop where
  phases : seen.2.map Notice.phase = phases
  processing : ∀ notice ∈ seen.2, notice.state = .processing
  replied : ∀ notice ∈ seen.2, notice.replies.length = (requests notice.phase).length
  running : Running fs stamp before (seen.2.flatMap (Notice.served requests)) seen.1

section Watched

variable {before : Session} {requests : Phase → List Request} {phases : List Phase}
  {seen : Session × List Notice}

theorem Watched.start (before : Session) (requests : Phase → List Request) :
    Watched fs stamp before requests [] (before.begun, []) := by
  refine ⟨rfl, by simp, by simp, ⟨rfl, rfl, rfl, .refl _, ?_⟩⟩
  intro earlier request reply later split
  simp at split

theorem Watched.notify (h : Watched fs stamp before requests phases seen) (phase : Phase) :
    Watched fs stamp before requests (phases ++ [phase])
      ((observer fs stamp requests).notify phase seen) := by
  have served := h.running.serveAll (requests phase)
  refine ⟨?_, ?_, ?_, ?_⟩
  · rw [← h.phases]
    exact List.map_append
  · intro notice hnotice
    rcases List.mem_append.mp hnotice with old | new
    · exact h.processing notice old
    · rw [List.mem_singleton.mp new]
      exact h.running.processing
  · intro notice hnotice
    rcases List.mem_append.mp hnotice with old | new
    · exact h.replied notice old
    · rw [List.mem_singleton.mp new]
      exact length_serveAll seen.1 (requests phase)
  · simpa [observer, Notice.served] using served

theorem Watched.foldl (h : Watched fs stamp before requests phases seen) (more : List Phase) :
    Watched fs stamp before requests (phases ++ more)
      (more.foldl (fun seen phase => (observer fs stamp requests).notify phase seen) seen) := by
  induction more generalizing phases seen with
  | nil => simpa using h
  | cons phase more ih =>
      have rest := ih (h.notify phase)
      rw [List.append_assoc] at rest
      exact rest

/-- What the observer of a run has seen after the first phases. -/
theorem watched_after (fs : FileSystem) (stamp : Stamp) (before : Session)
    (requests : Phase → List Request) (count : Nat) :
    Watched fs stamp before requests (Phase.all.take count)
      ((observer fs stamp requests).after (before.begun, []) count) :=
  (Watched.start before requests).foldl (Phase.all.take count)

theorem Watched.replies_of_unedited (h : Watched fs stamp before requests phases seen)
    (unedited : acceptedEdits (seen.2.flatMap (Notice.served requests)) = []) {notice : Notice}
    (noticed : notice ∈ seen.2) :
    List.Forall₂ (Tells fs stamp true before.published) (requests notice.phase) notice.replies := by
  refine List.forall₂_iff_zip.mpr ⟨(h.replied notice noticed).symm, ?_⟩
  intro request reply exchanged
  have made : (request, reply) ∈ seen.2.flatMap (Notice.served requests) :=
    List.mem_flatMap.mpr ⟨notice, noticed, exchanged⟩
  obtain ⟨earlier, later, split⟩ := List.append_of_mem made
  obtain ⟨current, published, told⟩ := h.running.answered earlier request reply later split
  rw [split, acceptedEdits_append] at unedited
  rw [(List.append_eq_nil_iff.mp unedited).1] at published
  rwa [published.eq_of_nil] at told

theorem Watched.observed {count : Nat} (positive : 0 < count)
    (h : Watched fs stamp before requests (Phase.all.take count) seen) :
    Observed fs stamp before requests seen.2 := by
  refine ⟨?_, ?_, h.processing, h.replied, h.running.answered, ?_⟩
  · rw [h.phases]
    exact List.take_prefix count Phase.all
  · intro unseen
    have phases := h.phases
    rw [unseen] at phases
    cases count with
    | zero => exact Nat.lt_irrefl 0 positive
    | succ count => cases phases
  · intro unedited notice hnotice
    exact h.replies_of_unedited unedited hnotice

end Watched

/-- The ways in which a run leaves a session, when some edits were accepted meanwhile. -/
inductive Ended (fs : FileSystem) (timings : Timings) (config : Config) (before : Session)
    (edits : List (String × String)) : Option (Except Error Summary) → Session → Prop where
  /-- It has published what it would have found with nobody watching. -/
  | published (analysis : Analysis)
      (output : Analysis.unwatched fs timings config = some (.ok analysis)) :
      Ended fs timings config before edits (some (.ok analysis.summary))
        { state := .ready, published := some ⟨config, analysis⟩, lastError := none, active := none }
  /-- It was cancelled and changed nothing. -/
  | cancelled {current : Option Publication}
      (kept : PublishedAfter edits before.published current) :
      Ended fs timings config before edits (some (.error .cancelled))
        { before with published := current, active := none }
  /-- It failed and left a message. -/
  | failed {current : Option Publication} (e : Error) (other : e ≠ .cancelled)
      (kept : PublishedAfter edits before.published current) :
      Ended fs timings config before edits (some (.error e))
        { state := .error, published := current, lastError := some e.message, active := none }
  /-- It does not end, and the session stays in it. -/
  | endless {session : Session} (processing : session.state = .processing)
      (lastError : session.lastError = before.lastError)
      (kept : PublishedAfter edits before.published session.published) :
      Ended fs timings config before edits none session

section Analyze

variable {before : Session} {timings : Timings} {config : Config}
  {requests : Phase → List Request}

theorem finish_error (session : Session) (previous : RunState) (config : Config) {e : Error}
    (other : e ≠ .cancelled) :
    session.finish previous config (.error e) =
      { session with state := .error, lastError := some e.message, active := none } := by
  unfold finish
  split
  · next h => cases h
  · next h =>
    cases h
    exact absurd rfl other
  · next h =>
    cases h
    rfl

/-- A session after a run that gave some result, or none. -/
def left (session : Session) (previous : RunState) (config : Config)
    (result : Option (Except Error Analysis)) : Session :=
  result.elim session (session.finish previous config)

theorem Running.ended {session : Session} {served : List (Request × Reply)}
    (h : Running fs stamp before served session) {result : Option (Except Error Analysis)}
    (output : ∀ analysis, result = some (.ok analysis) →
      Analysis.unwatched fs timings config = some (.ok analysis)) :
    Ended fs timings config before (acceptedEdits served)
      (result.map (·.map Analysis.summary)) (session.left before.state config result) := by
  match result, output with
  | none, _ => exact .endless h.processing h.lastError h.published
  | some (.ok analysis), output => exact .published analysis (output analysis rfl)
  | some (.error e), _ =>
      show Ended _ _ _ _ _ (some (.error e)) (session.finish before.state config (.error e))
      by_cases cancelled : e = .cancelled
      · subst cancelled
        have left : session.finish before.state config (.error .cancelled) =
            { before with published := session.published, active := none } := by
          rw [finish, h.lastError]
        rw [left]
        exact .cancelled h.published
      · rw [finish_error _ _ _ cancelled]
        exact .failed e cancelled h.published

/-- A run that is asked for while one is going is refused as a whole. -/
theorem analyze_of_processing (processing : before.state = .processing) (fs : FileSystem)
    (timings : Timings) (stamp : Stamp) (config : Config) (requests : Phase → List Request) :
    before.analyze fs timings stamp config requests =
      ⟨some (.error .alreadyProcessing), [], before⟩ := by
  rw [analyze, refusal?, if_pos processing]

/-- A run with something to notice was not refused. -/
theorem not_processing_of_noticed {notice : Notice}
    (noticed : notice ∈ (before.analyze fs timings stamp config requests).notices) :
    before.state ≠ .processing := by
  intro processing
  rw [analyze_of_processing processing] at noticed
  cases noticed

theorem analyze_eq (rest : before.state ≠ .processing) :
    before.analyze fs timings stamp config requests =
      let ran := (Analysis.run fs timings config (observer fs stamp requests)).outcome
        (before.begun, [])
      ⟨ran.1.map (·.map Analysis.summary), ran.2.2, ran.2.1.left before.state config ran.1⟩ := by
  rw [analyze, refusal?, if_neg rest]
  dsimp only [begun]
  generalize (Analysis.run fs timings config (observer fs stamp requests)).outcome _ = ran
  rcases ran with ⟨_ | result, seen⟩ <;> rfl

/-- A run of a session at rest is observed from its beginning to one of its ends. -/
theorem ended_analyze (rest : before.state ≠ .processing) (fs : FileSystem) (timings : Timings)
    (stamp : Stamp) (config : Config) (requests : Phase → List Request) :
    let outcome := before.analyze fs timings stamp config requests
    Observed fs stamp before requests outcome.notices ∧
      Ended fs timings config before
        (acceptedEdits (outcome.notices.flatMap (Notice.served requests))) outcome.result
        outcome.session := by
  rw [analyze_eq rest]
  have ends := Analysis.ends_run fs timings config (observer fs stamp requests) (before.begun, [])
  generalize (Analysis.run fs timings config (observer fs stamp requests)).outcome
    (before.begun, []) = ran at ends ⊢
  obtain ⟨result, seen⟩ := ran
  -- However the run ends, its observer was last told of one of the phases.
  obtain ⟨count, positive, reached⟩ := ends.exists_after rfl
  have watched : Watched fs stamp before requests (Phase.all.take count) seen := by
    rw [show seen = _ from reached]
    exact watched_after fs stamp before requests count
  refine ⟨watched.observed positive, watched.running.ended ?_⟩
  exact fun analysis success => ends.unwatched_of_ok success

end Analyze

end Session

end CallAtlas
