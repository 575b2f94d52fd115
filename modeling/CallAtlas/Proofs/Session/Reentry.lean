import CallAtlas.Proofs.Session.History

/-!
# Runs whose observers ask for runs

An observer may ask for another run while one is going, and it may read. Neither changes the
session, so between the phases it stays as the run found it, and the run goes on as if nobody
watched. The statement compares two runs of one session: `analyze` with such an observer, and
`analyzeAlone` with none.
-/

namespace CallAtlas

/-- Whether a request asks for another run, or only reads. -/
def Request.harmless : Request → Bool
  | .cancel | .update _ _ => false
  | _ => true

namespace Session

variable {fs : FileSystem} {timings : Timings} {stamp : Stamp} {config : Config}
  {session before : Session}

/-- A run that nobody watches: what comes of it, and the session after it. -/
def analyzeAlone (session : Session) (fs : FileSystem) (timings : Timings) (config : Config) :
    Option (Except Error Summary) × Session :=
  match session.refusal? with
  | some e => (some (.error e), session)
  | none =>
    let result := Analysis.unwatched fs timings config
    (result.map (·.map Analysis.summary), session.begun.left session.state config result)

theorem serve_harmless {request : Request} (harmless : request.harmless) :
    (session.serve fs stamp request).2 = session := by
  cases request with
  | cancel => cases harmless
  | update id code => cases harmless
  | _ => rfl

theorem serveAll_harmless {requests : List Request}
    (harmless : ∀ request ∈ requests, request.harmless) :
    (session.serveAll fs stamp requests).2 = session := by
  induction requests with
  | nil => rfl
  | cons request requests ih =>
      obtain ⟨first, rest⟩ := List.forall_mem_cons.mp harmless
      show ((session.serve fs stamp request).2.serveAll fs stamp requests).2 = session
      rw [serve_harmless first]
      exact ih rest

section Harmless

variable {requests : Phase → List Request}
variable (harmless : ∀ phase, ∀ request ∈ requests phase, request.harmless)

include harmless

theorem foldl_harmless (phases : List Phase) (seen : Session × List Notice) :
    (phases.foldl (fun seen phase => (observer fs stamp requests).notify phase seen) seen).1 =
      seen.1 := by
  induction phases generalizing seen with
  | nil => rfl
  | cons phase phases ih =>
      rw [List.foldl_cons, ih]
      exact serveAll_harmless (harmless phase)

/-- A session stays as its run found it. -/
theorem after_harmless (before : Session) (count : Nat) :
    ((observer fs stamp requests).after (before.begun, []) count).1 = before.begun :=
  foldl_harmless harmless (Phase.all.take count) (before.begun, [])

theorem acceptedEdits_harmless (notices : List Notice) :
    acceptedEdits (notices.flatMap (Notice.served requests)) = [] := by
  refine List.filterMap_eq_nil_iff.mpr fun exchange made => ?_
  obtain ⟨notice, -, asked⟩ := List.mem_flatMap.mp made
  have passive := harmless notice.phase exchange.1 (List.of_mem_zip asked).1
  obtain ⟨request, reply⟩ := exchange
  cases request with
  | update id code => cases passive
  | _ => rfl

/-- A run with a harmless observer is a run that nobody watches. -/
theorem analyze_eq_alone (before : Session) :
    let outcome := before.analyze fs timings stamp config requests
    (outcome.result, outcome.session) = before.analyzeAlone fs timings config := by
  by_cases processing : before.state = .processing
  · rw [analyze_of_processing processing, analyzeAlone, refusal?, if_pos processing]
  obtain ⟨result, told, outcome, -, heeded⟩ :=
    heeded_analyze processing fs timings stamp config requests
  have passed : (observer fs stamp requests).cancelled
      ((observer fs stamp requests).after (before.begun, []) told.length) = false := by
    rw [Bool.eq_false_iff]
    intro called
    obtain ⟨phase, -, asked⟩ := (cancelled_after_iff fs stamp before requests _).mp called
    cases harmless phase .cancel asked
  obtain ⟨alone, -⟩ := heeded.notCalledOff passed
  rw [outcome, analyzeAlone, refusal?, if_neg processing, after_harmless harmless, alone]

end Harmless

/-- After every history, a run whose observer asks for further runs and reads goes as if nobody
watched. Each of these further runs is refused and leaves the session that it was asked of, and the
outer run has the result and leaves the session that it would have and leave alone. -/
theorem reentry_undisturbing (operations : List Operation) (fs : FileSystem) (timings : Timings)
    (stamp : Stamp) (config : Config) (requests : Phase → List Request)
    (harmless : ∀ phase, ∀ request ∈ requests phase, request.harmless) :
    let session := ({} : Session).after operations
    let outcome := session.analyze fs timings stamp config requests
    (∀ notice ∈ outcome.notices, ∀ (i : Nat) (again : Config),
      (requests notice.phase)[i]? = some (.start again) →
        notice.replies[i]? = some (.refusal (some .alreadyProcessing))) ∧
    (∀ count : Nat,
      let now := ((observer fs stamp requests).after (session.begun, []) count).1
      ∀ (fs' : FileSystem) (timings' : Timings) (stamp' : Stamp) (again : Config)
        (requests' : Phase → List Request),
        now.analyze fs' timings' stamp' again requests' =
          ⟨some (.error .alreadyProcessing), [], now⟩) ∧
    (outcome.result, outcome.session) = session.analyzeAlone fs timings config := by
  intro session outcome
  refine ⟨?_, ?_, analyze_eq_alone harmless session⟩
  · intro notice noticed i again asked
    obtain ⟨observed, -⟩ := ended_analyze (not_processing_of_noticed noticed) fs timings stamp config
      requests
    have told := observed.unedited (acceptedEdits_harmless harmless _) notice noticed
    obtain ⟨inside, here⟩ := List.getElem?_eq_some_iff.mp asked
    have inside' : i < notice.replies.length := told.length_eq ▸ inside
    have reply := told.get inside inside'
    rw [List.get_eq_getElem, List.get_eq_getElem, here] at reply
    rw [List.getElem?_eq_getElem inside']
    generalize notice.replies[i] = answer at reply ⊢
    cases reply
    rfl
  · intro count now fs' timings' stamp' again requests'
    apply analyze_of_processing
    show now.state = .processing
    rw [show now = session.begun from after_harmless harmless session count]
    rfl

/-- An observer that asks for a run and reads at every phase, after a run that failed. -/
theorem reentry_mutualSource :
    let requests : Phase → List Request := fun _ =>
      [.start mutualConfig, .graph, .start { root := "src" }, .report, .callers "a.py::f()"]
    let failed : Operation := .run mutualSource ⟨fun _ => 0.0, 0.0⟩ ⟨"", none⟩ { root := "lib" }
      fun _ => []
    let session := ({} : Session).after [failed]
    let outcome := session.analyze mutualSource ⟨fun _ => 0.0, 0.0⟩ ⟨"", none⟩ mutualConfig requests
    session.state = .error ∧
      (outcome.result, outcome.session) =
        session.analyzeAlone mutualSource ⟨fun _ => 0.0, 0.0⟩ mutualConfig ∧
      ∀ notice ∈ outcome.notices,
        notice.replies[0]? = some (.refusal (some .alreadyProcessing)) ∧
          notice.replies[2]? = some (.refusal (some .alreadyProcessing)) := by
  intro requests failed session outcome
  have harmless : ∀ phase, ∀ request ∈ requests phase, request.harmless := by
    intro phase
    simp [requests, Request.harmless]
  obtain ⟨refused, -, alone⟩ := reentry_undisturbing [failed] mutualSource ⟨fun _ => 0.0, 0.0⟩
    ⟨"", none⟩ mutualConfig requests harmless
  refine ⟨by decide +kernel, alone, ?_⟩
  intro notice noticed
  exact ⟨refused notice noticed 0 mutualConfig rfl, refused notice noticed 2 { root := "src" } rfl⟩

end Session

end CallAtlas
