import CallAtlas.Analysis

/-!
# How runs end

A run is a chain of phases with a look at its observer between them. Everything that the observer
can see or do enters through two things: the states that it is in after some phases, and whether
one of these calls the run off. `Analysis.course` is a run in these terms alone, and
`outcome_run_eq_course` says that it is the run. `Analysis.Ends` lists the ways in which a run can
end, or go on forever, and the observer's state in each, so that what holds of a run never needs its
definition.

A run that succeeds has the result it would have with nobody watching.
-/

namespace CallAtlas

variable {σ : Type}

namespace Observer

/-- The state of an observer after the first phases of a run. -/
def after (observer : Observer σ) (s : σ) (count : Nat) : σ :=
  (Phase.all.take count).foldl (fun s phase => observer.notify phase s) s

/-- The observer that sees nothing and never calls a run off. -/
def silent : Observer Unit where
  notify _ _ := ()
  cancelled _ := false

end Observer

namespace Watched

variable {α β : Type} {f : α → Watched σ β} {s : σ}

/-- What follows is done only after a value, in the state that the observer is then in. -/
theorem outcome_bind (x : Watched σ α) :
    (x >>= f).outcome s =
      match x.outcome s with
      | (some (.ok a), s) => (f a).outcome s
      | (some (.error e), s) => (some (.error e), s)
      | (none, s) => (none, s) := by
  rw [outcome, ExceptT.run_bind, OptionT.run_bind, Option.elimM, StateT.run_bind]
  show ((x.outcome s).1.elim _ _ : StateM σ _).run (x.outcome s).2 = _
  rcases x.outcome s with ⟨_ | _ | _, _⟩ <;> rfl

theorem outcome_bind_await (x : Option α) :
    (await x >>= f).outcome s =
      match x with
      | some a => (f a).outcome s
      | none => (none, s) := by
  rw [outcome_bind]
  cases x <;> rfl

end Watched

namespace Analysis

open SourceFile (Scan Reading)

/-- What a run looks for first: its files, and the language that they are in. -/
def found (fs : FileSystem) (config : Config) (stopped : Bool) : Except Error (Scan × Language) := do
  let scanned ← SourceFile.scan fs config stopped
  let language ← config.chosenLanguage
  return (scanned, language)

theorem found_eq_ok_iff {fs : FileSystem} {config : Config} {stopped : Bool} {scanned : Scan}
    {language : Language} :
    found fs config stopped = .ok (scanned, language) ↔
      SourceFile.scan fs config stopped = .ok scanned ∧ config.chosenLanguage = .ok language := by
  rw [found]
  cases SourceFile.scan fs config stopped with
  | error e => simp [bind, Except.bind]
  | ok scanned' =>
      cases config.chosenLanguage with
      | error e => simp [bind, Except.bind]
      | ok language' => simp [bind, Except.bind, pure, Except.pure]

section Execution

variable {β : Type} {s : σ}

theorem outcome_bind_found (fs : FileSystem) (config : Config) (stopped : Bool)
    {f : Scan → Language → Watched σ β} :
    (Watched.ofExcept (SourceFile.scan fs config stopped) >>= fun scanned =>
      Watched.ofExcept config.chosenLanguage >>= fun language => f scanned language).outcome s =
      match found fs config stopped with
      | .ok (scanned, language) => (f scanned language).outcome s
      | .error e => (some (.error e), s) := by
  rw [found]
  cases SourceFile.scan fs config stopped <;> cases config.chosenLanguage <;> rfl

theorem outcome_bind_check (observer : Observer σ) {f : Unit → Watched σ β} :
    (observer.check >>= f).outcome s =
      if observer.cancelled s then (some (.error .cancelled), s) else (f ()).outcome s := by
  have checked : observer.check.outcome s =
      if observer.cancelled s then (some (.error .cancelled), s) else (some (.ok ()), s) := by
    show (if observer.cancelled s then _ else _ : Watched σ Unit).outcome s = _
    split <;> rfl
  rw [Watched.outcome_bind, checked]
  cases observer.cancelled s <;> rfl

theorem outcome_bind_enter (observer : Observer σ) (phase : Phase) {f : Bool → Watched σ β} :
    (observer.enter phase >>= f).outcome s =
      if observer.cancelled s then (some (.error .cancelled), s)
      else
        (f (observer.cancelled (observer.notify phase s))).outcome (observer.notify phase s) := by
  rw [Observer.enter, bind_assoc, outcome_bind_check]
  rfl

/-- Reading files does nothing to the observer, so what one file meets they all meet. -/
theorem outcome_readings (observer : Observer σ) (fs : FileSystem) (config : Config)
    (language : Language) (files : List SourceFile) :
    (observer.readings fs config language files).outcome s =
      (some (.ok (files.map (SourceFile.reading fs config language (observer.cancelled s)))), s) := by
  rw [Observer.readings]
  induction files with
  | nil => rfl
  | cons file files ih =>
      rw [List.mapM_cons, Watched.outcome_bind]
      show (_ >>= _ : Watched σ _).outcome s = _
      rw [Watched.outcome_bind, ih]
      rfl

theorem outcome_bind_readings (observer : Observer σ) (fs : FileSystem) (config : Config)
    (language : Language) (files : List SourceFile) {f : List Reading → Watched σ β} :
    (observer.readings fs config language files >>= f).outcome s =
      (f (files.map (SourceFile.reading fs config language (observer.cancelled s)))).outcome s := by
  rw [Watched.outcome_bind, outcome_readings]

end Execution

/-- What a run reads of the files it found. -/
def readingsOf (fs : FileSystem) (config : Config) (language : Language) (files : List SourceFile) :
    List Reading :=
  files.map (SourceFile.reading fs config language false)

/-- The graph that a run makes of the files it found, and the warnings about its references. -/
def linked (fs : FileSystem) (config : Config) (language : Language) (files : List SourceFile) :
    CallGraph × List Warning :=
  CallGraph.link ((readingsOf fs config language files).filterMap Reading.outline?)

/-- What a run makes of the files it found, none when that takes forever. -/
def concluded (fs : FileSystem) (timings : Timings) (config : Config) (scanned : Scan)
    (language : Language) : Option Analysis :=
  let failed := (readingsOf fs config language scanned.files).filterMap Reading.warning?
  let (graph, unresolved) := linked fs config language scanned.files
  (graph.cluster? config.maxClusterSize config.resolution).map fun (clusters, graph) =>
    summed timings scanned.files (scanned.warnings ++ failed ++ unresolved) clusters graph

section Concluded

variable {fs : FileSystem} {timings : Timings} {config : Config} {scanned : Scan}
  {language : Language}

/-- A run that concludes with a result has clusters of its linked graph. -/
theorem exists_cluster?_of_concluded {analysis : Analysis}
    (succeeded : concluded fs timings config scanned language = some analysis) :
    ∃ clusters graph,
      (linked fs config language scanned.files).1.cluster? config.maxClusterSize
        config.resolution = some (clusters, graph) ∧
      analysis = summed timings scanned.files
        (scanned.warnings ++
          (readingsOf fs config language scanned.files).filterMap Reading.warning? ++
          (linked fs config language scanned.files).2) clusters graph := by
  obtain ⟨⟨clusters, graph⟩, answered, same⟩ := Option.map_eq_some_iff.mp succeeded
  exact ⟨clusters, graph, answered, same.symm⟩

/-- Only the clusters can take forever. -/
theorem concluded_eq_none_iff :
    concluded fs timings config scanned language = none ↔
      (linked fs config language scanned.files).1.cluster? config.maxClusterSize
        config.resolution = none :=
  Option.map_eq_none_iff

end Concluded

/-- The result of a run that nobody watches, none when it does not end. -/
def unwatched (fs : FileSystem) (timings : Timings) (config : Config) :
    Option (Except Error Analysis) :=
  ((run fs timings config .silent).outcome ()).1

/-- What a run comes to, and how many phases its observer is told of, when `stops` says which of the
observer's states call it off. -/
def course (fs : FileSystem) (timings : Timings) (config : Config) (stops : Nat → Bool) :
    Option (Except Error Analysis) × Nat :=
  if stops 0 then (some (.error .cancelled), 0)
  else
    match found fs config (stops 1) with
    | .error e => (some (.error e), 1)
    | .ok (scanned, language) =>
      match (List.range Phase.all.length).find? stops with
      | some count => (some (.error .cancelled), count)
      | none =>
        match concluded fs timings config scanned language with
        | none => (none, Phase.all.length)
        | some analysis =>
          if stops Phase.all.length then (some (.error .cancelled), Phase.all.length)
          else (some (.ok analysis), Phase.all.length)

/-- All that a run learns of its observer is which states call it off. -/
theorem outcome_run_eq_course (fs : FileSystem) (timings : Timings) (config : Config)
    (observer : Observer σ) (s : σ) :
    (run fs timings config observer).outcome s =
      let ended := course fs timings config fun k => observer.cancelled (observer.after s k)
      (ended.1, observer.after s ended.2) := by
  -- The looks are at the states after the first phases, several times at the one after parsing.
  have start : observer.after s 0 = s := rfl
  have scanned : observer.notify .scan s = observer.after s 1 := rfl
  have parsed : observer.notify .parsing (observer.after s 1) = observer.after s 2 := rfl
  have called : observer.notify .calls (observer.after s 2) = observer.after s 3 := rfl
  have clustered : observer.notify .communities (observer.after s 3) = observer.after s 4 := rfl
  rw [run, outcome_bind_enter, course]
  by_cases h0 : observer.cancelled s
  · simp [start, h0]
  simp only [start, h0]
  rw [outcome_bind_found, scanned]
  cases found fs config (observer.cancelled (observer.after s 1)) with
  | error e => rfl
  | ok sources =>
      obtain ⟨files, language⟩ := sources
      dsimp only
      rw [outcome_bind_enter, parsed, outcome_bind_readings, outcome_bind_check, outcome_bind_enter,
        called, outcome_bind_enter, clustered]
      have last : Phase.all.length = 4 := rfl
      have looks : List.range 4 = [0, 1, 2, 3] := rfl
      simp only [last, looks, List.find?_cons, start, h0]
      by_cases h1 : observer.cancelled (observer.after s 1)
      · simp [h1]
      by_cases h2 : observer.cancelled (observer.after s 2)
      · simp [h1, h2]
      by_cases h3 : observer.cancelled (observer.after s 3)
      · simp [h1, h2, h3]
      simp only [h1, h2, h3, List.find?_nil]
      -- What is left waits for the clusters, and looks at the observer once more.
      rw [if_neg Bool.false_ne_true, if_neg Bool.false_ne_true, if_neg Bool.false_ne_true,
        if_neg Bool.false_ne_true, Watched.outcome_bind_await]
      simp only [concluded, linked, readingsOf]
      cases (CallGraph.link ((files.files.map (SourceFile.reading fs config language false)).filterMap
        Reading.outline?)).1.cluster? config.maxClusterSize config.resolution with
      | none => rfl
      | some answer =>
          dsimp only [Option.map_some]
          rw [outcome_bind_check]
          by_cases h4 : observer.cancelled (observer.after s 4)
          · simp only [h4, if_true]
            rfl
          · simp only [h4]
            rfl

/-- The ways in which a run can end, or go on forever, with the state that its observer is then in. -/
inductive Ends (fs : FileSystem) (timings : Timings) (config : Config) (observer : Observer σ)
    (s : σ) : Option (Except Error Analysis) → σ → Prop where
  /-- It was called off in the first state that did so. If that was the last one, the clusters were
  made before it was looked at. -/
  | cancelled (count : Nat) (made : count ≤ Phase.all.length)
      (before : ∀ k < count, observer.cancelled (observer.after s k) = false)
      (now : observer.cancelled (observer.after s count) = true)
      (clustered : count = Phase.all.length → ∃ scanned language analysis,
        found fs config false = .ok (scanned, language) ∧
          concluded fs timings config scanned language = some analysis) :
      Ends fs timings config observer s (some (.error .cancelled)) (observer.after s count)
  /-- It found no files to read. -/
  | unfound (e : Error) (before : observer.cancelled s = false)
      (failed : found fs config (observer.cancelled (observer.after s 1)) = .error e) :
      Ends fs timings config observer s (some (.error e)) (observer.after s 1)
  /-- It came to its last phase and waits for the clusters, whatever its observer asks for. -/
  | endless (scanned : Scan) (language : Language)
      (before : ∀ k < Phase.all.length, observer.cancelled (observer.after s k) = false)
      (succeeded : found fs config false = .ok (scanned, language))
      (waiting : concluded fs timings config scanned language = none) :
      Ends fs timings config observer s none (observer.after s Phase.all.length)
  /-- It went through all phases and was never called off. -/
  | completed (scanned : Scan) (language : Language) (analysis : Analysis)
      (never : ∀ k < Phase.all.length + 1, observer.cancelled (observer.after s k) = false)
      (succeeded : found fs config false = .ok (scanned, language))
      (output : concluded fs timings config scanned language = some analysis) :
      Ends fs timings config observer s (some (.ok analysis)) (observer.after s Phase.all.length)

section Ends

variable {fs : FileSystem} {timings : Timings} {config : Config} {observer : Observer σ} {s : σ}

theorem ends_run (fs : FileSystem) (timings : Timings) (config : Config) (observer : Observer σ)
    (s : σ) :
    Ends fs timings config observer s ((run fs timings config observer).outcome s).1
      ((run fs timings config observer).outcome s).2 := by
  rw [outcome_run_eq_course, course]
  by_cases started : observer.cancelled s
  · simp only [show observer.after s 0 = s from rfl, started, if_true]
    exact .cancelled 0 (Nat.zero_le _) (fun k hk => absurd hk (Nat.not_lt_zero k)) started nofun
  have started : observer.cancelled (observer.after s 0) = false := Bool.eq_false_iff.mpr started
  simp only [started]
  cases h : found fs config (observer.cancelled (observer.after s 1)) with
  | error e => exact .unfound e started h
  | ok sources =>
      obtain ⟨scanned, language⟩ := sources
      dsimp only
      cases looked : (List.range Phase.all.length).find?
          fun k => observer.cancelled (observer.after s k) with
      | some count =>
          obtain ⟨now, made, before⟩ := List.find?_range_eq_some.mp looked
          have made := List.mem_range.mp made
          exact .cancelled count (Nat.le_of_lt made) (fun k hk => by simpa using before k hk) now
            fun last => absurd last (Nat.ne_of_lt made)
      | none =>
          have before : ∀ k < Phase.all.length, observer.cancelled (observer.after s k) = false :=
            fun k hk => by simpa using List.find?_range_eq_none.mp looked k hk
          rw [before 1 (by decide)] at h
          cases output : concluded fs timings config scanned language with
          | none => exact .endless scanned language before h output
          | some analysis =>
              cases last : observer.cancelled (observer.after s Phase.all.length) with
              | true =>
                  exact .cancelled _ Nat.le.refl before last fun _ => ⟨_, _, _, h, output⟩
              | false =>
                  refine .completed scanned language analysis (fun k hk => ?_) h output
                  rcases Nat.lt_succ_iff_lt_or_eq.mp hk with earlier | rfl
                  · exact before k earlier
                  · exact last

/-- With nobody watching, a run makes what it can of the files it finds. -/
theorem unwatched_of_found {scanned : Scan} {language : Language}
    (succeeded : found fs config false = .ok (scanned, language)) :
    unwatched fs timings config = (concluded fs timings config scanned language).map .ok := by
  have ends := ends_run fs timings config .silent ()
  rw [unwatched]
  generalize (run fs timings config .silent).outcome () = outcome at ends ⊢
  obtain ⟨result, _⟩ := outcome
  cases ends with
  | cancelled count made before now => exact absurd now Bool.false_ne_true
  | unfound e before failed => cases succeeded.symm.trans failed
  | endless scanned' language' before succeeded' waiting =>
      cases succeeded.symm.trans succeeded'
      rw [waiting, Option.map_none]
  | completed scanned' language' analysis never succeeded' output =>
      cases succeeded.symm.trans succeeded'
      rw [output, Option.map_some]

theorem unwatched_of_unfound {e : Error} (failed : found fs config false = .error e) :
    unwatched fs timings config = some (.error e) := by
  rw [unwatched, outcome_run_eq_course]
  show (course fs timings config fun _ => false).1 = _
  simp [course, failed]

variable {result : Option (Except Error Analysis)} {state : σ}

/-- A run that succeeds has the result it would have with nobody watching. -/
theorem Ends.unwatched_of_ok (ends : Ends fs timings config observer s result state)
    {analysis : Analysis} (h : result = some (.ok analysis)) :
    unwatched fs timings config = some (.ok analysis) := by
  cases ends with
  | cancelled => cases h
  | unfound => cases h
  | endless => cases h
  | completed scanned language analysis never succeeded output =>
      cases h
      rw [unwatched_of_found succeeded, output, Option.map_some]

/-- A run that is not called off beforehand ends after some of the first phases. -/
theorem Ends.exists_after (ends : Ends fs timings config observer s result state)
    (started : observer.cancelled s = false) :
    ∃ count, 0 < count ∧ state = observer.after s count := by
  cases ends with
  | cancelled count made before now =>
      refine ⟨count, Nat.pos_of_ne_zero ?_, rfl⟩
      rintro rfl
      exact Bool.false_ne_true (started.symm.trans now)
  | unfound e before failed => exact ⟨1, Nat.one_pos, rfl⟩
  | endless => exact ⟨Phase.all.length, by decide, rfl⟩
  | completed => exact ⟨Phase.all.length, by decide, rfl⟩

end Ends

end Analysis

end CallAtlas
