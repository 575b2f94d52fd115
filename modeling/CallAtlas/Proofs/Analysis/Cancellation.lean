import CallAtlas.Proofs.Analysis.Phases

/-!
# Runs that are called off

An observer may call a run off before it begins or when it is told of a phase. Such a run has no
result. It ends as cancelled, with two exceptions. What stands in the way of a scan is found before
the scan asks whether it was called off, so a run that could not have scanned says so. And nobody
asks while the clusters are made, so a run that is called off as they begin goes on forever where
tuning the resolution does.

To say which phases an observer is told of, it is given a log. The log changes nothing else, since
all that a run learns of an observer is when its state calls the run off. `Analysis.Heeded` gathers
what holds of the result, of the observer's last state and of the log.
-/

namespace CallAtlas

variable {σ : Type} {fs : FileSystem} {timings : Timings} {config : Config}

namespace Observer

/-- An observer that logs the phases it is told of. -/
def logged (observer : Observer σ) : Observer (σ × List Phase) where
  notify phase seen := (observer.notify phase seen.1, seen.2 ++ [phase])
  cancelled seen := observer.cancelled seen.1

theorem foldl_logged (observer : Observer σ) (phases log : List Phase) (s : σ) :
    phases.foldl (fun seen phase => observer.logged.notify phase seen) (s, log) =
      (phases.foldl (fun s phase => observer.notify phase s) s, log ++ phases) := by
  induction phases generalizing s log with
  | nil => simp
  | cons phase phases ih =>
      have rest := ih (log ++ [phase]) (observer.notify phase s)
      rw [List.append_assoc] at rest
      exact rest

theorem after_logged (observer : Observer σ) (s : σ) (count : Nat) :
    observer.logged.after (s, []) count = (observer.after s count, Phase.all.take count) :=
  observer.foldl_logged (Phase.all.take count) [] s

end Observer

namespace Analysis

theorem error_of_chosenLanguage {e : Error} (failed : config.chosenLanguage = .error e) :
    e = .unsupportedLanguage config.language := by
  unfold Config.chosenLanguage at failed
  split at failed
  · cases failed
  · cases failed
    rfl

/-- A scan fails because it was called off, or for a reason that it would have had anyway. -/
theorem error_of_found {stopped : Bool} {e : Error} (failed : found fs config stopped = .error e) :
    (stopped = true ∧ e = .cancelled) ∨
      (e = .unsupportedLanguage config.language ∨ e = .pathNotFound config.root) ∧
        found fs config false = .error e := by
  unfold found SourceFile.scan at failed ⊢
  cases chosen : config.chosenLanguage with
  | error refusal =>
      rw [chosen] at failed
      cases failed
      exact .inr ⟨.inl (error_of_chosenLanguage chosen), rfl⟩
  | ok language =>
      rw [chosen] at failed
      split at failed
      · cases stopped with
        | false => cases failed
        | true =>
            cases failed
            exact .inl ⟨rfl, rfl⟩
      · cases failed
        exact .inr ⟨.inr rfl, rfl⟩

/-- A run that nobody watches is not cancelled. -/
theorem unwatched_ne_cancelled : unwatched fs timings config ≠ some (.error .cancelled) := by
  intro cancelled
  cases h : found fs config false with
  | ok sources =>
      rw [unwatched_of_found h] at cancelled
      obtain ⟨analysis, -, same⟩ := Option.map_eq_some_iff.mp cancelled
      cases same
  | error e =>
      rw [unwatched_of_unfound h] at cancelled
      cases cancelled
      rcases error_of_found h with ⟨stopped, -⟩ | ⟨reason | reason, -⟩
      · cases stopped
      · cases reason
      · cases reason

/-- With nobody watching, a run goes on forever when it waits for the clusters. -/
theorem unwatched_eq_none_iff :
    unwatched fs timings config = none ↔
      ∃ scanned language, found fs config false = .ok (scanned, language) ∧
        concluded fs timings config scanned language = none := by
  cases h : found fs config false with
  | ok sources =>
      rw [unwatched_of_found h, Option.map_eq_none_iff]
      constructor
      · intro waiting
        exact ⟨sources.1, sources.2, rfl, waiting⟩
      · rintro ⟨scanned, language, same, waiting⟩
        cases same
        exact waiting
  | error e => simp [unwatched_of_unfound h]

/-- What keeps a run from going on forever is to be called off before its last phase. -/
theorem Ends.eq_none_iff {observer : Observer σ} {s state : σ}
    {result : Option (Except Error Analysis)}
    (ends : Ends fs timings config observer s result state) :
    result = none ↔
      (∀ k < Phase.all.length, observer.cancelled (observer.after s k) = false) ∧
        unwatched fs timings config = none := by
  cases ends with
  | cancelled count made before now clustered =>
      refine iff_of_false nofun ?_
      rintro ⟨never, endless⟩
      rcases Nat.lt_or_eq_of_le made with early | last
      · exact absurd ((never count early).symm.trans now) Bool.false_ne_true
      · obtain ⟨scanned, language, analysis, succeeded, output⟩ := clustered last
        rw [unwatched_of_found succeeded, output] at endless
        cases endless
  | unfound e before failed =>
      refine iff_of_false nofun ?_
      rintro ⟨never, endless⟩
      rw [never 1 (by decide)] at failed
      rw [unwatched_of_unfound failed] at endless
      cases endless
  | endless scanned language before succeeded waiting =>
      refine iff_of_true rfl ⟨before, ?_⟩
      rw [unwatched_of_found succeeded, waiting, Option.map_none]
  | completed scanned language analysis never succeeded output =>
      refine iff_of_false nofun ?_
      rintro ⟨-, endless⟩
      rw [unwatched_of_found succeeded, output] at endless
      cases endless

/-- What a run does about being called off, when its observer is told of the phases `told` and is
left in the state `final`. -/
structure Heeded (fs : FileSystem) (timings : Timings) (config : Config) (observer : Observer σ)
    (s : σ) (result : Option (Except Error Analysis)) (final : σ) (told : List Phase) : Prop where
  inOrder : told <+: Phase.all
  final_eq : final = observer.after s told.length
  /-- Nothing is told in a state that calls the run off. -/
  untold : ∀ k < told.length, observer.cancelled (observer.after s k) = false
  /-- A run that is called off is cancelled. When that is done as the scan begins, it may fail
  instead, as it would have done with nobody watching. When it is done as the last phase begins, it
  may go on forever, as it would have done with nobody watching. -/
  calledOff : observer.cancelled final = true →
    result = some (.error .cancelled) ∨
      (told = [.scan] ∧
        ∃ e, (e = .unsupportedLanguage config.language ∨ e = .pathNotFound config.root) ∧
          result = some (.error e) ∧ unwatched fs timings config = some (.error e)) ∨
      (told = Phase.all ∧ result = none ∧ unwatched fs timings config = none)
  /-- A run that is not called off goes as it would with nobody watching. -/
  notCalledOff : observer.cancelled final = false →
    result = unwatched fs timings config ∧ result ≠ some (.error .cancelled)
  /-- An observer that would call the run off at some phase sees no result, though the run may fail
  before it comes to that phase. -/
  unpublished : (∃ k ≤ Phase.all.length, observer.cancelled (observer.after s k) = true) →
    ∀ analysis, result ≠ some (.ok analysis)
  endless_iff : result = none ↔
    (∀ k < Phase.all.length, observer.cancelled (observer.after s k) = false) ∧
      unwatched fs timings config = none

theorem Ends.heeded {observer : Observer σ} {s : σ} {result : Option (Except Error Analysis)}
    {seen : σ × List Phase} (ends : Ends fs timings config observer.logged (s, []) result seen) :
    Heeded fs timings config observer s result seen.1 seen.2 := by
  have endless_iff := ends.eq_none_iff
  simp only [Observer.after_logged] at endless_iff
  cases ends with
  | cancelled count made before now clustered =>
      simp only [Observer.after_logged] at now before ⊢
      have length : (Phase.all.take count).length = count := List.length_take_of_le made
      refine ⟨List.take_prefix _ _, by rw [length], ?_, fun _ => .inl rfl, ?_, ?_, endless_iff⟩
      · rw [length]
        exact before
      · intro passed
        exact absurd (passed.symm.trans now) Bool.false_ne_true
      · intro _ analysis success
        cases success
  | unfound e before failed =>
      simp only [Observer.after_logged] at failed ⊢
      refine ⟨List.take_prefix _ _, rfl, ?_, ?_, ?_, ?_, endless_iff⟩
      · intro k hk
        rw [Nat.lt_one_iff.mp hk]
        exact before
      · intro _
        rcases error_of_found failed with ⟨-, rfl⟩ | ⟨reason, anyway⟩
        · exact .inl rfl
        · exact .inr (.inl ⟨rfl, e, reason, rfl, unwatched_of_unfound anyway⟩)
      · intro passed
        have anyway : found fs config false = .error e := passed ▸ failed
        rw [← unwatched_of_unfound anyway]
        exact ⟨rfl, unwatched_ne_cancelled⟩
      · intro _ analysis success
        cases success
  | endless scanned language before succeeded waiting =>
      simp only [Observer.after_logged] at before ⊢
      have forever := (endless_iff.mp rfl).2
      refine ⟨List.take_prefix _ _, rfl, before, ?_, ?_, ?_, endless_iff⟩
      · intro _
        exact .inr (.inr ⟨rfl, rfl, forever⟩)
      · intro _
        exact ⟨forever.symm, nofun⟩
      · intro _ analysis success
        cases success
  | completed scanned language analysis never succeeded output =>
      simp only [Observer.after_logged] at never ⊢
      refine ⟨List.take_prefix _ _, rfl, fun k hk => never k (Nat.lt_succ_of_lt hk), ?_, ?_, ?_,
        endless_iff⟩
      · intro now
        exact absurd ((never _ (Nat.lt_succ_self _)).symm.trans now) Bool.false_ne_true
      · intro _
        rw [unwatched_of_found succeeded, output]
        exact ⟨rfl, nofun⟩
      · rintro ⟨k, hk, now⟩
        exact absurd ((never k (Nat.lt_succ_of_le hk)).symm.trans now) Bool.false_ne_true

theorem outcome_run_logged (fs : FileSystem) (timings : Timings) (config : Config)
    (observer : Observer σ) (s : σ) :
    let ran := (run fs timings config observer).outcome s
    ∃ told, (run fs timings config observer.logged).outcome (s, []) = (ran.1, ran.2, told) := by
  intro ran
  refine ⟨Phase.all.take
    (course fs timings config fun k => observer.cancelled (observer.after s k)).2, ?_⟩
  simp only [ran, outcome_run_eq_course, Observer.after_logged]
  rfl

/-- Every run heeds its observer, and logging leaves its result and the observer's state alone. -/
theorem heeded_run (fs : FileSystem) (timings : Timings) (config : Config) (observer : Observer σ)
    (s : σ) :
    let ran := (run fs timings config observer).outcome s
    ∃ told, (run fs timings config observer.logged).outcome (s, []) = (ran.1, ran.2, told) ∧
      Heeded fs timings config observer s ran.1 ran.2 told := by
  have ends := ends_run fs timings config observer.logged (s, [])
  obtain ⟨told, same⟩ := outcome_run_logged fs timings config observer s
  rw [same] at ends
  exact ⟨told, same, ends.heeded⟩

end Analysis

end CallAtlas
