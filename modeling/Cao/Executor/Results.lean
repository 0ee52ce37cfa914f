import Cao.Executor.Traversal

/-!
# Every run ends in Safety Cleanup

Safety Cleanup and the result, from a run whose work is over: the cleanup runs once, its phase is the last, nothing
follows it but the consumption of the evidence, and that never fails.

* `Closed`: what Safety Cleanup and the sealing leave of a run whose work is over;
* **`spec_execute`**: every run is closed once its work is over;
* **`execute_accepted`**: Run Evidence refuses nothing of a run;
* **`execute_cleaned`**: Safety Cleanup happens once, and last;
* **`execute_stops`**: nothing but Safety Cleanup follows an unsafe attempt;
* **`execute_dryRun`**: a Dry Run changes nothing.
-/

namespace Cao.Executor

open Prog (Spec spec_bind)
open Routing Capacity Asset
open Evidence (RunPhase RunPhaseRecord Storage)

variable {K : Type} {V : Volume K} {table : UpcaseTable} {ε α β : Type}
variable {checks : OverflowChecks} {mode : ExecutionMode} {tree : AssetTree V} {seams : RunSeams V table} {run run' : Run V}

/-! ## Safety Cleanup -/

/-- A failure that Run Evidence accepts during Safety Cleanup. -/
def OfCleanup (failure : Evidence.RunFailure) : Prop :=
  failure.phase = .safetyCleanup ∧
    (failure.code = .temporaryArtifactCleanupFailed ∨ failure.code = .safetyCleanupServiceFailed)

theorem ofCleanup_registryAnswer (answer : Except String (List (Path × String))) :
    ∀ failure ∈ collectCleanupFailures (registryAnswer answer), OfCleanup failure := by
  rcases answer with message | failures
  · intro failure hfailure
    rw [List.mem_singleton.mp hfailure]
    exact ⟨rfl, .inr rfl⟩
  · intro failure hfailure
    obtain ⟨_, -, rfl⟩ := List.mem_map.mp hfailure
    exact ⟨rfl, .inl rfl⟩

/-- What Safety Cleanup and the sealing add to a run: phases and events, and where every failure is one of cleanup nothing
is refused. -/
structure Closes (accepts : Prop) (phases : List RunPhaseRecord) (events : List RunEvent) (run run' : Run V) : Prop where
  phases : run'.evidence.storage.phases = run.evidence.storage.phases ++ phases
  attempts : run'.evidence.storage.completedAttempts = run.evidence.storage.completedAttempts
  site : run'.site = run.site
  owned : run'.owned = run.owned
  log : run'.log = run.log ++ events
  accepted : accepts → run'.refused = run.refused ∧ run'.invariant = run.invariant

section Closes

variable {accepts : Prop} {phases phases' : List RunPhaseRecord} {events events' : List RunEvent}

theorem Closes.trans {run'' : Run V} (h : Closes accepts phases events run run')
    (h' : Closes accepts phases' events' run' run'') :
    Closes accepts (phases ++ phases') (events ++ events') run run'' where
  phases := by rw [h'.phases, h.phases, List.append_assoc]
  attempts := h'.attempts.trans h.attempts
  site := h'.site.trans h.site
  owned := h'.owned.trans h.owned
  log := by rw [h'.log, h.log, List.append_assoc]
  accepted := fun haccepts => ⟨(h'.accepted haccepts).1.trans (h.accepted haccepts).1,
    (h'.accepted haccepts).2.trans (h.accepted haccepts).2⟩

/-- Once Safety Cleanup is recorded, it is current. -/
theorem Closes.currentPhase (h : Closes accepts [.executed .safetyCleanup none] events run run') :
    run'.evidence.storage.currentPhase = some .safetyCleanup := by
  rw [Storage.currentPhase, h.phases, List.getLast?_concat]
  rfl

/-- What is retained without a check. -/
theorem closes_recording {f : Storage → Storage} {x : Evidence.Recording Unit} {E : Thrown WorkError → Run V → Prop}
    {C : Run V → Prop} (hexactly : Evidence.Exactly f (run.evidence.storage.phases ++ phases) x run.evidence)
    (hattempts : (f run.evidence.storage).completedAttempts = run.evidence.storage.completedAttempts) :
    Spec (recording x) run (fun _ run' => Closes accepts phases [] run run') E C := by
  refine spec_recording (hexactly.mono (fun _ evidence hrecorded => ?_) (fun _ _ h => h) fun _ h => h)
  have hfacts := completedAttempts_facts hrecorded.1
  exact ⟨hrecorded.2, hfacts.trans hattempts, rfl, rfl, (List.append_nil _).symm, fun _ => ⟨rfl, rfl⟩⟩

/-- What is refused is noted. -/
theorem spec_note_refused {x : Evidence.Recording Unit} {message : String} {Q : Unit → Run V → Prop}
    {E : Thrown WorkError → Run V → Prop} {C : Run V → Prop}
    (hrefused : x run.evidence = (.fail (.error message), run.evidence))
    (hQ : Q () { run with
      invariant := some (run.invariant.getD (WorkError.evidenceInvariant message).text)
      refused := run.refused ++ [message] }) : Spec (note (recording x)) run Q E C := by
  have hrun : recording x run = (.fail (.error (.evidenceInvariant message)),
      { run with refused := run.refused ++ [message] }) := by
    unfold recording
    rw [hrefused]
  unfold Spec note
  simp only [bind, Prog.andThen, Prog.attempt, hrun]
  exact hQ

/-- A cleanup failure is retained, or the violation is noted. -/
theorem closes_noted (failure : Evidence.RunFailure) (haccepts : accepts → OfCleanup failure)
    (hcurrent : run.evidence.storage.currentPhase = some .safetyCleanup) {E : Thrown WorkError → Run V → Prop}
    {C : Run V → Prop} :
    Spec (note (recording (Evidence.recordSafetyCleanupFailure failure))) run
      (fun _ run' => Closes accepts [] [] run run') E C := by
  by_cases hof : OfCleanup failure
  · have hexactly : Evidence.Exactly (fun storage =>
        { storage with safetyCleanupFailures := storage.safetyCleanupFailures ++ [failure] })
        (run.evidence.storage.phases ++ []) (Evidence.recordSafetyCleanupFailure failure) run.evidence := by
      rw [List.append_nil]
      exact Evidence.exactly_getStorage (Evidence.exactly_require (decide_eq_true ⟨hcurrent, hof⟩)
        (Evidence.exactly_retain rfl))
    exact spec_note (closes_recording hexactly rfl)
  · have hof' : ¬(run.evidence.storage.currentPhase = some .safetyCleanup ∧ OfCleanup failure) := fun h => hof h.2
    have hrefused : Evidence.recordSafetyCleanupFailure failure run.evidence = (.fail (.error
        "Safety Cleanup failures require the cleanup phase and a cleanup failure code"), run.evidence) := by
      unfold OfCleanup at hof'
      simp only [Evidence.recordSafetyCleanupFailure, Evidence.getStorage, Evidence.require, bind, Prog.andThen,
        decide_eq_false hof', Bool.false_eq_true, if_false]
      rfl
    refine spec_note_refused hrefused ?_
    exact ⟨(List.append_nil _).symm, rfl, rfl, rfl, (List.append_nil _).symm, fun h => absurd (haccepts h) hof⟩

end Closes

/-- Every failure that a cleanup service reports is one that Run Evidence accepts. -/
def Reports (service : CleanupAnswer) : Prop := ∀ failure ∈ collectCleanupFailures service, OfCleanup failure

/-- The events of Safety Cleanup, over so many registered paths. -/
def cleanupEvents (owned : Nat) : List RunEvent := [.entered .safetyCleanup, .cleanedUp owned, .serviced]

/-- **Safety Cleanup runs once**, and its phase is recorded. -/
theorem spec_safetyCleanup (service : CleanupAnswer) (backendCancelled : Bool)
    (h : Ended seams.checks mode tree run.view) {E : Thrown WorkError → Run V → Prop} {C : Run V → Prop} :
    Spec (safetyCleanup seams service backendCancelled) run (fun _ run' =>
      Closes (Reports service) [.executed .safetyCleanup none] (cleanupEvents (run.owned + run.site.staged.length))
        run run') E C := by
  obtain ⟨latest, hcurrent, hlt⟩ := h.begun
  have hentered : Evidence.Exactly id (run.evidence.storage.phases ++ [.executed .safetyCleanup none])
      (Evidence.recordPhase seams.checks seams.sink (.executed .safetyCleanup none)) run.evidence :=
    Evidence.exactly_recordPhase (.inr ⟨latest, hcurrent, hlt⟩) rfl (.inr (by decide)) (.inl (by decide))
  have hphase : Spec (enter .safetyCleanup (Evidence.recordPhase seams.checks seams.sink (.executed .safetyCleanup none)))
      run (fun _ run' => Closes (Reports service) [.executed .safetyCleanup none] [.entered .safetyCleanup] run run')
      (fun _ _ => False) fun _ => False := by
    refine spec_bind.mpr (spec_mark.mpr (spec_recording (hentered.mono (fun _ evidence hrecorded => ?_) (fun _ _ h => h)
      fun _ h => h)))
    exact ⟨hrecorded.2, completedAttempts_facts hrecorded.1, rfl, rfl, rfl, fun _ => ⟨rfl, rfl⟩⟩
  refine spec_bind.mpr (spec_note (hphase.mono (fun _ run₁ h₁ => ?_) (fun _ _ h => h) fun _ h => h))
  -- one pass of each service, whose failures are recorded in turn
  have hpassed : Closes (Reports service) [.executed .safetyCleanup none]
      (cleanupEvents (run.owned + run.site.staged.length)) run
      { run₁ with
        log := run₁.log ++ [.cleanedUp (run₁.owned + run₁.site.staged.length)] ++ [.serviced]
        calls := run₁.calls + 1 } := by
    refine ⟨h₁.phases, h₁.attempts, h₁.site, h₁.owned, ?_, h₁.accepted⟩
    rw [h₁.log, h₁.owned, h₁.site, List.append_assoc, List.append_assoc]
    rfl
  refine spec_bind.mpr (spec_bind.mpr (Prog.spec_get.mpr (spec_bind.mpr (spec_mark.mpr (spec_bind.mpr
    (spec_nextCall.mpr (spec_bind.mpr (spec_mark.mpr (Prog.spec_pure.mpr ?_)))))))))
  have hrecorded := Spec.forEach (E := E) (C := C) (f := fun failure =>
      note (recording (Evidence.recordSafetyCleanupFailure failure)))
    (I := fun _ left run' => Closes (Reports service) [.executed .safetyCleanup none]
      (cleanupEvents (run.owned + run.site.staged.length)) run run' ∧ ∀ failure ∈ left, Reports service → OfCleanup failure)
    (fun _ failure left run' h' => ?_) []
    (collectCleanupFailures (registryAnswer (seams.cleanup run₁.calls)) ++ collectCleanupFailures service) ⟨hpassed, ?_⟩
  · refine spec_bind.mpr (hrecorded.mono (fun _ run' h' => ?_) (fun _ _ h => h) fun _ h => h)
    refine spec_bind.mpr (spec_isCancelled.mpr ?_)
    have hpolled : Closes (Reports service) [.executed .safetyCleanup none]
        (cleanupEvents (run.owned + run.site.staged.length)) run { run' with calls := run'.calls + 1 } :=
      ⟨h'.1.phases, h'.1.attempts, h'.1.site, h'.1.owned, h'.1.log, h'.1.accepted⟩
    split_ifs
    · have hobserved : Evidence.Exactly (fun storage => { storage with cancellationObserved := true })
          (run'.evidence.storage.phases ++ []) Evidence.recordCancellationObservation run'.evidence := by
        rw [List.append_nil]
        exact ⟨rfl, rfl⟩
      exact (@closes_recording _ _ { run' with calls := run'.calls + 1 } _ _ _ _ _ _ hobserved rfl).mono
        (fun _ _ h => by simpa only [List.append_nil] using hpolled.trans h) (fun _ _ h => h) fun _ h => h
    · exact hpolled
  · refine (closes_noted failure (h'.2 failure List.mem_cons_self) h'.1.currentPhase).mono (fun _ run'' h'' => ?_)
      (fun _ _ h => h) fun _ h => h
    have hnoted := h'.1.trans h''
    rw [List.append_nil, List.append_nil] at hnoted
    exact ⟨hnoted, fun other hother => h'.2 other (List.mem_cons_of_mem _ hother)⟩
  · intro failure hfailure hreports
    exact (List.mem_append.mp hfailure).elim (ofCleanup_registryAnswer _ failure) (hreports failure)

/-! ## The result -/

/-- What a run leaves, from where its work is over. -/
structure Finished (service : CleanupAnswer) (run : Run V) (executed : Executed) (run' : Run V) : Prop where
  phases : executed.result.evidence.storage.phases = run.evidence.storage.phases ++ [.executed .safetyCleanup none]
  attempts : executed.result.evidence.storage.completedAttempts = run.evidence.storage.completedAttempts
  outcome : executed.result.outcome = classifyTerminalOutcome executed.result.evidence
  site : run'.site = run.site
  log : run'.log = run.log ++ cleanupEvents (run.owned + run.site.staged.length) ++ [.consumed]
  returned : Reports service → run.invariant = none →
    run'.refused = run.refused ∧ run'.invariant = none ∧ ∃ result, executed = .returned result

/-- **Evidence is consumed** once Safety Cleanup is current. -/
theorem spec_sealResult (finalPhase : RunPhase) (hcurrent : run.evidence.storage.currentPhase = some .safetyCleanup)
    {Q : OptimizationRunResult → Run V → Prop} {E : Thrown WorkError → Run V → Prop} {C : Run V → Prop}
    (hQ : ∀ result : OptimizationRunResult, result.evidence.storage = run.evidence.storage →
      result.outcome = classifyTerminalOutcome result.evidence → Q result { run with log := run.log ++ [.consumed] }) :
    Spec (sealResult finalPhase) run Q E C := by
  refine spec_bind.mpr (spec_mark.mpr (spec_bind.mpr (Prog.spec_attempt.mpr ?_)))
  have hconsumed : Spec Evidence.consume run.evidence (fun evidence evidence' =>
      evidence.storage = run.evidence.storage ∧ evidence' = run.evidence) (fun _ _ => False) fun _ => False := by
    unfold Evidence.consume
    refine spec_bind.mpr (Evidence.spec_getStorage.mpr (spec_bind.mpr ?_))
    rw [hcurrent]
    exact ⟨rfl, rfl⟩
  refine spec_recording (hconsumed.mono (fun evidence evidence' h => ?_) (fun _ _ h => h) fun _ h => h)
  obtain ⟨hstorage, rfl⟩ := h
  exact hQ _ hstorage rfl

/-- A run whose work is over is cleaned up and sealed. -/
theorem spec_conclude (service : CleanupAnswer) (finalPhase : RunPhase)
    (h : Closes (Reports service) [.executed .safetyCleanup none]
      (cleanupEvents (run.owned + run.site.staged.length)) run run')
    {E : Thrown WorkError → Run V → Prop} {C : Run V → Prop} :
    Spec (conclude finalPhase) run' (Finished service run) E C := by
  refine spec_bind.mpr (Prog.spec_get.mpr ?_)
  cases hinvariant : run'.invariant with
  | none =>
    refine spec_bind.mpr (spec_sealResult finalPhase h.currentPhase fun result hstorage houtcome => ?_)
    refine ⟨hstorage ▸ h.phases, hstorage ▸ h.attempts, houtcome, h.site, ?_, fun hreports hnone => ?_⟩
    · show run'.log ++ [RunEvent.consumed] = _
      rw [h.log]
    · exact ⟨(h.accepted hreports).1, hinvariant, result, rfl⟩
  | some violation =>
    have hretained : Evidence.Exactly (fun storage => { storage with failures := storage.failures ++
        [.new .runWorkEscaped finalPhase violation] }) (run'.evidence.storage.phases ++ [])
        (Evidence.retainFailure (.new .runWorkEscaped finalPhase violation)) run'.evidence := by
      rw [List.append_nil]
      exact ⟨rfl, rfl⟩
    refine spec_bind.mpr ((closes_recording hretained rfl).mono (fun _ run'' (h'' : Closes (Reports service) _ _ _ _) => ?_)
      (fun _ _ h => h) fun _ h => h)
    have hclosed := h.trans h''
    rw [List.append_nil, List.append_nil] at hclosed
    refine spec_bind.mpr (spec_sealResult finalPhase hclosed.currentPhase fun result hstorage houtcome => ?_)
    refine ⟨hstorage ▸ hclosed.phases, hstorage ▸ hclosed.attempts, houtcome, hclosed.site, ?_, fun hreports hnone => ?_⟩
    · show run''.log ++ [RunEvent.consumed] = _
      rw [hclosed.log]
    · rw [(h.accepted hreports).2, hnone] at hinvariant
      exact nomatch hinvariant

/-! ## The run -/

variable [DecidableEq K]

/-- **Every run is closed once its work is over**, however its work ended. -/
theorem spec_execute (seams : RunSeams V table) (service : CleanupAnswer) (request : RunRequest) (tree : AssetTree V)
    {E : Thrown WorkError → Run V → Prop} {C : Run V → Prop} :
    Spec (execute seams service request) (Run.start tree) (fun executed run' =>
      ∃ run : Run V, Ended seams.checks request.executionMode tree run.view ∧ Finished service run executed run') E C := by
  refine spec_bind.mpr (spec_contained request tree fun backendCancelled run h => ?_)
  have hpublished : Spec (recording (Evidence.publishDiagnostics seams.sink)) run
      (fun _ run' => Ended seams.checks request.executionMode tree run'.view) E C :=
    spec_endedRecorded .publishDiagnostics h (Evidence.exactly_publishDiagnostics h.working.orderly.publishable) rfl
      fun _ h => h
  refine spec_bind.mpr (hpublished.mono (fun _ run h => ?_) (fun _ _ h => h) fun _ h => h)
  refine spec_bind.mpr (Prog.spec_get.mpr (spec_bind.mpr ((spec_safetyCleanup service backendCancelled h).mono
    (fun _ run' h' => ?_) (fun _ _ h => h) fun _ h => h)))
  exact (spec_conclude service _ h').mono (fun executed run'' h'' => ⟨run, h, h''⟩) (fun _ _ h => h) fun _ h => h

/-- **Run Evidence refuses nothing of a run**: whatever the seams and the token do, no operation is a violation, and the
run returns its result. -/
theorem execute_accepted (seams : RunSeams V table) (request : RunRequest) (tree : AssetTree V) :
    Spec (execute seams noTemporaryArtifacts request) (Run.start tree)
      (fun executed run' => run'.refused = [] ∧ run'.invariant = none ∧ ∃ result, executed = .returned result)
      (fun _ _ => False) fun _ => False := by
  refine (spec_execute seams noTemporaryArtifacts request tree).mono (fun executed run' h => ?_) (fun _ _ h => h) fun _ h => h
  obtain ⟨run, hended, hfinished⟩ := h
  have hreports : Reports noTemporaryArtifacts := fun _ h => nomatch h
  obtain ⟨hrefused, hinvariant, hreturned⟩ := hfinished.returned hreports hended.working.unviolated
  exact ⟨hrefused.trans hended.working.unrefused, hinvariant, hreturned⟩

/-- **Safety Cleanup happens once, and last**: however a run ends, its cleanup closes the log but for the consumption of
the evidence, which never fails, and its phase is recorded once, after every other. -/
theorem execute_cleaned (seams : RunSeams V table) (service : CleanupAnswer) (request : RunRequest)
    (tree : AssetTree V) :
    Spec (execute seams service request) (Run.start tree)
      (fun executed run' =>
        (∃ before owned, run'.log = before ++ cleanupEvents owned ++ [.consumed] ∧
          ∀ event ∈ before, event.closes = false) ∧
        ∃ phases, executed.result.evidence.storage.phases = phases ++ [.executed .safetyCleanup none] ∧
          ∀ record ∈ phases, record.phase ≠ .safetyCleanup)
      (fun _ _ => False) fun _ => False := by
  refine (spec_execute seams service request tree).mono (fun executed run' h => ?_) (fun _ _ h => h) fun _ h => h
  obtain ⟨run, hended, hfinished⟩ := h
  refine ⟨⟨run.log, _, hfinished.log, hended.working.unclosed⟩, _, hfinished.phases, fun record hrecord => ?_⟩
  obtain ⟨latest, hcurrent, hlt⟩ := hended.begun
  exact ((hended.working.orderly.sound.le_current hcurrent hrecord).trans_lt hlt).ne

/-- An unsafe attempt makes the run fail. -/
theorem classify_stopped {evidence : Evidence.RunEvidence} {attempt : Evidence.PhaseAttempt}
    (hstops : safeToContinue attempt = false) (hretained : attempt.completed ∈ evidence.storage.completedAttempts) :
    classifyTerminalOutcome evidence = .failed := by
  have hcompleted : attempt.completed.facts.safeToContinue = safeToContinue attempt := by cases attempt <;> rfl
  have hwork : unsafeWork evidence.storage = true := by
    have hany : evidence.storage.completedAttempts.any (fun attempt => !attempt.facts.safeToContinue) = true :=
      List.any_eq_true.mpr ⟨_, hretained, by rw [hcompleted, hstops]; rfl⟩
    rw [unsafeWork, hany, Bool.or_true]
  rw [classifyTerminalOutcome, if_pos hwork]

/-- Where an event is neither before nor after the one that an unsafe attempt marked, it is that one. -/
theorem after_stopped {attempt attempt' : Evidence.PhaseAttempt} {before after before' after' : List RunEvent}
    (h : before ++ .attempted attempt :: after = before' ++ .attempted attempt' :: after')
    (hstops : safeToContinue attempt = false) (hbefore : Safe before') (hafter : Safe after') : after = after' := by
  have hnot : ∀ {log : List RunEvent}, Safe log → RunEvent.attempted attempt ∉ log := fun hsafe hmem =>
    absurd (hsafe attempt hmem) (by simp [hstops])
  rcases List.append_eq_append_iff.mp h with ⟨between, hleft, hright⟩ | ⟨between, hleft, hright⟩
  · cases between with
    | nil => exact (List.cons.inj hright).2
    | cons event between =>
      have hmem : RunEvent.attempted attempt ∈ before' := by
        rw [hleft, (List.cons.inj hright).1]
        simp
      exact absurd hmem (hnot hbefore)
  · cases between with
    | nil => exact (List.cons.inj hright).2.symm
    | cons event between =>
      have hmem : RunEvent.attempted attempt ∈ after' := by
        rw [(List.cons.inj hright).2]
        simp
      exact absurd hmem (hnot hafter)

/-- **An unsafe attempt stops everything**: only Safety Cleanup follows it, and the run fails. -/
theorem execute_stops (seams : RunSeams V table) (service : CleanupAnswer) (request : RunRequest) (tree : AssetTree V) :
    Spec (execute seams service request) (Run.start tree)
      (fun executed run' => ∀ before attempt after, run'.log = before ++ .attempted attempt :: after →
        safeToContinue attempt = false →
        (∃ owned, after = cleanupEvents owned ++ [.consumed]) ∧ executed.result.outcome = .failed)
      (fun _ _ => False) fun _ => False := by
  refine (spec_execute seams service request tree).mono (fun executed run' h => ?_) (fun _ _ h => h) fun _ h => h
  obtain ⟨run, hended, hfinished⟩ := h
  intro before attempt after hlog hstops
  have hclosing : ∀ owned, Safe (cleanupEvents owned ++ [.consumed]) := fun owned attempt hattempt => by
    simp [cleanupEvents] at hattempt
  rcases hended.halted with hsafe | ⟨before', attempt', hstopped, hsafe, hstops', hretained⟩
  · have hmem : RunEvent.attempted attempt ∈ run.log ++ (cleanupEvents (run.owned + run.site.staged.length) ++ [.consumed]) := by
      rw [← List.append_assoc, ← hfinished.log, hlog]
      simp
    exact absurd (hsafe.append (hclosing _) attempt hmem) (by simp [hstops])
  · refine ⟨⟨run.owned + run.site.staged.length, ?_⟩, ?_⟩
    · have hrun : run.log = before' ++ [.attempted attempt'] := hstopped
      have hsplit : before ++ .attempted attempt :: after = before' ++ .attempted attempt' ::
          (cleanupEvents (run.owned + run.site.staged.length) ++ [.consumed]) := by
        rw [← hlog, hfinished.log, hrun]
        simp
      exact after_stopped hsplit hstops hsafe (hclosing _)
    · rw [hfinished.outcome]
      exact classify_stopped hstops' (hfinished.attempts ▸ hretained)

/-- **A Dry Run changes nothing**: no step that may change the file system is invoked, and there is nothing to clean up. -/
theorem execute_dryRun (seams : RunSeams V table) (service : CleanupAnswer) (request : RunRequest) (tree : AssetTree V) :
    Spec (execute seams service { request with executionMode := .dryRun }) (Run.start tree)
      (fun _ run' => run'.site.tree = tree ∧ run'.site.staged = [] ∧ ∀ event ∈ run'.log, event.mutates = false)
      (fun _ _ => False) fun _ => False := by
  refine (spec_execute seams service { request with executionMode := .dryRun } tree).mono (fun executed run' h => ?_)
    (fun _ _ h => h) fun _ h => h
  obtain ⟨run, hended, hfinished⟩ := h
  have hunchanged := hended.working.unchanged rfl
  have htree : run.site.tree = tree := hunchanged.tree
  have hstaged : run.site.staged = [] := hunchanged.staged
  have howned : run.owned = 0 := hunchanged.owned
  refine ⟨hfinished.site ▸ htree, hfinished.site ▸ hstaged, fun event hevent => ?_⟩
  rw [hfinished.log, howned, hstaged, List.append_assoc] at hevent
  rcases List.mem_append.mp hevent with hwork | hclosing
  · exact hunchanged.log event hwork
  · have hinert : ∀ event ∈ cleanupEvents 0 ++ [.consumed], event.mutates = false := by decide
    exact hinert event hclosing

end Cao.Executor
