import Cao.Executor.Finalizing

/-!
# The traversal ends with its work over

Preparing and every work phase, from the start of a run: whatever the provider, the work and the token do, the traversal
leaves a run whose work is over, for Safety Cleanup to close.

* **`spec_started`**: the entry of Preparing;
* `steps_prepare`, `steps_prepareStaging`, `steps_keepPreparation`: Preparing;
* `steps_performWork`, `steps_skipPhases`: the work, or its phases skipped;
* **`spec_contained`**: the traversal, contained.
-/

namespace Cao.Executor

open Prog (Spec spec_bind)
open Routing Capacity Asset
open Evidence (RunPhase RunPhaseRecord RunDiagnostic Storage)

variable {K : Type} {V : Volume K} {table : UpcaseTable} {ε α β : Type}
variable {checks : OverflowChecks} {mode : ExecutionMode} {tree : AssetTree V} {seams : RunSeams V table} {run : Run V}
variable {latest : RunPhaseRecord} {flags : Flags}

/-! ## The start -/

/-- What is noted is accepted where nothing refuses it. -/
theorem spec_note {x : Running V Unit} {Q : Unit → Run V → Prop} {E : Thrown WorkError → Run V → Prop}
    {C : Run V → Prop} (h : Spec x run Q (fun _ _ => False) fun _ => False) : Spec (note x) run Q E C :=
  spec_bind.mpr (Prog.spec_attempt.mpr (h.mono (fun _ _ h => h) (fun _ _ h => h.elim) fun _ h => h.elim))

/-- Preparing, as its record is. -/
abbrev preparing : RunPhaseRecord := .executed .preparing none

/-- **A run starts with Preparing.** -/
theorem spec_started (seams : RunSeams V table) (mode : ExecutionMode) (tree : AssetTree V) {Q : Unit → Run V → Prop}
    {E : Thrown WorkError → Run V → Prop} {C : Run V → Prop}
    (hQ : ∀ run', Ready seams.checks mode tree preparing unrecorded run'.view → Q () run') :
    Spec (note (enter .preparing (Evidence.recordPhase seams.checks seams.sink preparing))) (Run.start tree) Q E C := by
  have hexactly : Evidence.Exactly id [preparing] (Evidence.recordPhase seams.checks seams.sink preparing)
      Evidence.MutableRunEvidence.new :=
    Evidence.exactly_recordPhase (.inl ⟨rfl, .inl rfl⟩) rfl (.inr (by decide)) (.inl (by decide))
  refine spec_note (spec_bind.mpr (spec_mark.mpr (spec_recording ?_)))
  refine (Evidence.recorded_run (.recordPhase preparing) Evidence.orderly_new hexactly).mono
    (fun _ evidence hrecorded => hQ _ ?_) (fun _ _ h => h) fun _ h => h
  have hsafe : Safe [RunEvent.entered .preparing] := safe_singleton fun _ h => nomatch h
  refine ⟨⟨⟨hrecorded.orderly, rfl, rfl, ?_, fun _ => ⟨rfl, rfl, rfl, ?_⟩⟩, .inl hsafe, ?_, ?_⟩, hsafe⟩
  · intro event hevent
    rw [List.mem_singleton.mp hevent]
    rfl
  · intro event hevent
    rw [List.mem_singleton.mp hevent]
    rfl
  · show evidence.storage.phases.getLast? = some preparing
    rw [hrecorded.phases]
    rfl
  · exact flagsOf_facts hrecorded.facts

/-! ## Preparing -/

theorem preparing_lt : preparing.phase < .safetyCleanup := (by decide : RunPhase.preparing < .safetyCleanup)

/-- A preparation carries the mode of the run. -/
abbrev Moded (mode : ExecutionMode) (prepared : Option (Preparation × RunToolset)) : Prop :=
  ∀ preparation toolset, prepared = some (preparation, toolset) → preparation.policy.executionMode = mode

theorem steps_resolveModRoots (h : Ready seams.checks mode tree preparing unrecorded run.view) :
    Steps seams.checks mode tree (resolveModRoots seams) run fun _ run' =>
      Ready seams.checks mode tree preparing unrecorded run'.view := by
  refine spec_bind.mpr (spec_nextCall.mpr ?_)
  have hcalled : Ready seams.checks mode tree preparing unrecorded ({ run with calls := run.calls + 1 } : Run V).view := h
  refine Steps.bind (steps_forEach hcalled fun diagnostic run h => steps_recordDiagnostic diagnostic h) fun _ run' h' => ?_
  rcases (seams.resolveModRoots run.calls).2 with (failure | message) | roots
  · exact h'
  · exact h'.escapes preparing_lt message
  · exact h'

/-- What is prepared carries the mode of the request. -/
theorem steps_preparePolicy (request : RunRequest) (profile : SelectedProfile) (toolset : RunToolset)
    (h : Ready seams.checks mode tree preparing unrecorded run.view) :
    Steps seams.checks mode tree (preparePolicy seams request profile toolset) run fun answer run' =>
      Ready seams.checks mode tree preparing unrecorded run'.view ∧
        ∀ prepared, answer = .ok prepared → Moded request.executionMode prepared := by
  unfold preparePolicy
  cases hcompiled : profile.compilePolicy request with
  | none => exact ⟨h, nofun⟩
  | some policy =>
    have hmode : policy.executionMode = request.executionMode := by
      unfold SelectedProfile.compilePolicy at hcompiled
      obtain ⟨compiled, -, rfl⟩ := Option.map_eq_some_iff.mp hcompiled
      rfl
    refine Steps.bind (steps_resolveModRoots h) fun resolved run' h' => ?_
    cases resolved with
    | error failure => exact ⟨h', nofun⟩
    | ok roots =>
      refine spec_polled h' fun cancelled run' _ h' => ?_
      cases cancelled with
      | true => exact ⟨h', by rintro _ ⟨⟩; exact nofun⟩
      | false => exact ⟨h', by rintro _ ⟨⟩ _ _ ⟨⟩; exact hmode⟩

theorem steps_prepareRun (request : RunRequest) (h : Ready seams.checks mode tree preparing unrecorded run.view) :
    Steps seams.checks mode tree (prepareRun seams request) run fun answer run' =>
      Ready seams.checks mode tree preparing unrecorded run'.view ∧
        ∀ prepared, answer = .ok prepared → Moded request.executionMode prepared := by
  have hloaded : Steps seams.checks mode tree (loadSelectedProfile seams) run fun _ run' =>
      Ready seams.checks mode tree preparing unrecorded run'.view := by
    unfold loadSelectedProfile
    cases seams.configuration with
    | none => exact h
    | some load =>
      refine spec_bind.mpr (spec_nextCall.mpr ?_)
      rcases load run.calls with (detail | message) | loaded
      · exact h
      · exact h
      · exact h
  refine Steps.bind hloaded fun loaded run' h' => ?_
  rcases loaded with failure | ⟨profile, toolset⟩
  · exact ⟨h', nofun⟩
  · refine spec_polled h' fun cancelled run' _ h' => ?_
    cases cancelled with
    | true => exact ⟨h', by rintro _ ⟨⟩; exact nofun⟩
    | false => exact steps_preparePolicy request profile toolset h'

/-- What Preparing leaves: a run that may go on, or one whose work a failure ended. -/
def Prepared (checks : OverflowChecks) (mode : ExecutionMode) (tree : AssetTree V) :
    Except Unit (Option (Preparation × RunToolset)) → Run V → Prop
  | .ok prepared, run => Ready checks mode tree preparing unrecorded run.view ∧ Moded mode prepared
  | .error _, run => Ended checks mode tree run.view

theorem steps_prepare {request : RunRequest} (hmode : request.executionMode = mode)
    (h : Ready seams.checks mode tree preparing unrecorded run.view) :
    Steps seams.checks mode tree (prepare seams request) run (Prepared seams.checks mode tree) := by
  refine spec_polled h fun cancelled run' _ h' => ?_
  cases cancelled with
  | true => exact ⟨h', nofun⟩
  | false =>
    refine Steps.bind (steps_prepareRun request h') fun answer run' h' => ?_
    obtain ⟨h', hmoded⟩ := h'
    cases answer with
    | ok prepared => exact ⟨h', hmode ▸ hmoded prepared rfl⟩
    | error failure => exact Steps.bind (steps_recordFailure failure (h'.ended preparing_lt)) fun _ _ h => h

/-- Whether a run goes on once its Mod Roots are prepared. -/
def Staged (checks : OverflowChecks) (mode : ExecutionMode) (tree : AssetTree V) (failed : Bool) (run : Run V) : Prop :=
  if failed then Ended checks mode tree run.view else Ready checks mode tree preparing unrecorded run.view

/-- The Mod Roots of an Apply run are prepared until one fails. -/
theorem steps_prepareRoots (hmode : mode = .apply) (roots : List Path)
    (h : Ready seams.checks mode tree preparing unrecorded run.view) :
    Steps seams.checks mode tree (prepareRoots seams roots) run (Staged seams.checks mode tree) := by
  induction roots generalizing run with
  | nil => exact h
  | cons root roots ih =>
    refine spec_polled h fun cancelled run' _ h' => ?_
    cases cancelled with
    | true => exact h'
    | false =>
      refine spec_bind.mpr (spec_bind.mpr (spec_mutating hmode h'.toStands h'.safe fun n run' _ h' => ?_))
      have hfailed : ∀ failure, Steps seams.checks mode tree
          (recording (Evidence.recordFailure seams.sink failure) >>= fun _ => pure true) run'
          (Staged seams.checks mode tree) := fun failure =>
        Steps.bind (steps_recordFailure failure (h'.ended preparing_lt)) fun _ _ h => h
      rcases seams.prepareRoot n root with (detail | message) | (_ | failure)
      · exact hfailed _
      · exact h'.escapes preparing_lt message
      · exact ih h'
      · exact hfailed failure

theorem steps_prepareStaging {request : RunRequest} (hmode : request.executionMode = mode)
    (prepared : Option (Preparation × RunToolset)) (h : Ready seams.checks mode tree preparing unrecorded run.view) :
    Steps seams.checks mode tree (prepareStaging seams request prepared) run (Staged seams.checks mode tree) := by
  unfold prepareStaging
  rcases prepared with _ | ⟨preparation, toolset⟩
  · exact h
  · dsimp only
    split_ifs with happly
    · exact steps_prepareRoots (hmode.symm.trans happly) preparation.facts.modRoots h
    · exact h

/-- The preparation is recorded where there is one to work on. -/
theorem steps_keepPreparation (prepared : Option (Preparation × RunToolset)) (hmoded : Moded mode prepared)
    (h : Ready seams.checks mode tree preparing unrecorded run.view) :
    Steps seams.checks mode tree (keepPreparation seams prepared) run fun kept run' =>
      Moded mode kept ∧ ∃ flags, Ready seams.checks mode tree preparing flags run'.view ∧
        (kept ≠ none → flags = preparedFlags) := by
  rcases prepared with _ | ⟨preparation, toolset⟩
  · exact ⟨nofun, _, h, fun hkept => absurd rfl hkept⟩
  · refine spec_polled h fun cancelled run' _ h' => ?_
    cases cancelled with
    | true => exact ⟨nofun, _, h', fun hkept => absurd rfl hkept⟩
    | false =>
      have hprepared : Evidence.Exactly (fun storage => { storage with preparation := some preparation.facts })
          run'.evidence.storage.phases (Evidence.recordPreparation preparation.facts) run'.evidence := by
        refine Evidence.exactly_getStorage (Evidence.exactly_require ?_ (Evidence.exactly_require ?_ ⟨rfl, rfl⟩))
        · have hunprepared : run'.evidence.storage.preparation.isSome = false := congrArg Flags.prepared h'.flags
          simpa using hunprepared
        · rw [h'.currentPhase]
          decide
      refine spec_bind.mpr (spec_note (spec_recorded (.recordPreparation preparation.facts) h' hprepared h'.current
        (congrArg (fun flags : Flags => { flags with prepared := true }) h'.flags) fun run' _ h' => ?_))
      exact ⟨hmoded, _, h', fun _ => rfl⟩

/-! ## The work -/

/-- Escaped work is recorded at its phase. -/
theorem spec_failAtCurrentPhase (detail : String) (h : Ended seams.checks mode tree run.view)
    {E : Thrown WorkError → Run V → Prop} {C : Run V → Prop} :
    Spec (failAtCurrentPhase seams detail) run (fun _ run' => Ended seams.checks mode tree run'.view) E C :=
  spec_bind.mpr (Prog.spec_get.mpr (spec_endedRecorded (.recordFailure _) h (Evidence.exactly_recordFailure _) rfl
    fun _ h => h))

/-- **The work is contained**: a panic of it is a Run Failure. -/
theorem steps_performWork {work : Running V (Flow Unit)}
    (hwork : Works seams.checks mode tree work run fun _ run' => Ended seams.checks mode tree run'.view) :
    Steps seams.checks mode tree (performWork seams work) run fun _ run' => Ended seams.checks mode tree run'.view := by
  refine spec_bind.mpr (Prog.spec_attempt.mpr (Spec.mono hwork (fun flow run' h' => ?_) (fun e run' h' => ?_) fun _ h => h))
  · cases flow with
    | proceed _ => exact h'
    | stopped _ => exact h'
  · obtain ⟨⟨message, rfl⟩, h'⟩ := h'
    exact spec_bind.mpr ((spec_failAtCurrentPhase _ h').mono (fun _ _ h => h) (fun _ _ h => h) fun _ h => h)

/-- Phases that follow one another are skipped in turn. -/
theorem steps_skipPhases (phases : List RunPhase) (h : Ready seams.checks mode tree latest flags run.view)
    (hascend : (latest.phase :: phases).Pairwise (· < ·)) (hlt : ∀ phase ∈ latest.phase :: phases, phase < .safetyCleanup) :
    Steps seams.checks mode tree (skipPhases seams phases) run fun _ run' =>
      Ended seams.checks mode tree run'.view := by
  induction phases generalizing run latest with
  | nil => exact h.ended (hlt _ List.mem_cons_self)
  | cons phase phases ih =>
    refine spec_polled h fun cancelled run' _ h' => ?_
    cases cancelled with
    | true => exact h'.ended (hlt _ List.mem_cons_self)
    | false =>
      have henters : Evidence.Enters run'.evidence.storage.phases phase :=
        .inr ⟨latest, h'.current, (List.pairwise_cons.mp hascend).1 phase List.mem_cons_self⟩
      refine spec_bind.mpr (spec_note (spec_entered (.recordPhase (.skipped phase .noRequestedWork)) (f := id) h'
        (hlt _ (List.mem_cons_of_mem _ List.mem_cons_self)) (Evidence.exactly_recordPhase henters rfl
          (.inl (by simp [RunPhaseRecord.status])) (.inl (by simp [RunPhaseRecord.status]))) h'.flags fun run' _ h' => ?_))
      exact ih h' (List.pairwise_cons.mp hascend).2 fun other hother => hlt other (List.mem_cons_of_mem _ hother)

variable [DecidableEq K]

theorem works_runWorkPhases (cleanup : SourceCleanup) (preparation : Preparation) (toolset : RunToolset)
    (hmode : preparation.policy.executionMode = mode)
    (h : Ready seams.checks mode tree preparing preparedFlags run.view) :
    Works seams.checks mode tree (runWorkPhases seams cleanup preparation toolset) run fun _ run' =>
      Ended seams.checks mode tree run'.view := by
  unfold runWorkPhases
  split_ifs
  · exact h.escapes preparing_lt _
  · exact works_workPhases cleanup preparation hmode h

/-- What follows a Preparing that did not fail. -/
theorem steps_traverseWork {request : RunRequest} (prepared : Option (Preparation × RunToolset))
    (hmoded : Moded mode prepared) (h : Ready seams.checks mode tree preparing unrecorded run.view) :
    Steps seams.checks mode tree
      (traverseWork seams request (runWorkPhases seams request.archiveExtraction) prepared) run
      fun _ run' => Ended seams.checks mode tree run'.view := by
  refine Steps.bind (steps_keepPreparation prepared hmoded h) fun kept run' h' => ?_
  obtain ⟨hmoded, flags, h', hkept⟩ := h'
  refine spec_polled h' fun cancelled run' _ h' => ?_
  cases cancelled with
  | true => exact h'.ended preparing_lt
  | false =>
    have hskipped : Steps seams.checks mode tree (skipPhases seams workSequence >>= fun _ => pure false) run'
        fun _ run' => Ended seams.checks mode tree run'.view :=
      Steps.bind (steps_skipPhases workSequence h' (by decide) (by decide)) fun _ _ h => h
    rcases kept with _ | ⟨preparation, toolset⟩
    · exact hskipped
    · cases request.hasRequestedWork with
      | false => exact hskipped
      | true =>
        obtain rfl := hkept nofun
        exact steps_performWork (works_runWorkPhases request.archiveExtraction preparation toolset
          (hmoded preparation toolset rfl) h')

/-- **The traversal leaves a run whose work is over.** -/
theorem spec_contained (request : RunRequest) (tree : AssetTree V) {Q : Bool → Run V → Prop}
    {E : Thrown WorkError → Run V → Prop} {C : Run V → Prop}
    (hQ : ∀ backendCancelled run', Ended seams.checks request.executionMode tree run'.view → Q backendCancelled run') :
    Spec (contain seams (traverse seams request (runWorkPhases seams request.archiveExtraction))) (Run.start tree) Q E C := by
  have htraversed : Steps seams.checks request.executionMode tree
      (traverse seams request (runWorkPhases seams request.archiveExtraction)) (Run.start tree)
      fun _ run' => Ended seams.checks request.executionMode tree run'.view := by
    refine spec_bind.mpr (spec_started seams request.executionMode tree fun run' h' => ?_)
    refine Steps.bind (steps_prepare rfl h') fun answer run' h' => ?_
    rcases answer with _ | prepared
    · exact h'
    · obtain ⟨h', hmoded⟩ := h'
      refine Steps.bind (steps_prepareStaging rfl prepared h') fun failed run' h' => ?_
      cases failed with
      | true => exact h'
      | false => exact steps_traverseWork prepared hmoded h'
  refine spec_bind.mpr (Prog.spec_attempt.mpr (Spec.mono htraversed (fun _ run' h' => hQ _ _ h') (fun e run' h' => ?_)
    fun _ h => h.elim))
  obtain ⟨⟨message, rfl⟩, h'⟩ := h'
  exact spec_bind.mpr ((spec_failAtCurrentPhase _ h').mono (fun _ _ h => hQ _ _ h) (fun _ _ h => h) fun _ h => h)

end Cao.Executor
