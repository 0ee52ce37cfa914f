import Cao.Evidence.Sealed
import Cao.Executor.WorkPhases

/-!
# The executor

`run/executor.rs`: the traversal of one run's phases, the containment of its work, Safety Cleanup and the classification
of the sealed evidence.

* `loadSelectedProfile`, `prepareRun`, `prepareRoots`: Preparing;
* `performWork`, `traverse`: every phase before Safety Cleanup;
* `collectCleanupFailures`: one cleanup pass;
* `classifyTerminalOutcome`, `sealResult`: the result;
* `executeWithWork`, `execute`: the run.
-/

namespace Cao.Executor

open Routing Capacity
open Evidence (RunEvidence RunPhase)

variable {K : Type} {V : Volume K} {table : UpcaseTable} {ε : Type}

/-! ## Preparing -/

/-- A failure to load the profile. -/
def loadingFailure (detail : String) : Evidence.RunFailure := .new .configurationLoadingFailed .preparing detail

/-- `load_selected_profile`. -/
def loadSelectedProfile (seams : RunSeams V table) :
    Running V (Except Evidence.RunFailure (SelectedProfile × RunToolset)) :=
  match seams.configuration with
  | none => return .error (loadingFailure "No run configuration provider is available")
  | some load => do
    let n ← nextCall
    match load n with
    | .ok loaded => return .ok loaded
    | .error (.error detail) => return .error (loadingFailure detail)
    | .error (.panic message) => return .error (loadingFailure ("The configuration provider panicked: " ++ message))

/-- `resolve_mod_roots`: each Mod Exclusion is recorded as it is found. -/
def resolveModRoots (seams : RunSeams V table) : Running V (Except Evidence.RunFailure (List Path)) := do
  let n ← nextCall
  Prog.forEach (seams.resolveModRoots n).1 fun diagnostic => recording (Evidence.recordDiagnostic seams.sink diagnostic)
  match (seams.resolveModRoots n).2 with
  | .ok roots => return .ok roots
  | .error (.error failure) => return .error failure
  | .error (.panic message) => panicked message

/-- `prepare_run`, once the profile is loaded. -/
def preparePolicy (seams : RunSeams V table) (request : RunRequest) (profile : SelectedProfile) (toolset : RunToolset) :
    Running V (Except Evidence.RunFailure (Option (Preparation × RunToolset))) :=
  match profile.compilePolicy request with
  | none =>
    return .error (.new .policyConflict .preparing "The loaded profile conflicts with the requested Routing Policy")
  | some policy => do
    match ← resolveModRoots seams with
    | .error failure => return .error failure
    | .ok roots => do
      let cancelled ← isCancelled seams
      if cancelled then return .ok none
      else return .ok (some (⟨policy, ⟨roots, profile.packingExclusions, policy.requests .archiveCreation⟩⟩, toolset))

/-- `prepare_run`; `none` is observed cancellation. -/
def prepareRun (seams : RunSeams V table) (request : RunRequest) :
    Running V (Except Evidence.RunFailure (Option (Preparation × RunToolset))) := do
  match ← loadSelectedProfile seams with
  | .error failure => return .error failure
  | .ok (profile, toolset) => do
    let cancelled ← isCancelled seams
    if cancelled then return .ok none else preparePolicy seams request profile toolset

/-- `TemporaryArtifactRegistry::prepare_root`, and what its error becomes. -/
def prepareRoot (seams : RunSeams V table) (root : Path) : Running V (Option Evidence.RunFailure) := do
  let n ← mutating seams .prepareRoot
  match seams.prepareRoot n root with
  | .ok failure => return failure
  | .error (.error detail) => return some (.new .stagingOwnershipUnverified .preparing detail)
  | .error (.panic message) => panicked message

/-- The Mod Roots are prepared in turn: whether one failed. -/
def prepareRoots (seams : RunSeams V table) : List Path → Running V Bool
  | [] => return false
  | root :: roots => do
    let cancelled ← isCancelled seams
    if cancelled then return false
    else do
      match ← prepareRoot seams root with
      | some failure => do
        recording (Evidence.recordFailure seams.sink failure)
        return true
      | none => prepareRoots seams roots

/-! ## The traversal -/

/-- `fail_at_current_phase`. -/
def failAtCurrentPhase (seams : RunSeams V table) (detail : String) : Running V Unit := do
  let run ← Prog.get
  recording (Evidence.recordFailure seams.sink
    (.new .runWorkEscaped (run.evidence.storage.currentPhase.getD .preparing) detail))

/-- The run's work is contained: whether a backend reported cancellation. -/
def performWork (seams : RunSeams V table) (work : Running V (Flow Unit)) : Running V Bool := do
  match ← Prog.attempt work with
  | .ok flow => return flow = .stopped .backendCancelled
  | .error (.error (.evidenceInvariant message)) => do
    note (Prog.fail (.error (.evidenceInvariant message)))
    return false
  | .error (.error (.other detail)) => do
    failAtCurrentPhase seams detail
    return false
  | .error (.panic message) => do
    failAtCurrentPhase seams ("The run's work escaped with a panic: " ++ message)
    return false

/-- The work phases of a request with no work, skipped until cancellation shows. -/
def skipPhases (seams : RunSeams V table) : List RunPhase → Running V Unit
  | [] => return ()
  | phase :: phases => do
    let cancelled ← isCancelled seams
    if cancelled then return ()
    else do
      note (enter phase (Evidence.recordPhase seams.checks seams.sink (.skipped phase .noRequestedWork)))
      skipPhases seams phases

/-- `RunPhase::SEQUENCE`, between Preparing and Safety Cleanup. -/
def workSequence : List RunPhase :=
  [.discoveringArchives, .extractingArchives, .buildingEffectiveAssetTree, .processingAssets, .archiveFinalization]

/-- What Preparing leaves to work on: cancellation leaves nothing. -/
def keepPreparation (seams : RunSeams V table) (prepared : Option (Preparation × RunToolset)) :
    Running V (Option (Preparation × RunToolset)) :=
  match prepared with
  | none => return none
  | some (preparation, toolset) => do
    let cancelled ← isCancelled seams
    if cancelled then return none
    else do
      note (recording (Evidence.recordPreparation preparation.facts))
      return some (preparation, toolset)

/-- What follows a Preparing that did not fail: whether a backend reported cancellation. -/
def traverseWork (seams : RunSeams V table) (request : RunRequest)
    (work : Preparation → RunToolset → Running V (Flow Unit)) (prepared : Option (Preparation × RunToolset)) :
    Running V Bool := do
  let kept ← keepPreparation seams prepared
  let cancelled ← isCancelled seams
  if cancelled then return false
  else
    match kept, request.hasRequestedWork with
    | some (preparation, toolset), true => performWork seams (work preparation toolset)
    | _, _ => do
      skipPhases seams workSequence
      return false

/-- Whether preparing the Mod Roots of an Apply run failed. -/
def prepareStaging (seams : RunSeams V table) (request : RunRequest)
    (prepared : Option (Preparation × RunToolset)) : Running V Bool :=
  match prepared with
  | none => return false
  | some (preparation, _) =>
    if request.executionMode = .apply then prepareRoots seams preparation.facts.modRoots else return false

/-- Preparing, up to the Mod Roots: a failure is recorded. -/
def prepare (seams : RunSeams V table) (request : RunRequest) :
    Running V (Except Unit (Option (Preparation × RunToolset))) := do
  let cancelled ← isCancelled seams
  if cancelled then return .ok none
  else do
    match ← prepareRun seams request with
    | .ok prepared => return .ok prepared
    | .error failure => do
      recording (Evidence.recordFailure seams.sink failure)
      return .error ()

/-- `traverse`. -/
def traverse (seams : RunSeams V table) (request : RunRequest)
    (work : Preparation → RunToolset → Running V (Flow Unit)) : Running V Bool := do
  note (enter .preparing (Evidence.recordPhase seams.checks seams.sink (.executed .preparing none)))
  match ← prepare seams request with
  | .error () => return false
  | .ok prepared => do
    let failed ← prepareStaging seams request prepared
    if failed then return false else traverseWork seams request work prepared

/-! ## Safety Cleanup -/

/-- A cleanup service's answer: the failures it reports, its error or its panic. -/
abbrev CleanupAnswer := Except (Thrown String) (List Evidence.RunFailure)

/-- `NoTemporaryArtifacts`. -/
def noTemporaryArtifacts : CleanupAnswer := .ok []

/-- A failed cleanup service. -/
def serviceFailure (detail : String) : List Evidence.RunFailure :=
  [.new .safetyCleanupServiceFailed .safetyCleanup detail]

/-- `collect_safety_cleanup_failures`. -/
def collectCleanupFailures : CleanupAnswer → List Evidence.RunFailure
  | .ok failures => failures
  | .error (.error detail) => serviceFailure detail
  | .error (.panic message) => serviceFailure ("The cleanup service panicked: " ++ message)

/-- The failures of the registry's own cleanup. -/
def registryAnswer (answer : Except String (List (Path × String))) : CleanupAnswer :=
  match answer with
  | .ok failures => .ok (failures.map fun failure =>
      { Evidence.RunFailure.new .temporaryArtifactCleanupFailed .safetyCleanup failure.2 with path := failure.1 })
  | .error message => .error (.panic message)

/-- One pass of the registry's cleanup, then one of the injected service. -/
def performCleanup (seams : RunSeams V table) (service : CleanupAnswer) : Running V (List Evidence.RunFailure) := do
  let run ← Prog.get
  mark (.cleanedUp (run.owned + run.site.staged.length))
  let n ← nextCall
  mark .serviced
  return collectCleanupFailures (registryAnswer (seams.cleanup n)) ++ collectCleanupFailures service

/-! ## The result -/

/-- `RunOutcome`. -/
inductive RunOutcome
  | succeeded
  | completedWithFailures
  | cancelled
  | failed
  deriving DecidableEq, Repr

/-- Whether some work was unsafe: a Run Failure, a verdict of Archive Finalization or an attempt. -/
def unsafeWork (storage : Evidence.Storage) : Bool :=
  !storage.failures.isEmpty ||
    storage.archiveFinalization.any (fun finalization => !finalization.safeToContinue) ||
      storage.completedAttempts.any fun attempt => !attempt.facts.safeToContinue

/-- Whether some failure was contained. -/
def containedFailure (storage : Evidence.Storage) : Bool :=
  storage.archiveFinalization.any (fun finalization => finalization.failure.isSome) ||
    storage.completedAttempts.any fun attempt => !attempt.facts.succeeded

/-- `classify_terminal_outcome`. -/
def classifyTerminalOutcome (evidence : RunEvidence) : RunOutcome :=
  if unsafeWork evidence.storage then .failed
  else if evidence.storage.cancellationObserved then .cancelled
  else if evidence.cleanupFailures.any fun failure => failure.code = .safetyCleanupServiceFailed then .failed
  else if containedFailure evidence.storage || !evidence.cleanupFailures.isEmpty then .completedWithFailures
  else .succeeded

/-- `OptimizationRunResult`. -/
structure OptimizationRunResult where
  outcome : RunOutcome
  finalPhase : RunPhase
  evidence : RunEvidence
  deriving DecidableEq

/-- `seal`; evidence that cannot be consumed is a panic. -/
def sealResult (finalPhase : RunPhase) : Running V OptimizationRunResult := do
  mark .consumed
  match ← Prog.attempt (recording Evidence.consume) with
  | .ok evidence => return ⟨classifyTerminalOutcome evidence, finalPhase, evidence⟩
  | .error (.error e) => panicked e.text
  | .error (.panic message) => panicked message

/-! ## The run -/

/-- How a run ended: its result, or `RunEvidenceInvariantPanic` with it. -/
inductive Executed
  | returned (result : OptimizationRunResult)
  | invariantPanic (violation : String) (result : OptimizationRunResult)
  deriving DecidableEq

/-- The sealed result. -/
def Executed.result : Executed → OptimizationRunResult
  | returned result => result
  | invariantPanic _ result => result

/-- The traversal is contained once more. -/
def contain (seams : RunSeams V table) (x : Running V Bool) : Running V Bool := do
  match ← Prog.attempt x with
  | .ok backendCancelled => return backendCancelled
  | .error (.error e) => do
    failAtCurrentPhase seams ("The run's work escaped with a Run Worker panic: " ++ e.text)
    return false
  | .error (.panic message) => do
    failAtCurrentPhase seams ("The run's work escaped with a Run Worker panic: " ++ message)
    return false

/-- Safety Cleanup, and what the evidence retains of it. -/
def safetyCleanup (seams : RunSeams V table) (service : CleanupAnswer) (backendCancelled : Bool) : Running V Unit := do
  note (enter .safetyCleanup (Evidence.recordPhase seams.checks seams.sink (.executed .safetyCleanup none)))
  let failures ← performCleanup seams service
  Prog.forEach failures fun failure => note (recording (Evidence.recordSafetyCleanupFailure failure))
  let cancelled ← isCancelled seams
  if cancelled || backendCancelled then recording Evidence.recordCancellationObservation else return ()

/-- What becomes of the deferred violation. -/
def conclude (finalPhase : RunPhase) : Running V Executed := do
  let run ← Prog.get
  match run.invariant with
  | none => do
    let result ← sealResult finalPhase
    return .returned result
  | some violation => do
    recording (Evidence.retainFailure (.new .runWorkEscaped finalPhase violation))
    let result ← sealResult finalPhase
    return .invariantPanic violation result

/-- `execute_with_work`. -/
def executeWithWork (seams : RunSeams V table) (service : CleanupAnswer) (request : RunRequest)
    (work : Preparation → RunToolset → Running V (Flow Unit)) : Running V Executed := do
  let backendCancelled ← contain seams (traverse seams request work)
  recording (Evidence.publishDiagnostics seams.sink)
  let run ← Prog.get
  safetyCleanup seams service backendCancelled
  conclude (run.evidence.storage.currentPhase.getD .preparing)

variable [DecidableEq K]

/-- `execute`. -/
def execute (seams : RunSeams V table) (service : CleanupAnswer) (request : RunRequest) : Running V Executed :=
  executeWithWork seams service request (runWorkPhases seams request.archiveExtraction)

end Cao.Executor
