import Cao.Evidence.Lifecycle

/-!
# The store of a run's facts

`run/evidence.rs` and `run/evidence/attempt_phase.rs`: `MutableRunEvidence`, the sole owner of the facts of a run
while it executes, and every operation on it. An operation checks its invariants, retains its fact and publishes it;
a violation is an error.

* `Storage`, `MutableRunEvidence`: what is retained, and what was published;
* `acceptPhase`, `recordPhase`, `openAttemptPhase`: phase transitions;
* `recordAttemptProgress`, `planArchiveFinalization`, `finishArchiveFinalization`: the attempts of a phase;
* `Operation`, `perform`: every operation, in one type.
-/

namespace Cao.Evidence

open Finalize Pack

/-- `Storage`, but for what is derived when it is sealed. -/
structure Storage where
  preparation : Option RunPreparation
  phases : List RunPhaseRecord
  diagnostics : List RunDiagnostic
  failures : List RunFailure
  archiveCollisions : List ArchiveCollision
  archiveCollisionsRecorded : Bool
  archiveExtractionAttempts : List ArchiveExtractionResult
  archiveDiscovery : Option ArchiveDiscoveryEvidence
  skippedArchiveCountsRecorded : Bool
  nestedArchiveCountRecorded : Bool
  routingLedger : Option RoutingLedger
  assetAttempts : List RoutedAssetAttempt
  archiveFinalization : Option ArchiveFinalizationResult
  archiveFinalizationCompleted : Bool
  plannedArchiveWork : PlannedArchiveWork
  safetyCleanupFailures : List RunFailure
  cancellationObserved : Bool
  deriving DecidableEq

namespace Storage

/-- `Storage::default()`. -/
def default : Storage where
  preparation := none
  phases := []
  diagnostics := []
  failures := []
  archiveCollisions := []
  archiveCollisionsRecorded := false
  archiveExtractionAttempts := []
  archiveDiscovery := none
  skippedArchiveCountsRecorded := false
  nestedArchiveCountRecorded := false
  routingLedger := none
  assetAttempts := []
  archiveFinalization := none
  archiveFinalizationCompleted := false
  plannedArchiveWork := .default
  safetyCleanupFailures := []
  cancellationObserved := false

/-- `Storage::phase`. -/
def phase (storage : Storage) (phase : RunPhase) : Option RunPhaseRecord :=
  storage.phases.find? fun record => record.phase = phase

/-- `Storage::current_phase`. -/
def currentPhase (storage : Storage) : Option RunPhase := storage.phases.getLast?.map RunPhaseRecord.phase

/-- Whether a phase is current, with a status. -/
def isCurrently (storage : Storage) (phase : RunPhase) (status : RunPhaseStatus) : Bool :=
  storage.phases.getLast?.any fun record => record.phase = phase ∧ record.status = status

/-- `Storage::is_planning`. -/
def isPlanning (storage : Storage) (phase : RunPhase) : Bool := storage.isCurrently phase .planned

/-- `Storage::archive_discovery_current`. -/
def archiveDiscoveryCurrent (storage : Storage) : Bool :=
  storage.currentPhase.any fun phase =>
    RunPhase.discoveringArchives ≤ phase ∧ phase ≤ RunPhase.buildingEffectiveAssetTree

/-- `Storage::archive_discovery_complete`. -/
def archiveDiscoveryComplete (storage : Storage) : Bool :=
  storage.skippedArchiveCountsRecorded && storage.nestedArchiveCountRecorded

/-- `archive_discovery.get_or_insert_default()`. -/
def discovery (storage : Storage) : ArchiveDiscoveryEvidence := storage.archiveDiscovery.getD .default

end Storage

/-- `PhaseAttempt::retain`. -/
def PhaseAttempt.retain (storage : Storage) : PhaseAttempt → Storage
  | extraction attempt =>
    { storage with archiveExtractionAttempts := storage.archiveExtractionAttempts ++ [attempt] }
  | asset attempt => { storage with assetAttempts := storage.assetAttempts ++ [attempt] }
  | finalization attempt =>
    let result := storage.archiveFinalization.getD .default
    { storage with archiveFinalization := some { result with attempts := result.attempts ++ [attempt] } }

/-- A fact the sink is offered. -/
inductive Publication
  | phase (record : RunPhaseRecord)
  | failure (failure : RunFailure)
  | diagnostic (diagnostic : RunDiagnostic)
  deriving DecidableEq, Repr

/-- `RunObservationSink`: what a sink makes of a fact, given those offered before it; it may panic, with a message. -/
abbrev RunObservationSink := List Publication → Publication → Option String

/-- `MutableRunEvidence`, and what its sink was offered. -/
structure MutableRunEvidence where
  storage : Storage
  publishedDiagnostics : Nat
  diagnosticPublications : List Nat
  offered : List Publication
  deriving DecidableEq

/-- `MutableRunEvidence::new`. -/
def MutableRunEvidence.new : MutableRunEvidence := ⟨.default, 0, [], []⟩

/-- An operation on the evidence of a run. -/
abbrev Recording := Prog MutableRunEvidence (Thrown String)

/-- `Error::EvidenceInvariant`. -/
def violation {α : Type} (message : String) : Recording α := Prog.fail (.error message)

/-- An invariant that an operation checks. -/
def require (holds : Bool) (message : String) : Recording Unit := if holds then return () else violation message

/-- What is retained. -/
def getStorage : Recording Storage := fun evidence => (.done evidence.storage, evidence)

/-- A fact is retained. -/
def retain (f : Storage → Storage) : Recording Unit :=
  Prog.modify fun evidence => { evidence with storage := f evidence.storage }

/-! ## Publication -/

/-- `retain_observer_failure`. -/
def retainObserverFailure (phase : RunPhase) (detail : String) : Recording Unit :=
  retain fun storage => { storage with diagnostics := storage.diagnostics ++ [.new .observerFailed phase detail] }

/-- `report_safely`, of a callback that returns, or panics with a message. -/
def reportSafely (phase : RunPhase) (panicked : Option String) : Recording Unit :=
  match panicked with
  | none => return ()
  | some detail => retainObserverFailure phase detail

/-- A fact is offered to the sink, if there is one. -/
def publish (sink : Option RunObservationSink) (phase : RunPhase) (publication : Publication) : Recording Unit :=
  match sink with
  | none => return ()
  | some sink => do
    let evidence ← Prog.get
    Prog.modify fun evidence => { evidence with offered := evidence.offered ++ [publication] }
    reportSafely phase (sink evidence.offered publication)

/-- `retain_diagnostic`. -/
def retainDiagnostic (diagnostic : RunDiagnostic) : Recording Unit :=
  Prog.modify fun evidence =>
    { evidence with
      storage := { evidence.storage with diagnostics := evidence.storage.diagnostics ++ [diagnostic] }
      diagnosticPublications := evidence.diagnosticPublications ++ [evidence.storage.diagnostics.length] }

/-- One diagnostic's publication, claimed before the sink is called. -/
def publishDiagnostic (sink : Option RunObservationSink) (index : Nat) : Recording Unit := do
  Prog.modify fun evidence => { evidence with publishedDiagnostics := evidence.publishedDiagnostics + 1 }
  let storage ← getStorage
  match storage.diagnostics[index]? with
  | none => Prog.fail (.panic "index out of bounds")
  | some diagnostic => publish sink diagnostic.phase (.diagnostic diagnostic)

/-- `publish_diagnostics`: no publication adds to those that are due. -/
def publishDiagnostics (sink : Option RunObservationSink) : Recording Unit := do
  let evidence ← Prog.get
  Prog.forEach (evidence.diagnosticPublications.drop evidence.publishedDiagnostics) (publishDiagnostic sink)

/-- `record_diagnostic`. -/
def recordDiagnostic (sink : Option RunObservationSink) (diagnostic : RunDiagnostic) : Recording Unit := do
  retainDiagnostic diagnostic
  publishDiagnostics sink

/-- `retain_failure`. -/
def retainFailure (failure : RunFailure) : Recording Unit :=
  retain fun storage => { storage with failures := storage.failures ++ [failure] }

/-- `record_failure`. -/
def recordFailure (sink : Option RunObservationSink) (failure : RunFailure) : Recording Unit := do
  retainFailure failure
  publish sink failure.phase (.failure failure)

/-! ## Phases -/

/-- `validate_progress`. -/
def validateProgress (checks : OverflowChecks) (record : RunPhaseRecord) : Except (Thrown String) Unit :=
  match record.progress with
  | none => .ok ()
  | some progress =>
    match progress.completed checks with
    | .error e => .error e
    | .ok completed =>
      if progress.total < completed then .error (.error "Run Phase progress exceeds its immutable total") else .ok ()

/-- Progress that a phase enters with begins at zero. -/
def beginsAtZero (checks : OverflowChecks) (record : RunPhaseRecord) : Except (Thrown String) Unit :=
  match record.progress with
  | none => .ok ()
  | some progress =>
    match progress.completed checks with
    | .error e => .error e
    | .ok completed =>
      if completed ≠ 0 then .error (.error "Determinate Run Phase progress must begin at zero") else .ok ()

/-- The progress of a replacement neither changes its total nor regresses. -/
def validateSuccessor (before : RunProgress) (replacement : RunPhaseRecord) : Except (Thrown String) Unit :=
  match replacement.progress with
  | none => .error (.error "Run Phase progress cannot become indeterminate")
  | some after =>
    if before.total ≠ after.total then .error (.error "Run Phase progress total cannot change")
    else if after.succeeded < before.succeeded ∨ after.failed < before.failed then
      .error (.error "Run Phase progress cannot regress")
    else .ok ()

/-- `validate_replacement`. -/
def validateReplacement (checks : OverflowChecks) (previous replacement : RunPhaseRecord) :
    Except (Thrown String) Unit :=
  if previous.status ≠ replacement.status ∨ previous.skipReason ≠ replacement.skipReason then
    .error (.error "Run Phase status and skip reason are immutable after traversal")
  else
    match validateProgress checks replacement with
    | .error e => .error e
    | .ok () =>
      match previous.progress with
      | none => beginsAtZero checks replacement
      | some before => validateSuccessor before replacement

/-- What the phases become once a record is accepted. -/
def traverse (checks : OverflowChecks) (phases : List RunPhaseRecord) (record : RunPhaseRecord) :
    Except (Thrown String) (List RunPhaseRecord) :=
  match phases.getLast? with
  | none =>
    if record.phase ≠ .preparing ∧ record.phase ≠ .safetyCleanup then
      .error (.error "Run Phase traversal must begin at Preparing")
    else
      match beginsAtZero checks record with
      | .error e => .error e
      | .ok () => .ok [record]
  | some latest =>
    if latest.phase = record.phase then
      match validateReplacement checks latest record with
      | .error e => .error e
      | .ok () => .ok (phases.dropLast ++ [record])
    else if record.phase ≤ latest.phase then .error (.error "Run Phases must follow canonical traversal order")
    else
      match beginsAtZero checks record with
      | .error e => .error e
      | .ok () => .ok (phases ++ [record])

/-- `accept_phase`. -/
def acceptPhase (checks : OverflowChecks) (sink : Option RunObservationSink) (record : RunPhaseRecord) :
    Recording Unit := do
  Prog.ofExcept (validateProgress checks record)
  let storage ← getStorage
  let phases ← Prog.ofExcept (traverse checks storage.phases record)
  retain fun storage => { storage with phases }
  publish sink record.phase (.phase record)

/-- `record_phase`. -/
def recordPhase (checks : OverflowChecks) (sink : Option RunObservationSink) (record : RunPhaseRecord) :
    Recording Unit := do
  require (record.status ≠ .executed ∨ record.phase ∉ attemptBearingPhases)
    "An attempt-bearing Run Phase can only be executed through its attempt-phase handle"
  require (record.status ≠ .planned ∨ record.phase ∈ plannablePhases)
    "Only Extracting Archives and Archive Finalization can be planned"
  acceptPhase checks sink record

/-- `open_attempt_phase`. -/
def openAttemptPhase (checks : OverflowChecks) (sink : Option RunObservationSink) (record : RunPhaseRecord) :
    Recording Unit := do
  let storage ← getStorage
  require (storage.phase record.phase).isNone "An attempt-bearing Run Phase can only be opened once"
  acceptPhase checks sink record

/-- `record_preparation`. -/
def recordPreparation (preparation : RunPreparation) : Recording Unit := do
  let storage ← getStorage
  require storage.preparation.isNone "Successful Run preparation can only be recorded once"
  require (storage.currentPhase = some .preparing) "Successful Run preparation must be recorded during Preparing"
  retain fun storage => { storage with preparation := some preparation }

/-! ## The attempts of a phase -/

/-- `open_archive_extraction`. -/
def openArchiveExtraction (checks : OverflowChecks) (sink : Option RunObservationSink) (total : UInt64) :
    Recording Unit :=
  openAttemptPhase checks sink (.executed .extractingArchives (some ⟨total, 0, 0⟩))

/-- `open_archive_finalization`. -/
def openArchiveFinalization (checks : OverflowChecks) (sink : Option RunObservationSink) : Recording Unit :=
  openAttemptPhase checks sink (.executed .archiveFinalization none)

/-- `open_processing_assets`. -/
def openProcessingAssets (checks : OverflowChecks) (sink : Option RunObservationSink) (ledger : RoutingLedger) :
    Recording Unit := do
  let storage ← getStorage
  require (storage.currentPhase = some .buildingEffectiveAssetTree ∧ storage.archiveDiscoveryComplete ∧
    storage.failures.isEmpty) "Routing Ledger requires completed, successful Effective Asset Tree discovery"
  require storage.routingLedger.isNone "Definitive routing can only be recorded once"
  retain fun storage => { storage with routingLedger := some ledger }
  openAttemptPhase checks sink
    (.executed .processingAssets (some ⟨.ofNatLT ledger.routedAssets.length ledger.fits, 0, 0⟩))

/-- `plan_archive_finalization`. -/
def planArchiveFinalization (checks : OverflowChecks) (sink : Option RunObservationSink) (total : UInt64) :
    Recording Unit := do
  let storage ← getStorage
  require (!storage.archiveFinalizationCompleted && storage.isCurrently .archiveFinalization .executed &&
    storage.phases.getLast?.all fun record => record.progress.isNone)
    "Archive Finalization needs an executed phase and one immutable plan"
  retain fun storage => { storage with archiveFinalization := some .default }
  acceptPhase checks sink (.executed .archiveFinalization (some ⟨total, 0, 0⟩))

/-- `finish_archive_finalization`. -/
def finishArchiveFinalization (account : ArchiveFinalizationAccount) : Recording Unit := do
  let storage ← getStorage
  require (!storage.archiveFinalizationCompleted && storage.isCurrently .archiveFinalization .executed)
    "Archive Finalization results require the executed work phase exactly once"
  retain fun storage =>
    let attempts := (storage.archiveFinalization.map ArchiveFinalizationResult.attempts).getD []
    { storage with
      archiveFinalization := some (.fromParts attempts account)
      cancellationObserved := storage.cancellationObserved || account.cancelled
      archiveFinalizationCompleted := true }

/-- Progress advanced by one attempt. -/
def RunProgress.advanced (checks : OverflowChecks) (progress : RunProgress) (succeeded : Bool) :
    Except (Thrown String) RunProgress := do
  let succeededCount ← addUsize checks progress.succeeded (if succeeded then 1 else 0)
  let failedCount ← addUsize checks progress.failed (if succeeded then 0 else 1)
  return ⟨progress.total, succeededCount, failedCount⟩

/-- The progress an attempt is counted in, of the current phase. -/
def currentProgress (storage : Storage) (attempt : PhaseAttempt) : Except (Thrown String) RunProgress :=
  match storage.phases.getLast? with
  | none => .error (.error attempt.outsidePhase)
  | some current =>
    if current.phase ≠ attempt.phase ∨ current.status ≠ .executed then .error (.error attempt.outsidePhase)
    else
      match current.progress with
      | none => .error (.error attempt.beforePlan)
      | some progress => .ok progress

/-- `record_attempt_progress`. -/
def recordAttemptProgress (checks : OverflowChecks) (sink : Option RunObservationSink) (attempt : PhaseAttempt) :
    Recording Unit := do
  let storage ← getStorage
  let progress ← Prog.ofExcept (currentProgress storage attempt)
  let completed ← Prog.ofExcept (progress.completed checks)
  require (completed < progress.total) attempt.beyondTotal
  retain attempt.retain
  let advanced ← Prog.ofExcept (progress.advanced checks attempt.succeeded)
  acceptPhase checks sink (.executed attempt.phase (some advanced))

/-! ## Facts of single phases -/

/-- `record_archive_collisions`. -/
def recordArchiveCollisions (collisions : List ArchiveCollision) : Recording Unit := do
  let storage ← getStorage
  require (storage.currentPhase = some .discoveringArchives)
    "Archive Collisions must be recorded during Discovering Archives"
  require (!storage.archiveCollisionsRecorded) "Archive Collisions can only be recorded once"
  retain fun storage => { storage with archiveCollisions := collisions, archiveCollisionsRecorded := true }

/-- `record_skipped_archive_counts`. -/
def recordSkippedArchiveCounts (counts : List (SkipReason × UInt64)) : Recording Unit := do
  let storage ← getStorage
  require storage.archiveDiscoveryCurrent "Skipped Archive counts must be recorded during Archive discovery"
  require (!storage.skippedArchiveCountsRecorded) "Skipped Archive counts can only be recorded once"
  retain fun storage =>
    { storage with
      skippedArchiveCountsRecorded := true
      archiveDiscovery := some { storage.discovery with skippedArchiveCounts := counts } }

/-- `record_nested_archive_count`. -/
def recordNestedArchiveCount (count : UInt64) : Recording Unit := do
  let storage ← getStorage
  require storage.archiveDiscoveryCurrent "The nested Archive count must be recorded during Archive discovery"
  require (!storage.nestedArchiveCountRecorded) "The nested Archive count can only be recorded once"
  retain fun storage =>
    { storage with
      nestedArchiveCountRecorded := true
      archiveDiscovery := some { storage.discovery with nestedArchiveCount := count } }

/-- A change of the planned Archive work. -/
def retainPlanned (f : PlannedArchiveWork → PlannedArchiveWork) : Recording Unit :=
  retain fun storage => { storage with plannedArchiveWork := f storage.plannedArchiveWork }

/-- `record_planned_extraction`. -/
def recordPlannedExtraction (extraction : PlannedArchiveExtraction) : Recording Unit := do
  let storage ← getStorage
  require (storage.isPlanning .extractingArchives)
    "Planned Archive extractions must be recorded during a Planned Extracting Archives"
  retainPlanned fun work => { work with extractions := work.extractions ++ [extraction] }

/-- `record_output_plan_basis`. -/
def recordOutputPlanBasis (basis : OutputPlanBasis) : Recording Unit := do
  let storage ← getStorage
  require (storage.isPlanning .archiveFinalization)
    "An output plan basis must be recorded during a Planned Archive Finalization"
  require storage.plannedArchiveWork.outputBasis.isNone "An output plan basis can only be recorded once"
  retainPlanned fun work => { work with outputBasis := some basis }

/-- `record_planned_output`. -/
def recordPlannedOutput (output : PlannedOutputArchive) : Recording Unit := do
  let storage ← getStorage
  require (storage.isPlanning .archiveFinalization)
    "Planned output Archives must be recorded during a Planned Archive Finalization"
  require storage.plannedArchiveWork.outputBasis.isSome
    "Planned output Archives must follow the basis they were planned from"
  retainPlanned fun work => { work with outputs := work.outputs ++ [output] }

/-- `record_safety_cleanup_failure`. -/
def recordSafetyCleanupFailure (failure : RunFailure) : Recording Unit := do
  let storage ← getStorage
  require (storage.currentPhase = some .safetyCleanup ∧ failure.phase = .safetyCleanup ∧
    (failure.code = .temporaryArtifactCleanupFailed ∨ failure.code = .safetyCleanupServiceFailed))
    "Safety Cleanup failures require the cleanup phase and a cleanup failure code"
  retain fun storage => { storage with safetyCleanupFailures := storage.safetyCleanupFailures ++ [failure] }

/-- `record_cancellation_observation`. -/
def recordCancellationObservation : Recording Unit := retain fun storage => { storage with cancellationObserved := true }

/-! ## Operations -/

/-- An operation on the evidence, with its arguments. -/
inductive Operation
  | recordPreparation (preparation : RunPreparation)
  | recordPhase (record : RunPhaseRecord)
  | recordDiagnostic (diagnostic : RunDiagnostic)
  | retainDiagnostic (diagnostic : RunDiagnostic)
  | publishDiagnostics
  | recordFailure (failure : RunFailure)
  | retainFailure (failure : RunFailure)
  | openArchiveExtraction (total : UInt64)
  | openArchiveFinalization
  | openProcessingAssets (ledger : RoutingLedger)
  | planArchiveFinalization (total : UInt64)
  | finishArchiveFinalization (account : ArchiveFinalizationAccount)
  | recordAttempt (attempt : PhaseAttempt)
  | recordArchiveCollisions (collisions : List ArchiveCollision)
  | recordSkippedArchiveCounts (counts : List (SkipReason × UInt64))
  | recordNestedArchiveCount (count : UInt64)
  | recordPlannedExtraction (extraction : PlannedArchiveExtraction)
  | recordOutputPlanBasis (basis : OutputPlanBasis)
  | recordPlannedOutput (output : PlannedOutputArchive)
  | recordSafetyCleanupFailure (failure : RunFailure)
  | recordCancellationObservation
  | reportSafely (phase : RunPhase) (panicked : Option String)

/-- What an operation does. -/
def Operation.run (checks : OverflowChecks) (sink : Option RunObservationSink) : Operation → Recording Unit
  | recordPreparation preparation => Evidence.recordPreparation preparation
  | recordPhase record => Evidence.recordPhase checks sink record
  | recordDiagnostic diagnostic => Evidence.recordDiagnostic sink diagnostic
  | retainDiagnostic diagnostic => Evidence.retainDiagnostic diagnostic
  | publishDiagnostics => Evidence.publishDiagnostics sink
  | recordFailure failure => Evidence.recordFailure sink failure
  | retainFailure failure => Evidence.retainFailure failure
  | openArchiveExtraction total => Evidence.openArchiveExtraction checks sink total
  | openArchiveFinalization => Evidence.openArchiveFinalization checks sink
  | openProcessingAssets ledger => Evidence.openProcessingAssets checks sink ledger
  | planArchiveFinalization total => Evidence.planArchiveFinalization checks sink total
  | finishArchiveFinalization account => Evidence.finishArchiveFinalization account
  | recordAttempt attempt => Evidence.recordAttemptProgress checks sink attempt
  | recordArchiveCollisions collisions => Evidence.recordArchiveCollisions collisions
  | recordSkippedArchiveCounts counts => Evidence.recordSkippedArchiveCounts counts
  | recordNestedArchiveCount count => Evidence.recordNestedArchiveCount count
  | recordPlannedExtraction extraction => Evidence.recordPlannedExtraction extraction
  | recordOutputPlanBasis basis => Evidence.recordOutputPlanBasis basis
  | recordPlannedOutput output => Evidence.recordPlannedOutput output
  | recordSafetyCleanupFailure failure => Evidence.recordSafetyCleanupFailure failure
  | recordCancellationObservation => Evidence.recordCancellationObservation
  | reportSafely phase panicked => Evidence.reportSafely phase panicked

/-- What an operation leaves, whether it is accepted or not. -/
def perform (checks : OverflowChecks) (sink : Option RunObservationSink) (operation : Operation)
    (evidence evidence' : MutableRunEvidence) : Prop := evidence' = (operation.run checks sink evidence).2

end Cao.Evidence
