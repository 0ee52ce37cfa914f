import Cao.Word
import Cao.Finalize.Phase

/-!
# The lifecycle of a run

The vocabulary of Run Evidence: the phases of a run and their records (`run/lifecycle.rs`), the attempts a phase
makes, and the other facts a run retains.

* `RunPhase`: the phases, in canonical order;
* `RunProgress`, `RunPhaseRecord`: what a traversed phase accounts for; only an executed one has progress;
* `PhaseAttempt`: an attempt of any kind, with its phase and its invariants' messages.
-/

namespace Cao.Evidence

open Finalize Pack

/-! ## Phases -/

/-- `RunPhase`. -/
inductive RunPhase
  | preparing
  | discoveringArchives
  | extractingArchives
  | buildingEffectiveAssetTree
  | processingAssets
  | archiveFinalization
  | safetyCleanup
  deriving Repr

/-- The place of a phase in `RunPhase::SEQUENCE`. -/
def RunPhase.place : RunPhase → Nat
  | .preparing => 0
  | .discoveringArchives => 1
  | .extractingArchives => 2
  | .buildingEffectiveAssetTree => 3
  | .processingAssets => 4
  | .archiveFinalization => 5
  | .safetyCleanup => 6

theorem RunPhase.place_injective : Function.Injective RunPhase.place := by
  intro phase phase' h
  cases phase <;> cases phase' <;> first | rfl | simp [RunPhase.place] at h

/-- Phases follow their canonical order. -/
instance : LinearOrder RunPhase := LinearOrder.lift' RunPhase.place RunPhase.place_injective

/-- `RunPhaseStatus`. -/
inductive RunPhaseStatus
  | executed
  | skipped
  | planned
  deriving DecidableEq, Repr

/-- `PhaseSkipReason`. -/
inductive PhaseSkipReason
  | noRequestedWork
  deriving DecidableEq, Repr

/-- `a + b`, of a `usize`. -/
def addUsize (checks : OverflowChecks) (a b : UInt64) : Except (Thrown String) UInt64 :=
  if checks = .on ∧ u64Size ≤ a.toNat + b.toNat then .error (.panic "attempt to add with overflow")
  else .ok (a + b)

/-- `RunProgress`. -/
structure RunProgress where
  total : UInt64
  succeeded : UInt64
  failed : UInt64
  deriving DecidableEq, Repr

/-- `RunProgress::completed`. -/
def RunProgress.completed (checks : OverflowChecks) (progress : RunProgress) : Except (Thrown String) UInt64 :=
  addUsize checks progress.succeeded progress.failed

/-- `RunPhaseRecord`: an executed phase, the reason of a skip, or a planned phase. -/
inductive RunPhaseRecord
  | executed (phase : RunPhase) (progress : Option RunProgress)
  | skipped (phase : RunPhase) (reason : PhaseSkipReason)
  | planned (phase : RunPhase)
  deriving DecidableEq, Repr

namespace RunPhaseRecord

/-- `RunPhaseRecord::phase`. -/
def phase : RunPhaseRecord → RunPhase
  | executed phase _ => phase
  | skipped phase _ => phase
  | planned phase => phase

/-- `RunPhaseRecord::status`. -/
def status : RunPhaseRecord → RunPhaseStatus
  | executed .. => .executed
  | skipped .. => .skipped
  | planned _ => .planned

/-- `RunPhaseRecord::skip_reason`. -/
def skipReason : RunPhaseRecord → Option PhaseSkipReason
  | skipped _ reason => some reason
  | _ => none

/-- `RunPhaseRecord::progress`. -/
def progress : RunPhaseRecord → Option RunProgress
  | executed _ progress => progress
  | _ => none

end RunPhaseRecord

/-! ## Diagnostics and failures -/

/-- `RunDiagnosticCode`. -/
inductive RunDiagnosticCode
  | observerFailed
  | dispatcherFailed
  | ignoredModExcluded
  | separatorModExcluded
  | linkedEntryExcluded
  | pluginUnreadable
  | capacityShortage
  deriving DecidableEq, Repr

/-- `RunDiagnostic`. -/
structure RunDiagnostic where
  code : RunDiagnosticCode
  phase : RunPhase
  detail : String
  path : Path
  capacityShortage : Option CapacityShortage
  deriving DecidableEq, Repr

/-- `RunDiagnostic::new`. -/
def RunDiagnostic.new (code : RunDiagnosticCode) (phase : RunPhase) (detail : String) : RunDiagnostic :=
  ⟨code, phase, detail, [], none⟩

/-- `RunFailureCode`. -/
inductive RunFailureCode
  | schedulingFailed
  | policyConflict
  | configurationLoadingFailed
  | modSelectionResolutionFailed
  | conflictingModRoots
  | temporaryArtifactCleanupFailed
  | safetyCleanupServiceFailed
  | stagingOwnershipUnverified
  | stagingActive
  | stagingRecoveryFailed
  | archiveOrderMissing
  | archiveOrderExtra
  | archiveOrderDuplicate
  | archiveOrderOutsideRoot
  | archiveUnreadable
  | archiveEntryInvalid
  | archiveInsufficientCapacity
  | archiveCreationPlanningFailed
  | runWorkEscaped
  deriving DecidableEq, Repr

/-- `RunFailure`. -/
structure RunFailure where
  code : RunFailureCode
  phase : RunPhase
  detail : String
  path : Path
  capacityShortage : Option CapacityShortage
  deriving DecidableEq, Repr

/-! ## Routing -/

/-- `SkipReason`. -/
inductive SkipReason
  | disabledAssetKind
  | excludedAssetVariant
  deriving DecidableEq, Repr

/-- `OptimizerTarget`. -/
inductive OptimizerTarget
  | texture
  | mesh
  | animation
  | archive
  deriving DecidableEq, Repr

/-- `RoutedAsset`. -/
structure RoutedAsset where
  executionPath : Path
  target : OptimizerTarget
  deriving DecidableEq, Repr

/-- `RoutingLedger`; the number of its Routed Assets is a `usize`. -/
structure RoutingLedger where
  routedAssets : List RoutedAsset
  skippedAssetCounts : List (SkipReason × UInt64)
  fits : routedAssets.length < u64Size
  deriving DecidableEq

/-- `ArchiveDiscoveryEvidence`. -/
structure ArchiveDiscoveryEvidence where
  skippedArchiveCounts : List (SkipReason × UInt64)
  unsupportedExplicitPaths : List Path
  nestedArchiveCount : UInt64
  deriving DecidableEq, Repr

/-- `ArchiveDiscoveryEvidence::default()`. -/
def ArchiveDiscoveryEvidence.default : ArchiveDiscoveryEvidence := ⟨[], [], 0⟩

/-! ## Attempts -/

/-- `AssetExecutionFailure`. -/
inductive AssetExecutionFailure
  | unsupportedTarget
  | identityMismatch
  | loadFailed
  | operationFailed
  | saveFailed
  | sourceRemovalFailed
  | stagingFailed
  | commitFailed
  | backendException
  | cleanupFailed
  deriving DecidableEq, Repr

/-- `AssetExecutionResult`; no constructor or builder adds a cleanup failure. -/
structure AssetExecutionResult where
  outcome : AttemptOutcome AssetExecutionFailure
  cleanupFailures : List RunFailure
  clean : cleanupFailures = []
  deriving DecidableEq, Repr

/-- `RoutedAssetAttempt`. -/
structure RoutedAssetAttempt where
  modRoot : Path
  asset : RoutedAsset
  result : AssetExecutionResult
  deriving DecidableEq, Repr

/-- `ArchiveFinalizationResult`. -/
structure ArchiveFinalizationResult extends ArchiveFinalizationAccount where
  attempts : List ArchiveFinalizationAttempt
  deriving DecidableEq, Repr

/-- `ArchiveFinalizationResult::from_parts`. -/
def ArchiveFinalizationResult.fromParts (attempts : List ArchiveFinalizationAttempt)
    (account : ArchiveFinalizationAccount) : ArchiveFinalizationResult := ⟨account, attempts⟩

/-- `ArchiveFinalizationResult::default()`. -/
def ArchiveFinalizationResult.default : ArchiveFinalizationResult := .fromParts [] .default

/-- An attempt of one of the kinds that implement `PhaseAttempt`. -/
inductive PhaseAttempt
  | extraction (attempt : ArchiveExtractionResult)
  | asset (attempt : RoutedAssetAttempt)
  | finalization (attempt : ArchiveFinalizationAttempt)
  deriving DecidableEq, Repr

namespace PhaseAttempt

/-- `PhaseAttempt::PHASE`. -/
def phase : PhaseAttempt → RunPhase
  | extraction _ => .extractingArchives
  | asset _ => .processingAssets
  | finalization _ => .archiveFinalization

/-- `PhaseAttempt::OUTSIDE_PHASE`. -/
def outsidePhase : PhaseAttempt → String
  | extraction _ => "Archive extraction attempts must be recorded during Extracting Archives"
  | asset _ => "Asset attempts must be recorded during Processing Assets"
  | finalization _ => "Archive Finalization attempts require the immutable executed plan"

/-- `PhaseAttempt::BEFORE_PLAN`. -/
def beforePlan : PhaseAttempt → String
  | extraction _ => "Archive extraction attempts require a planned total"
  | asset _ => "Asset attempts require a planned routed-work total"
  | finalization _ => "Archive Finalization attempts require the immutable executed plan"

/-- `PhaseAttempt::BEYOND_TOTAL`. -/
def beyondTotal : PhaseAttempt → String
  | extraction _ => "Archive extraction attempts cannot exceed the planned total"
  | asset _ => "Asset attempts cannot exceed the routed-work total"
  | finalization _ => "Archive Finalization attempts cannot exceed the planned total"

/-- `PhaseAttempt::succeeded`. -/
def succeeded : PhaseAttempt → Bool
  | extraction attempt => attempt.outcome.isSuccess
  | asset attempt => attempt.result.outcome.isSuccess
  | finalization attempt => attempt.outcome.isSuccess

end PhaseAttempt

/-- `ATTEMPT_BEARING_PHASES`. -/
def attemptBearingPhases : List RunPhase := [.extractingArchives, .processingAssets, .archiveFinalization]

/-- `PLANNABLE_PHASES`. -/
def plannablePhases : List RunPhase := [.extractingArchives, .archiveFinalization]

/-! ## Planned work -/

/-- `PlannedArchiveExtraction`. -/
structure PlannedArchiveExtraction where
  archivePath : Path
  modRoot : Path
  entryCount : Nat
  winnerCount : Nat
  estimatedCapacityBytes : Nat
  deletesSourceArchive : Bool
  deriving DecidableEq, Repr

/-- `PlannedOutputArchive`. -/
structure PlannedOutputArchive where
  archivePath : Path
  modRoot : Path
  kind : ArchiveType
  fileCount : Nat
  totalBytes : Nat
  dummyPluginPath : Option Path
  deletesPackedSources : Bool
  deriving DecidableEq, Repr

/-- `OutputPlanBasis`. -/
inductive OutputPlanBasis
  | estimateFromModRootsAsTheyAre
  deriving DecidableEq, Repr

/-- `PlannedArchiveWork`. -/
structure PlannedArchiveWork where
  extractions : List PlannedArchiveExtraction
  outputs : List PlannedOutputArchive
  outputBasis : Option OutputPlanBasis
  deriving DecidableEq, Repr

/-- `PlannedArchiveWork::default()`. -/
def PlannedArchiveWork.default : PlannedArchiveWork := ⟨[], [], none⟩

end Cao.Evidence
