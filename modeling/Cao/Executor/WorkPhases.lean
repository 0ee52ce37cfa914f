import Cao.Executor.Finalization

/-!
# The work phases

`run/executor/work_phases.rs`: Archive-first discovery, extraction, definitive routing, Asset attempts and Archive
Finalization, each phase a step of the run that hands on what the next needs, or stops.

* `visitRoots`, `discoverArchives`: the Archive pass and the preflight;
* `extractArchives`, `planArchiveExtractions`: extraction, or in a Dry Run its plan;
* `buildEffectiveAssetTree`, `processAssets`: routing, and the attempts in their order;
* `finalize`, `planArchiveFinalization`: Archive Finalization, or in a Dry Run its plan;
* `runWorkPhases`: all of them.
-/

namespace Cao.Executor

open Routing Capacity Asset
open Evidence (RunPhase RunPhaseRecord RunDiagnostic SkipReason PlannedArchiveExtraction PlannedOutputArchive
  RoutedAssetAttempt)

variable {K : Type} {V : Volume K} {table : UpcaseTable} {ε : Type}

/-! ## Discovery -/

/-- `record_capacity_warning`, or nothing to record. -/
def recordCapacityWarning (seams : RunSeams V table) (warning : Option RunDiagnostic) : Running V Unit :=
  match warning with
  | some warning => recording (Evidence.recordDiagnostic seams.sink warning)
  | none => return ()

/-- `Discovery::exclude`: a linked entry is diagnosed once. -/
def exclude (phase : RunPhase) (diagnosed : List Path) (excluded : Path × String) : Running V (List Path) :=
  if excluded.1 ∈ diagnosed then return diagnosed
  else do
    recording (Evidence.retainDiagnostic
      { RunDiagnostic.new .linkedEntryExcluded phase excluded.2 with path := excluded.1 })
    return excluded.1 :: diagnosed

/-- `Discovery::visit` of each Mod Root, up to the first that cancellation cut short. -/
def visitRoots (seams : RunSeams V table) (phase : RunPhase) :
    List Path → List Path → Running V (List Walk × List Path)
  | [], diagnosed => return ([], diagnosed)
  | root :: roots, diagnosed => do
    let visit ← call fun n => seams.visit n root
    let diagnosed ← Prog.foldEach (exclude phase) diagnosed visit.excluded
    let walk : Walk := ⟨root, visit.files, visit.complete⟩
    if visit.complete then do
      let (walks, diagnosed) ← visitRoots seams phase roots diagnosed
      return (walk :: walks, diagnosed)
    else return ([walk], diagnosed)

/-- What is counted for each reason. -/
def countReasons (reasons : List SkipReason) : List (SkipReason × UInt64) :=
  [SkipReason.disabledAssetKind, .excludedAssetVariant].filterMap fun reason =>
    if reason ∈ reasons then some (reason, .ofNat (reasons.count reason)) else none

/-- What Archive discovery hands the later phases; `diagnosed` stays with the walker. -/
structure DiscoveredArchives where
  recognized : List Path
  plans : List ArchiveExtractionPlan
  diagnosed : List Path

/-- `discover_archives`. -/
def discoverArchives (seams : RunSeams V table) (preparation : Preparation) : Running V (Flow DiscoveredArchives) := do
  enter .discoveringArchives
    (Evidence.recordPhase seams.checks seams.sink (.executed .discoveringArchives none))
  let (walks, diagnosed) ← visitRoots seams .discoveringArchives preparation.facts.modRoots []
  let passed := archivePass seams.lowercase preparation.policy walks (⟨[], [], []⟩ : ArchivePass table)
  recording (Evidence.recordSkippedArchiveCounts (countReasons passed.1.skipped))
  if passed.2 then do
    match ← call fun n => seams.preflight n passed.1.roots with
    | .failed failure => do
      recording (Evidence.recordFailure seams.sink failure)
      return .stopped .halted
    | .cancelled => return .stopped .halted
    | .planned plans collisions capacityWarning => do
      recording (Evidence.recordArchiveCollisions collisions)
      recordCapacityWarning seams capacityWarning
      return .proceed ⟨passed.1.recognized, plans, diagnosed⟩
  else return .stopped .halted

/-! ## Extraction -/

/-- `PlannedArchiveExtraction`, of a plan. -/
def plannedExtraction (cleanup : SourceCleanup) (plan : ArchiveExtractionPlan) : PlannedArchiveExtraction where
  archivePath := plan.archivePath
  modRoot := plan.modRoot
  entryCount := plan.entries.length
  winnerCount := plan.mergeEntries.length
  estimatedCapacityBytes := plan.estimatedCapacityBytes
  deletesSourceArchive := cleanup = .remove

/-- Work goes on unless cancellation shows. -/
def unlessCancelledGoOn (seams : RunSeams V table) : Running V (Flow Unit) :=
  unlessCancelled seams (return .proceed ())

/-- `plan_archive_extractions`. -/
def planArchiveExtractions (seams : RunSeams V table) (cleanup : SourceCleanup) (plans : List ArchiveExtractionPlan) :
    Running V (Flow Unit) := do
  enter .extractingArchives (Evidence.recordPhase seams.checks seams.sink (.planned .extractingArchives))
  unlessCancelled seams do
    Prog.forEach plans fun plan => recording (Evidence.recordPlannedExtraction (plannedExtraction cleanup plan))
    unlessCancelledGoOn seams

/-- `RunToolset::extract_archive`. -/
def extractArchive (seams : RunSeams V table) (plan : ArchiveExtractionPlan) (cleanup : SourceCleanup) :
    Running V ArchiveExtractionResult := do
  let n ← mutating seams .extractArchive
  let attempt ← answered (seams.extractArchive n plan cleanup)
  return { attempt with modRoot := plan.modRoot }

/-- The loop of `extract_archives`. -/
def extractEach (seams : RunSeams V table) (cleanup : SourceCleanup) :
    List ArchiveExtractionPlan → Running V (Flow Unit)
  | [] => unlessCancelledGoOn seams
  | plan :: plans => unlessCancelled seams do
    let attempt ← extractArchive seams plan cleanup
    recordAttempt seams (.extraction attempt)
    if attempt.outcome.safeToContinue then extractEach seams cleanup plans else return .stopped .halted

/-- `extract_archives`. -/
def extractArchives (seams : RunSeams V table) (mode : ExecutionMode) (cleanup : SourceCleanup)
    (plans : List ArchiveExtractionPlan) : Running V (Flow Unit) :=
  unlessCancelled seams
    (if mode = .dryRun then planArchiveExtractions seams cleanup plans
    else do
      let total ← countOf plans
      enter .extractingArchives (Evidence.openArchiveExtraction seams.checks seams.sink total)
      unlessCancelled seams
        (if plans = [] then return .proceed () else extractEach seams cleanup plans))

/-! ## The Effective Asset Tree -/

/-- What the definitive pass makes of the walks: the paths to route, and the Archives that only extraction made. -/
def definitivePass (policy : RoutingPolicy) (recognized : List Path) (walks : List Walk) : List Path × List Path :=
  let found := walks.flatMap Walk.files
  (found.filter fun path => !namesAnArchive policy path,
    (found.filter fun path => namesAnArchive policy path && path ∉ recognized).dedup)

/-- `RoutingLedger`, as a `Vec` of Routed Assets can hold it. -/
abbrev RoutedLedger := { ledger : Routing.Ledger // ledger.routedAssets.length < u64Size }

/-- What Run Evidence retains of a ledger. -/
def RoutedLedger.fact (ledger : RoutedLedger) : Evidence.RoutingLedger where
  routedAssets := ledger.1.routedAssets.map RoutedAsset.fact
  skippedAssetCounts := countReasons ledger.1.skippedReasons
  fits := by simpa using ledger.2

/-- `AssetRouter::route_all`. -/
def routeEffective (policy : RoutingPolicy) (paths : List Path) : Running V RoutedLedger :=
  if h : (routeAll policy paths).routedAssets.length < u64Size then pure ⟨routeAll policy paths, h⟩
  else panicked "capacity overflow"

/-- `build_effective_asset_tree`. -/
def buildEffectiveAssetTree (seams : RunSeams V table) (preparation : Preparation) (archives : DiscoveredArchives) :
    Running V (Flow RoutedLedger) := do
  enter .buildingEffectiveAssetTree
    (Evidence.recordPhase seams.checks seams.sink (.executed .buildingEffectiveAssetTree none))
  unlessCancelled seams do
    let (walks, _) ← visitRoots seams .buildingEffectiveAssetTree preparation.facts.modRoots archives.diagnosed
    if walks.all Walk.complete then do
      let (paths, nested) := definitivePass preparation.policy archives.recognized walks
      let count ← countOf nested
      recording (Evidence.recordNestedArchiveCount count)
      let ledger ← routeEffective preparation.policy paths
      return .proceed ledger
    else return .stopped .halted

/-! ## Archive Finalization -/

/-- `plan_archive_finalization`. -/
def planArchiveFinalization (seams : RunSeams V table) (preparation : Preparation) : Running V (Flow Unit) := do
  enter .archiveFinalization (Evidence.recordPhase seams.checks seams.sink (.planned .archiveFinalization))
  unlessCancelled seams do
    match ← call fun n => seams.finalization.planCreation n preparation with
    | .notRequested => return .proceed ()
    | .cancelled => return .stopped .halted
    | .failed detail => do
      recording (Evidence.recordFailure seams.sink (.new .archiveCreationPlanningFailed .archiveFinalization detail))
      return .stopped .halted
    | .planned outputs capacityWarning => do
      recordCapacityWarning seams capacityWarning
      recording (Evidence.recordOutputPlanBasis .estimateFromModRootsAsTheyAre)
      Prog.forEach outputs fun output => recording (Evidence.recordPlannedOutput output)
      return .proceed ()

/-- `finalize_archives`, of the work phases. -/
def finalize (seams : RunSeams V table) (mode : ExecutionMode) (preparation : Preparation) : Running V (Flow Unit) := do
  recording (Evidence.publishDiagnostics seams.sink)
  unlessCancelled seams
    (if mode = .dryRun then planArchiveFinalization seams preparation
    else do
      enter .archiveFinalization (Evidence.openArchiveFinalization seams.checks seams.sink)
      unlessCancelled seams do
        finalizeArchives seams preparation
        return .proceed ())

/-! ## Asset attempts -/

/-- The longer of two Mod Roots, the later one where they are as long. -/
def longerRoot (best : Option Path) (root : Path) : Option Path :=
  match best with
  | none => some root
  | some best => if (nativeText best).length ≤ (nativeText root).length then some root else some best

/-- `attributed_mod_root`, of a resolved path. -/
def attributedModRoot (resolved : Path) (modRoots : List Path) : Option Path :=
  (modRoots.filter fun root => root.isPrefixOf resolved).foldl longerRoot none

/-- A diagnostic that an Asset attempt reported. -/
def reported : AssetEvent → Option RunDiagnostic
  | .retained diagnostic => some diagnostic
  | _ => none

variable [DecidableEq K]

/-- One Asset attempt, attributed to its Mod Root; `none` is a backend's report of cancellation. -/
def attemptAsset (seams : RunSeams V table) (modRoots : List Path) (asset : RoutedAsset) :
    Running V (Option RoutedAssetAttempt) := do
  let n ← nextCall
  match attributedModRoot ((seams.weaklyCanonical n asset.executionPath).getD asset.executionPath) modRoots with
  | none =>
    return some ⟨[], asset.fact,
      (unknownMutation asset.executionPath "Routed Asset is outside prepared Mod Roots").fact⟩
  | some modRoot => do
    let (result, events) ←
      onSite (containedAttempt seams.asset seams.backend (seams.creation n) asset (some modRoot))
    Prog.forEach (events.filterMap reported) fun diagnostic => recording (Evidence.retainDiagnostic diagnostic)
    return result.map fun result => ⟨modRoot, asset.fact, result.fact⟩

/-- The loop of `process_assets`. -/
def attemptAssets (seams : RunSeams V table) (modRoots : List Path) : List RoutedAsset → Running V (Flow Unit)
  | [] => unlessCancelledGoOn seams
  | asset :: assets => unlessCancelled seams do
    match ← attemptAsset seams modRoots asset with
    | none => return .stopped .backendCancelled
    | some attempt => do
      recordAttempt seams (.asset attempt)
      if attempt.result.outcome.safeToContinue then attemptAssets seams modRoots assets else return .stopped .halted

/-- Textures, then Meshes, then Animations. -/
def assetOrder (ledger : Routing.Ledger) : List RoutedAsset :=
  ledger.routedAssetsFor .texture ++ ledger.routedAssetsFor .mesh ++ ledger.routedAssetsFor .animation

/-- `process_assets`. -/
def processAssets (seams : RunSeams V table) (preparation : Preparation) (ledger : RoutedLedger) :
    Running V (Flow Unit) := do
  enter .processingAssets (Evidence.openProcessingAssets seams.checks seams.sink ledger.fact)
  attemptAssets seams preparation.facts.modRoots (assetOrder ledger.1)

/-! ## The work -/

/-- The phases of the work, each after the one before it went on. -/
def workPhases (seams : RunSeams V table) (cleanup : SourceCleanup) (preparation : Preparation) :
    Running V (Flow Unit) :=
  Flow.andThen (discoverArchives seams preparation) fun archives =>
    Flow.andThen (extractArchives seams preparation.policy.executionMode cleanup archives.plans) fun _ =>
      Flow.andThen (buildEffectiveAssetTree seams preparation archives) fun ledger =>
        Flow.andThen (processAssets seams preparation ledger) fun _ =>
          finalize seams preparation.policy.executionMode preparation

/-- `run_work_phases`: a build with debug assertions checks the toolset's mode. -/
def runWorkPhases (seams : RunSeams V table) (cleanup : SourceCleanup) (preparation : Preparation)
    (toolset : RunToolset) : Running V (Flow Unit) :=
  if seams.debugAssertions ∧ toolset.mode ≠ preparation.policy.executionMode then
    panicked "the Run Toolset's Execution Mode must be the Run Request's"
  else workPhases seams cleanup preparation

end Cao.Executor
