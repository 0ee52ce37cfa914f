import Cao.Asset.Files
import Cao.Routing.Route
import Cao.Run.SourcePin

/-!
# Asset execution

The Asset Executor (`execution.rs`) and the adapter that runs one Asset attempt (`run/asset_attempt.rs`),
with the containment of its panics by the run (`work_phases.rs`).

* `AssetSite`: the tree, what was saved to each staged path, and what happened;
* `AssetSeams`, `AssetBackend`: the behaviour of every native call and of every backend call, by number;
* `PinnedSource`: a converted Texture's source, which only `removeVerified` deletes;
* `executeTexture`, `executeMesh`, `executeAnimation`, `quarantineFailedLoad`: the attempt;
* `containedAttempt`: what the run makes of it.
-/

namespace Cao.Asset

open Routing
open Evidence (AssetExecutionFailure OptimizerTarget RunDiagnostic)

/-! ## Results -/

/-- `OperationResult`. -/
inductive OperationResult
  | changed
  | unchanged
  | failed (message : String)
  deriving DecidableEq, Repr

namespace OperationResult

/-- `OperationResult::succeeded`. -/
def succeeded : OperationResult → Bool
  | failed _ => false
  | _ => true

/-- `OperationResult::would_change`. -/
def wouldChange : OperationResult → Bool
  | changed => true
  | _ => false

/-- `OperationResult::message`. -/
def message : OperationResult → String
  | failed message => message
  | _ => ""

end OperationResult

/-- `AssetExecutionResult`; no constructor or builder adds a cleanup failure. -/
structure AssetExecutionResult where
  outcome : AttemptOutcome AssetExecutionFailure
  path : Path
  operation : String
  serviceDetail : String
  cleanupFailures : List Evidence.RunFailure
  clean : cleanupFailures = []
  deriving Repr

namespace AssetExecutionResult

/-- `AssetExecutionResult::success`. -/
def success (mutation : CompletedMutation) : AssetExecutionResult := ⟨.succeeded mutation, [], "", "", [], rfl⟩

/-- `AssetExecutionResult::failed`. -/
def failed (failure : AssetExecutionFailure) (message : String) : AssetExecutionResult :=
  ⟨.failed (.new failure message) .none true, [], "execute_asset", "", [], rfl⟩

/-- `AssetExecutionResult::with_mutation`, which changes failures only. -/
def withMutation (mutation : MutationState) (result : AssetExecutionResult) : AssetExecutionResult :=
  match result.outcome with
  | .failed failure _ claimed => { result with outcome := .failed failure mutation claimed }
  | .succeeded _ => result

/-- `AssetExecutionResult::with_safe_to_continue`, which changes failures only. -/
def withSafeToContinue (claimed : Bool) (result : AssetExecutionResult) : AssetExecutionResult :=
  match result.outcome with
  | .failed failure mutation _ => { result with outcome := .failed failure mutation claimed }
  | .succeeded _ => result

/-- `AssetExecutionResult::with_path`. -/
def withPath (path : Path) (result : AssetExecutionResult) : AssetExecutionResult := { result with path }

/-- `AssetExecutionResult::with_operation`. -/
def withOperation (operation : String) (result : AssetExecutionResult) : AssetExecutionResult :=
  { result with operation }

/-- `AssetExecutionResult::with_service_detail`. -/
def withServiceDetail (serviceDetail : String) (result : AssetExecutionResult) : AssetExecutionResult :=
  { result with serviceDetail }

/-- `AssetExecutionResult::failure`. -/
def failure (result : AssetExecutionResult) : Option AssetExecutionFailure := result.outcome.failureCategory

/-- What Run Evidence reads of a result. -/
def fact (result : AssetExecutionResult) : Evidence.AssetExecutionResult :=
  ⟨result.outcome, result.cleanupFailures, result.clean⟩

end AssetExecutionResult

/-! ## The state of an attempt -/

/-- A call that changes the file system, staging included. -/
inductive MutatingCall
  | stage
  | publish
  | remove
  | quarantine
  deriving DecidableEq, Repr

/-- What an attempt invoked, established or changed. -/
inductive AssetEvent
  | invoked (call : MutatingCall)
  /-- The backend's creation reported a diagnostic. -/
  | retained (diagnostic : RunDiagnostic)
  /-- A source was pinned, or was not. -/
  | pinned (held : Bool)
  /-- A staged file was renamed to a destination, and its temporary name released or not. -/
  | published (receipt : Nat) (destination : Path) (data : Bytes) (released : Bool)
  /-- The conversion's files were compared with what was pinned. -/
  | verified (usable : Bool)
  /-- The file object that a path named was deleted. -/
  | removed (path : Path) (identity : Nat) (data : Bytes)
  | quarantined (path candidate : Path)
  deriving DecidableEq, Repr

/-- The tree outside staging, what was last saved to each staged path, and what happened. A staged path
with no regular file holds `none`. -/
structure AssetSite {K : Type} (volume : Volume K) where
  tree : AssetTree volume
  staged : List (Option Bytes)
  calls : Nat
  log : List AssetEvent

/-- `StagingError`, as its callers read it. -/
structure StagingFailure where
  isLookup : Bool
  text : String
  deriving DecidableEq, Repr

/-- `StagingError::io`. -/
def StagingFailure.io (context : String) (path : Path) (source : String) : StagingFailure :=
  ⟨false, context ++ " `" ++ displayPath path ++ "`: " ++ source⟩

/-- What each native call and each call of the registry comes to, by its number. -/
structure AssetSeams where
  /-- A native call is let happen or refused. -/
  native : Nat → Except String Unit
  /-- `capture_publication_target`. -/
  capture : Nat → Path → Path → Except StagingFailure Unit
  /-- `stage_file_for_publication`. -/
  stage : Nat → Except StagingFailure Unit
  publish : Nat → PublicationFate

/-- What the backend does with the removal it is handed, which tells it whether the source was removed. -/
inductive Removal
  | reported (answer : Except String Bool)
  | callback (next : Bool → Removal)

/-- `AssetExecutionBackend`, by the number of the call: what it answers, or the message of its panic, and
what it leaves at the staged path it was given. -/
structure AssetBackend where
  loadTexture : Nat → Path → TextureVariant → Except String Bool
  optimizeTexture : Nat → AssetOperations → ExecutionMode → Except String OperationResult
  saveTexture : Nat → Option Bytes × Except String Bool
  textureFailureDetail : Nat → Except String String
  removeTexture : Nat → Path → Removal
  loadMesh : Nat → Path → MeshVariant → Except String Bool
  optimizeMesh : Nat → Path → Option Path → ExecutionMode → Except String OperationResult
  maintainMeshReferences : Nat → ExecutionMode → Except String OperationResult
  saveMesh : Nat → Option Bytes × Except String Bool
  /-- Nothing is left where it is given no output path. -/
  optimizeAnimation : Nat → Path → ExecutionMode → Option Bytes × Except String OperationResult
  attemptFinished : Nat → RoutedAsset → AssetExecutionResult → Except String Unit

variable {K : Type} {V : Volume K} {ε α : Type}

/-- An attempt's program: it may return early with a result, or panic. -/
abbrev Attempting {K : Type} (V : Volume K) (α : Type) := Prog (AssetSite V) (Thrown AssetExecutionResult) α

/-- The number of a call. -/
def nextCall : Prog (AssetSite V) ε Nat := fun s => (.done s.calls, { s with calls := s.calls + 1 })

/-- An event. -/
def record (event : AssetEvent) : Prog (AssetSite V) ε Unit :=
  Prog.modify fun s => { s with log := s.log ++ [event] }

/-- Return early. -/
def giveUp (result : AssetExecutionResult) : Attempting V α := Prog.fail (.error result)

/-- Return early with a failure, unless a step succeeded. -/
def require (succeeded : Bool) (failure : Attempting V AssetExecutionResult) : Attempting V Unit :=
  if succeeded then pure () else failure >>= giveUp

/-- What a backend's answer comes to. -/
def answered : Except String α → Attempting V α
  | .ok a => pure a
  | .error message => Prog.fail (.panic message)

/-- A call of the backend. -/
def backendCall (f : Nat → Except String α) : Attempting V α := do
  let n ← nextCall
  answered (f n)

/-- A call of the backend that writes to the staged file of a receipt. -/
def savingCall (receipt : Nat) (f : Nat → Option Bytes × Except String α) : Attempting V α := do
  let n ← nextCall
  Prog.modify fun s => { s with staged := s.staged.set receipt (f n).1 }
  answered (f n).2

/-- A native call. -/
def nativeCall (seams : AssetSeams) : Prog (AssetSite V) ε (Except String Unit) := do
  let n ← nextCall
  return seams.native n

/-- `map_err(StagingError::io(context, path))` of a native call. -/
def nativeIo (seams : AssetSeams) (context : String) (path : Path) : Prog (AssetSite V) StagingFailure Unit := do
  match ← nativeCall seams with
  | .ok () => return ()
  | .error source => Prog.fail (.io context path source)

/-! ## Staging and publication -/

/-- `capture_publication_target`. -/
def capturePublicationTarget (seams : AssetSeams) (root destination : Path) :
    Prog (AssetSite V) StagingFailure Unit := do
  let n ← nextCall
  Prog.ofExcept (seams.capture n root destination)

/-- `stage_file_for_publication`: an empty staged file. -/
def stageFileForPublication (seams : AssetSeams) : Prog (AssetSite V) StagingFailure Nat := do
  record (.invoked .stage)
  let n ← nextCall
  Prog.ofExcept (seams.stage n)
  let s ← Prog.get
  Prog.modify fun s => { s with staged := s.staged ++ [some []] }
  return s.staged.length

/-- `capture_and_stage_file`. -/
def captureAndStageFile (seams : AssetSeams) (root destination : Path) : Prog (AssetSite V) StagingFailure Nat := do
  capturePublicationTarget seams root destination
  stageFileForPublication seams

/-- `asset_fingerprint` of the staged file of a receipt. -/
def stagedFingerprint (seams : AssetSeams) (receipt : Nat) :
    Prog (AssetSite V) ε (Option (Nat × UInt64)) := do
  let answer ← nativeCall seams
  let s ← Prog.get
  match answer, s.staged[receipt]? with
  | .ok (), some (some data) => return usableFingerprint data
  | _, _ => return none

/-- `publication_root`; a standalone call has no Mod Root. -/
def publicationRoot (modRoot : Option Path) (destination : Path) : Path := modRoot.getD destination.dropLast

/-- `staging_failed`. -/
def stagingFailed (kind boundary : String) (path : Path) (mutation : MutationState) (error : StagingFailure) :
    AssetExecutionResult :=
  AssetExecutionResult.failed .stagingFailed ("Failed to prepare " ++ kind ++ " staging.")
    |>.withMutation mutation
    |>.withSafeToContinue error.isLookup
    |>.withPath path
    |>.withOperation boundary
    |>.withServiceDetail error.text

/-- A step of staging; its failure is the attempt's. -/
def orStagingFailed (kind boundary : String) (path : Path) (x : Prog (AssetSite V) StagingFailure α) :
    Attempting V α := x.mapError fun error => .error (stagingFailed kind boundary path .none error)

/-- `publication_failure`. -/
def publicationFailure (publication : PublicationResult) (message : String) (path : Path) (boundary : String) :
    Option AssetExecutionResult :=
  if publication.state = .publishedAndReleased then none
  else some (AssetExecutionResult.failed .commitFailed message
    |>.withMutation publication.mutation
    |>.withSafeToContinue publication.safeToContinue
    |>.withPath path
    |>.withOperation boundary
    |>.withServiceDetail publication.errorDetail)

variable [DecidableEq K]

/-- The rename of a staged file over a destination, and whether it was released. -/
def renameStaged (receipt : Nat) (destination : Path) (released : Bool) (detail : String) :
    Prog (AssetSite V) ε PublicationResult := do
  let s ← Prog.get
  match s.staged[receipt]? with
  | some (some data) =>
    match putStaged data destination s.tree with
    | some tree =>
      Prog.modify fun s => { s with tree, log := s.log ++ [.published receipt destination data released] }
      return ⟨if released then .publishedAndReleased else .publishedStillOwned, detail⟩
    | none => return ⟨.notPublished, "Publish staged file to"⟩
  | _ => return ⟨.notPublished, "Open staged file"⟩

/-- `PublicationReceipt::publish`, with `PublicationPolicy::Replace`. -/
def publishReceipt (seams : AssetSeams) (receipt : Nat) (destination : Path) :
    Prog (AssetSite V) ε PublicationResult := do
  record (.invoked .publish)
  let n ← nextCall
  match seams.publish n with
  | .refused detail => return ⟨.notPublished, detail⟩
  | .unreleased detail => renameStaged receipt destination false detail
  | .released => renameStaged receipt destination true ""

/-- A publication; its failure is the attempt's. -/
def publishOutput (seams : AssetSeams) (receipt : Nat) (destination : Path) (message : String) (path : Path)
    (boundary : String) : Attempting V PublicationResult := do
  let publication ← publishReceipt seams receipt destination
  match publicationFailure publication message path boundary with
  | some failure => giveUp failure
  | none => return publication

/-! ## The pinned source -/

/-- `asset_fingerprint`. -/
def assetFingerprint (seams : AssetSeams) (path : Path) : Prog (AssetSite V) ε (Option (Nat × UInt64)) := do
  let answer ← nativeCall seams
  let s ← Prog.get
  match answer, leafAt s.tree path with
  | .ok (), some (_, .file _ data _) => return usableFingerprint data
  | _, _ => return none

/-- `PinnedSource`: while its file is open, the bytes of the file object cannot change. -/
structure PinnedSource where
  path : Path
  file : Option Bytes
  identity : Nat
  bytes : Nat × UInt64
  deriving DecidableEq, Repr

namespace PinnedSource

omit [DecidableEq K] in
/-- `PinnedSource::hash`. -/
def hash (seams : AssetSeams) (data : Bytes) : Prog (AssetSite V) ε (Option (Nat × UInt64)) := do
  match ← nativeCall seams with
  | .ok () => return usableFingerprint data
  | .error _ => return none

/-- `PinnedSource::open`. -/
def openSource (seams : AssetSeams) (path : Path) : Prog (AssetSite V) StagingFailure PinnedSource := do
  nativeIo seams "Pin Texture source" path
  let s ← Prog.get
  match leafAt s.tree path with
  | none => Prog.fail (.io "Pin Texture source" path notFoundText)
  | some (_, entry) =>
    nativeIo seams "Inspect" path
    nativeIo seams "Identify" path
    match entry with
    | .file identity data links =>
      match ← hash seams data with
      | some bytes =>
        if links = 1 then return ⟨path, some data, identity, bytes⟩
        else Prog.fail ⟨false, "Convertible Texture source is not an ordinary readable file."⟩
      | none => Prog.fail ⟨false, "Convertible Texture source is not an ordinary readable file."⟩
    | _ => Prog.fail ⟨false, "Convertible Texture source is not an ordinary readable file."⟩

/-- `PinnedSource::identity_at`: the entry, and its identity. -/
def identityAt (seams : AssetSeams) (path : Path) : Prog (AssetSite V) ε (Option (Path × Nat)) := do
  let answer ← nativeCall seams
  let s ← Prog.get
  match answer, leafAt s.tree path with
  | .ok (), some (q, .file identity _ links) => return if links = 1 then some (q, identity) else none
  | _, _ => return none

/-- `PinnedSource::unchanged_at_path`. -/
def unchangedAtPath (seams : AssetSeams) (pin : PinnedSource) : Prog (AssetSite V) ε Bool := do
  match pin.file with
  | none => return false
  | some data =>
    match ← identityAt seams pin.path with
    | some (_, identity) =>
      if identity = pin.identity then
        let bytes ← hash seams data
        return decide (bytes = some pin.bytes)
      else return false
    | none => return false

/-- `delete_by_handle`, of the entry opened at a path. -/
def deleteByHandle (seams : AssetSeams) (path q : Path) : Prog (AssetSite V) ε Bool := do
  record (.invoked .remove)
  let answer ← nativeCall seams
  let s ← Prog.get
  match answer, leafAt s.tree q, deleteEntry q s.tree with
  | .ok (), some (_, .file identity data _), some tree =>
    Prog.modify fun s => { s with tree, log := s.log ++ [.removed path identity data] }
    return true
  | _, _, _ => return false

/-- `PinnedSource::remove_verified`, with the pin it leaves. -/
def removeVerified (seams : AssetSeams) (pin : PinnedSource) : Prog (AssetSite V) ε (Bool × PinnedSource) := do
  if ← unchangedAtPath seams pin then
    match ← identityAt seams pin.path with
    | none => return (false, pin)
    | some (q, identity) =>
      if identity = pin.identity then
        if ← unchangedAtPath seams pin then
          if ← deleteByHandle seams pin.path q then return (true, { pin with file := none })
          else return (false, pin)
        else return (false, pin)
      else return (false, pin)
  else return (false, pin)

end PinnedSource

/-! ## Textures -/

/-- What a Texture's closures share: whether a removal was attempted and took place, and the pin. -/
structure Callback where
  attempted : Bool
  removed : Bool
  pin : Option PinnedSource
  deriving DecidableEq, Repr

/-- The closure handed to `remove_texture`. -/
def removalCallback (seams : AssetSeams) (c : Callback) : Attempting V (Bool × Callback) := do
  if c.attempted then return (false, c)
  match c.pin with
  | none => return (false, { c with attempted := true, removed := false })
  | some pin =>
    let (removed, pin) ← PinnedSource.removeVerified seams pin
    return (removed, ⟨true, removed, some pin⟩)

/-- `remove_texture`, handed the closure. -/
def runRemoval (seams : AssetSeams) : Removal → Callback → Attempting V (Bool × Callback)
  | .reported answer, c => do
    let reported ← answered answer
    return (reported, c)
  | .callback next, c => do
    let (removed, c) ← removalCallback seams c
    runRemoval seams (next removed) c

/-- `retained_usable`. -/
def retainedUsable (seams : AssetSeams) (output : Path) (outputBefore : Nat × UInt64) (pin : Option PinnedSource) :
    Attempting V Bool := do
  let current ← assetFingerprint seams output
  let usable ← if current = some outputBefore then
      match pin with
      | some pin => PinnedSource.unchangedAtPath seams pin
      | none => pure false
    else pure false
  record (.verified usable)
  return usable

/-- `removal_failed`. -/
def removalFailed (path : Path) (message : String) (mutation : MutationState) (safe : Bool) :
    AssetExecutionResult :=
  AssetExecutionResult.failed .sourceRemovalFailed message
    |>.withMutation mutation
    |>.withSafeToContinue safe
    |>.withPath path
    |>.withOperation "remove_texture_source"

/-- `execute_texture`: whether it converts. -/
def converts (asset : RoutedAsset) (variant : TextureVariant) : Bool :=
  variant = .convertible && asset.operations.conversion

/-- `execute_texture`: its output. -/
def textureOutput (asset : RoutedAsset) (variant : TextureVariant) : Path :=
  if variant = .convertible then withExtension asset.executionPath "dds".toList else asset.executionPath

/-- `execute_texture`: the source's pin. -/
def pinSource (seams : AssetSeams) (path : Path) : Attempting V PinnedSource := do
  match ← Prog.attempt (PinnedSource.openSource seams path) with
  | .ok pin =>
    record (.pinned true)
    return pin
  | .error error =>
    record (.pinned false)
    giveUp (stagingFailed "Texture" "pin_texture_source" path .none error)

/-- `execute_texture`: the pin of a source to convert, and the captured destination, in Apply. -/
def prepareTexture (seams : AssetSeams) (asset : RoutedAsset) (modRoot : Option Path) (variant : TextureVariant) :
    Attempting V (Option PinnedSource) := do
  let path := asset.executionPath
  let output := textureOutput asset variant
  if asset.executionMode = .apply then
    let pin ← if converts asset variant then some <$> pinSource seams path else pure none
    orStagingFailed "Texture" "capture_texture_destination" path
      (capturePublicationTarget seams (publicationRoot modRoot output) output)
    return pin
  else return none

omit [DecidableEq K] in
/-- `execute_texture`: whether the loaded Texture would change. -/
def evaluateTexture (backend : AssetBackend) (asset : RoutedAsset) (variant : TextureVariant) :
    Attempting V Bool := do
  let path := asset.executionPath
  let loaded ← backendCall fun n => backend.loadTexture n path variant
  require loaded do
    let detail ← backendCall backend.textureFailureDetail
    return AssetExecutionResult.failed .loadFailed "Failed to load Texture."
      |>.withPath path |>.withOperation "load_texture" |>.withServiceDetail detail
  let operation ← backendCall fun n => backend.optimizeTexture n asset.operations asset.executionMode
  require operation.succeeded (pure (AssetExecutionResult.failed .operationFailed "Failed to optimize Texture."
    |>.withPath path |>.withOperation "optimize_texture" |>.withServiceDetail operation.message))
  return operation.wouldChange

omit [DecidableEq K] in
/-- `execute_texture`: the staged and saved output, with its fingerprint. -/
def saveTexture (seams : AssetSeams) (backend : AssetBackend) (output : Path) :
    Attempting V (Nat × Nat × UInt64) := do
  let receipt ← orStagingFailed "Texture" "stage_texture" output (stageFileForPublication seams)
  let saved ← savingCall receipt backend.saveTexture
  require saved do
    let detail ← backendCall backend.textureFailureDetail
    return AssetExecutionResult.failed .saveFailed "Failed to save Texture."
      |>.withPath output |>.withOperation "save_texture" |>.withServiceDetail detail
  match ← stagedFingerprint seams receipt with
  | some outputBefore => return (receipt, outputBefore)
  | none =>
    giveUp (AssetExecutionResult.failed .saveFailed "Saved Texture is not a usable regular file."
      |>.withPath output |>.withOperation "save_texture")

/-- `execute_texture`: the removal of a converted source. -/
def removeConverted (seams : AssetSeams) (backend : AssetBackend) (path output : Path)
    (outputBefore : Nat × UInt64) (pin : Option PinnedSource) (mutation : MutationState) :
    Attempting V AssetExecutionResult := do
  let usable ← retainedUsable seams output outputBefore pin
  require usable (pure (removalFailed path "Cannot verify conversion files before removal." mutation false))
  let n ← nextCall
  let (reported, c) ← runRemoval seams (backend.removeTexture n path) ⟨false, false, pin⟩
  require (reported && c.removed) do
    let usable ← retainedUsable seams output outputBefore c.pin
    let mutation := if usable then mutation else .partialOrUnknown
    let detail ← backendCall backend.textureFailureDetail
    return removalFailed path "Failed to remove converted Texture source." mutation usable
      |>.withServiceDetail detail
  return .success .committed

/-- `execute_texture`. -/
def executeTexture (seams : AssetSeams) (backend : AssetBackend) (asset : RoutedAsset) (modRoot : Option Path) :
    Attempting V AssetExecutionResult := do
  match asset.identity with
  | .texture variant =>
    let output := textureOutput asset variant
    let pin ← prepareTexture seams asset modRoot variant
    let wouldChange ← evaluateTexture backend asset variant
    if asset.executionMode = .apply && wouldChange then
      let (receipt, outputBefore) ← saveTexture seams backend output
      let publication ← publishOutput seams receipt output "Failed to publish Texture output." output
        "commit_texture"
      if converts asset variant then
        removeConverted seams backend asset.executionPath output outputBefore pin publication.mutation
      else return .success .committed
    else return .success .none
  | _ =>
    giveUp (AssetExecutionResult.failed .identityMismatch "Texture target does not carry a Texture identity."
      |>.withSafeToContinue false |>.withPath asset.executionPath)

/-! ## Meshes -/

omit [DecidableEq K] in
/-- `execute_mesh`: the captured destination, in Apply. -/
def captureMesh (seams : AssetSeams) (asset : RoutedAsset) (modRoot : Option Path) : Attempting V Unit :=
  if asset.executionMode = .apply then
    orStagingFailed "Mesh" "capture_mesh_destination" asset.executionPath
      (capturePublicationTarget seams (publicationRoot modRoot asset.executionPath) asset.executionPath)
  else pure ()

omit [DecidableEq K] in
/-- `execute_mesh`: ordinary optimization, where it is carried. -/
def optimizeMesh (backend : AssetBackend) (asset : RoutedAsset) (modRoot : Option Path) : Attempting V Bool :=
  if asset.operations.optimization then do
    let optimization ← backendCall fun n => backend.optimizeMesh n asset.executionPath modRoot asset.executionMode
    require optimization.succeeded (pure (AssetExecutionResult.failed .operationFailed "Failed to optimize Mesh."
      |>.withPath asset.executionPath |>.withOperation "optimize_mesh" |>.withServiceDetail optimization.message))
    return optimization.wouldChange
  else pure false

omit [DecidableEq K] in
/-- `execute_mesh`: Mesh Reference Maintenance, where it is carried. -/
def maintainMeshReferences (backend : AssetBackend) (asset : RoutedAsset) : Attempting V Bool :=
  if asset.operations.meshReferenceMaintenance then do
    let maintenance ← backendCall fun n => backend.maintainMeshReferences n asset.executionMode
    require maintenance.succeeded (pure
      (AssetExecutionResult.failed .operationFailed "Failed to maintain Mesh references."
        |>.withPath asset.executionPath |>.withOperation "maintain_mesh_references"
        |>.withServiceDetail maintenance.message))
    return maintenance.wouldChange
  else pure false

omit [DecidableEq K] in
/-- `execute_mesh`: whether the loaded Mesh would change. -/
def evaluateMesh (backend : AssetBackend) (asset : RoutedAsset) (modRoot : Option Path) (variant : MeshVariant) :
    Attempting V Bool := do
  let loaded ← backendCall fun n => backend.loadMesh n asset.executionPath variant
  require loaded (pure (AssetExecutionResult.failed .loadFailed "Failed to load Mesh."
    |>.withPath asset.executionPath |>.withOperation "load_mesh"))
  let optimized ← optimizeMesh backend asset modRoot
  let maintained ← maintainMeshReferences backend asset
  return optimized || maintained

omit [DecidableEq K] in
/-- `execute_mesh`: the staged and saved output. -/
def saveMesh (seams : AssetSeams) (backend : AssetBackend) (path : Path) : Attempting V Nat := do
  let receipt ← orStagingFailed "Mesh" "stage_mesh" path (stageFileForPublication seams)
  let failure := AssetExecutionResult.failed .saveFailed "Failed to save a usable Mesh staging file."
    |>.withPath path |>.withOperation "save_mesh"
  let saved ← savingCall receipt backend.saveMesh
  require saved (pure failure)
  let bytes ← stagedFingerprint seams receipt
  require bytes.isSome (pure failure)
  return receipt

/-- `execute_mesh`. -/
def executeMesh (seams : AssetSeams) (backend : AssetBackend) (asset : RoutedAsset) (modRoot : Option Path) :
    Attempting V AssetExecutionResult := do
  let path := asset.executionPath
  match asset.identity with
  | .mesh variant =>
    captureMesh seams asset modRoot
    let wouldChange ← evaluateMesh backend asset modRoot variant
    if asset.executionMode = .apply && wouldChange then
      let receipt ← saveMesh seams backend path
      let _ ← publishOutput seams receipt path "Failed to publish Mesh output." path "commit_mesh"
      return .success .committed
    else return .success .none
  | _ =>
    giveUp (AssetExecutionResult.failed .identityMismatch "Mesh target does not carry a Mesh identity."
      |>.withSafeToContinue false |>.withPath path)

/-! ## Animations -/

omit [DecidableEq K] in
/-- `execute_animation`: the staged output, in Apply. -/
def stageAnimation (seams : AssetSeams) (asset : RoutedAsset) (modRoot : Option Path) : Attempting V (Option Nat) :=
  if asset.executionMode = .apply then
    some <$> orStagingFailed "Animation" "stage_animation" asset.executionPath
      (captureAndStageFile seams (publicationRoot modRoot asset.executionPath) asset.executionPath)
  else pure none

omit [DecidableEq K] in
/-- `execute_animation`: the backend's call, given the staged file in Apply. -/
def optimizeAnimation (backend : AssetBackend) (asset : RoutedAsset) (receipt : Option Nat) :
    Attempting V OperationResult :=
  match receipt with
  | some receipt =>
    savingCall receipt fun n => backend.optimizeAnimation n asset.executionPath asset.executionMode
  | none => backendCall fun n => (backend.optimizeAnimation n asset.executionPath asset.executionMode).2

/-- `execute_animation`. -/
def executeAnimation (seams : AssetSeams) (backend : AssetBackend) (asset : RoutedAsset) (modRoot : Option Path) :
    Attempting V AssetExecutionResult := do
  let path := asset.executionPath
  require (asset.identity = .animation) (pure
    (AssetExecutionResult.failed .identityMismatch "Animation target does not carry an Animation identity."
      |>.withSafeToContinue false |>.withPath path |>.withOperation "execute_animation"))
  require asset.operations.optimization (pure
    (AssetExecutionResult.failed .operationFailed "Animation does not carry optimization work."
      |>.withSafeToContinue false |>.withPath path |>.withOperation "execute_animation"))
  let receipt ← stageAnimation seams asset modRoot
  let operation ← optimizeAnimation backend asset receipt
  require operation.succeeded (pure (AssetExecutionResult.failed .operationFailed "Failed to optimize Animation."
    |>.withPath path |>.withOperation "optimize_animation" |>.withServiceDetail operation.message))
  match receipt with
  | none => return .success .none
  | some receipt =>
    if operation.wouldChange then
      let bytes ← stagedFingerprint seams receipt
      require bytes.isSome (pure
        (AssetExecutionResult.failed .saveFailed "Animation output is not a usable regular file."
          |>.withPath path |>.withOperation "save_animation"))
      let _ ← publishOutput seams receipt path "Failed to publish Animation output." path "commit_animation"
      return .success .committed
    else return .success .none

/-- `AssetExecutor::execute`, by the Asset's target. -/
def executeTarget (seams : AssetSeams) (backend : AssetBackend) (asset : RoutedAsset) (modRoot : Option Path) :
    Attempting V AssetExecutionResult :=
  match asset.target with
  | .texture => executeTexture seams backend asset modRoot
  | .mesh => executeMesh seams backend asset modRoot
  | .animation => executeAnimation seams backend asset modRoot
  | .archive =>
    giveUp (AssetExecutionResult.failed .unsupportedTarget
      "Archive extraction and packing are owned by run orchestration.")

/-- `AssetExecutor::execute`; only a panic is left. -/
def execute (seams : AssetSeams) (backend : AssetBackend) (asset : RoutedAsset) (modRoot : Option Path) :
    Prog (AssetSite V) String AssetExecutionResult := do
  match ← Prog.attempt (executeTarget seams backend asset modRoot) with
  | .ok result => return result
  | .error (.error result) => return result
  | .error (.panic message) => Prog.fail message

/-! ## Quarantine -/

/-- The loop of `quarantine`, for the file opened at `q`: the first free name. -/
def tryQuarantine (seams : AssetSeams) (path q : Path) (entry : Entry) :
    Nat → Nat → Prog (AssetSite V) ε (Option Path)
  | 0, _ => Prog.crash
  | fuel + 1, suffix => do
    let candidate := quarantineName path suffix
    let answer ← nativeCall seams
    let s ← Prog.get
    match answer, s.tree.find candidate, renameAsset q entry candidate s.tree with
    | .error _, _, _ => return none
    | .ok (), some _, _ => tryQuarantine seams path q entry fuel (suffix + 1)
    | .ok (), none, some tree =>
      Prog.modify fun s => { s with tree, log := s.log ++ [.quarantined path candidate] }
      return some candidate
    | .ok (), none, none => return none

/-- `quarantine`. An open for a rename opens no directory. -/
def quarantine (seams : AssetSeams) (path : Path) : Prog (AssetSite V) ε (Option Path) := do
  record (.invoked .quarantine)
  let answer ← nativeCall seams
  let s ← Prog.get
  match answer, leafAt s.tree path with
  | .ok (), some (q, entry) => tryQuarantine seams path q entry (quarantineBound s.tree + 1) 0
  | _, _ => return none

/-- `quarantine_failed_load`. -/
def quarantineFailedLoad (seams : AssetSeams) (asset : RoutedAsset) (result : AssetExecutionResult) :
    Prog (AssetSite V) ε AssetExecutionResult := do
  if asset.executionMode ≠ .apply ∨ (asset.target ≠ .texture ∧ asset.target ≠ .mesh) ∨
      result.failure ≠ some .loadFailed then return result
  match ← quarantine seams asset.executionPath with
  | some _ => return result.withMutation .committed
  | none => return result.withSafeToContinue false

/-! ## The attempt -/

/-- What the factory answers when the run's first attempt asks for a backend. -/
inductive BackendCreation
  | created (diagnostics : List RunDiagnostic)
  | cancelled
  | failed (error : String) (diagnostics : List RunDiagnostic)
  deriving DecidableEq, Repr

/-- The result of a call that panicked, or of a backend that was not created. -/
def unknownMutation (path : Path) (message : String) : AssetExecutionResult :=
  AssetExecutionResult.failed .backendException message
    |>.withMutation .partialOrUnknown
    |>.withSafeToContinue false
    |>.withPath path

/-- `AssetAttemptAdapter::attempt`, once there is a backend. -/
def attemptWith (seams : AssetSeams) (backend : AssetBackend) (asset : RoutedAsset) (modRoot : Option Path) :
    Prog (AssetSite V) String AssetExecutionResult := do
  let result ← execute seams backend asset modRoot
  let n ← nextCall
  Prog.ofExcept (backend.attemptFinished n asset result)
  quarantineFailedLoad seams asset result

/-- `AssetAttemptAdapter::attempt`; `none` is `AssetInitializationCancelled`. A run with a backend asks for
no creation. -/
def attempt (seams : AssetSeams) (backend : AssetBackend) (creation : Option (Except String BackendCreation))
    (asset : RoutedAsset) (modRoot : Option Path) : Prog (AssetSite V) String (Option AssetExecutionResult) := do
  match creation with
  | none => some <$> attemptWith seams backend asset modRoot
  | some (.error message) => Prog.fail message
  | some (.ok .cancelled) => return none
  | some (.ok (.failed error diagnostics)) =>
    Prog.forEach diagnostics fun diagnostic => record (.retained diagnostic)
    return some (unknownMutation asset.executionPath error)
  | some (.ok (.created diagnostics)) =>
    Prog.forEach diagnostics fun diagnostic => record (.retained diagnostic)
    some <$> attemptWith seams backend asset modRoot

/-- The attempt as the run contains it: a panic leaves unknown mutation. -/
def containedAttempt (seams : AssetSeams) (backend : AssetBackend)
    (creation : Option (Except String BackendCreation)) (asset : RoutedAsset) (modRoot : Option Path) :
    Prog (AssetSite V) ε (Option AssetExecutionResult) := do
  match ← Prog.attempt (attempt seams backend creation asset modRoot) with
  | .ok result => return result
  | .error message => return some (unknownMutation asset.executionPath message)

end Cao.Asset
