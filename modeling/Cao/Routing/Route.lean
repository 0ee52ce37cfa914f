import Cao.Evidence.Lifecycle

/-!
# Routing

The Routing Policy of a run and the decision it makes of each path (`routing.rs`), by the file name alone.

* `RoutingPolicy`, `RequestedWork`: what a run was asked for;
* `RoutedAsset`, `RoutingDecision`, `route`: one decision;
* `Ledger`, `routeAll`: a batch of them;
* **`route_withMode`**: the Execution Mode changes no decision.
-/

namespace Cao

/-- `ExecutionMode`. -/
inductive ExecutionMode
  | apply
  | dryRun
  deriving DecidableEq, Repr

namespace Routing

open Evidence

/-! ## Names -/

/-- A name before and after its last `.`. -/
def splitLastDot : OsStr → Option (OsStr × OsStr)
  | [] => none
  | c :: name =>
    match splitLastDot name with
    | some (before, after) => some (c :: before, after)
    | none => if c = .char '.' then some ([], name) else none

/-- `rsplit_file_at_dot`: the stem, and the extension of a name that does not begin at its last `.`. -/
def stemAndExtension (name : OsStr) : OsStr × Option OsStr :=
  match splitLastDot name with
  | some (before, after) => if before = [] then (name, none) else (before, some after)
  | none => (name, none)

/-- `Path::extension`. -/
def pathExtension (path : Path) : Option OsStr := path.getLast?.bind fun name => (stemAndExtension name).2

/-- `Path::with_extension`. -/
def withExtension (path : Path) (extension : Text) : Path :=
  match path.getLast? with
  | none => path
  | some name => path.dropLast ++ [(stemAndExtension name).1 ++ OsStr.ofText ('.' :: extension)]

/-- `normalized_terminal_extension`. -/
def normalizedTerminalExtension (path : Path) : Text :=
  match (pathExtension path).bind OsStr.toStr with
  | some extension => if extension.all fun c => c.val < 128 then '.' :: extension.map Char.toLower else []
  | none => []

/-! ## The policy -/

/-- `RequestedWork`. -/
inductive RequestedWork
  | nativeTextureOptimization
  | standardMeshOptimization
  | terrainMeshOptimization
  | animationOptimization
  | archiveExtraction
  | archiveCreation
  deriving DecidableEq, Repr

/-- `RoutingPolicy`. -/
structure RoutingPolicy where
  executionMode : ExecutionMode
  work : List RequestedWork
  convertsTextures : Bool
  archiveExtension : Text
  deriving DecidableEq, Repr

/-- `AssetKind`. -/
inductive AssetKind
  | texture
  | mesh
  | animation
  | archive
  deriving DecidableEq, Repr

namespace RoutingPolicy

/-- `RoutingPolicy::requests`. -/
def requests (policy : RoutingPolicy) (work : RequestedWork) : Bool := work ∈ policy.work

/-- `RoutingPolicy::maintains_mesh_references`. -/
def maintainsMeshReferences (policy : RoutingPolicy) : Bool := policy.convertsTextures

/-- `RoutingPolicy::kind_has_work`. -/
def kindHasWork (policy : RoutingPolicy) : AssetKind → Bool
  | .texture => policy.requests .nativeTextureOptimization || policy.convertsTextures
  | .mesh => policy.requests .standardMeshOptimization || policy.requests .terrainMeshOptimization ||
    policy.maintainsMeshReferences
  | .animation => policy.requests .animationOptimization
  | .archive => policy.requests .archiveExtraction

/-- The policy of the same request in a mode. -/
def withMode (policy : RoutingPolicy) (mode : ExecutionMode) : RoutingPolicy := { policy with executionMode := mode }

end RoutingPolicy

/-! ## Decisions -/

/-- `TextureVariant`. -/
inductive TextureVariant
  | native
  | convertible
  deriving DecidableEq, Repr

/-- `MeshVariant`. -/
inductive MeshVariant
  | standard
  | terrain
  deriving DecidableEq, Repr

/-- `AssetIdentity`. -/
inductive AssetIdentity
  | texture (variant : TextureVariant)
  | mesh (variant : MeshVariant)
  | animation
  | archive
  deriving DecidableEq, Repr

/-- `AssetIdentity::kind`. -/
def AssetIdentity.kind : AssetIdentity → AssetKind
  | texture _ => .texture
  | mesh _ => .mesh
  | animation => .animation
  | archive => .archive

/-- `RoutedAssetPhase`. -/
inductive RoutedAssetPhase
  | archiveExtraction
  | looseAssetProcessing
  deriving DecidableEq, Repr

/-- `AssetOperations`, one field for each `AssetOperation`. -/
structure AssetOperations where
  optimization : Bool
  conversion : Bool
  meshReferenceMaintenance : Bool
  extraction : Bool
  deriving DecidableEq, Repr

namespace AssetOperations

/-- `AssetOperations::default()`. -/
def default : AssetOperations := ⟨false, false, false, false⟩

/-- `AssetOperations::is_empty`. -/
def isEmpty (operations : AssetOperations) : Bool :=
  !(operations.optimization || operations.conversion || operations.meshReferenceMaintenance || operations.extraction)

end AssetOperations

/-- `RoutedAsset`. -/
structure RoutedAsset where
  executionPath : Path
  identity : AssetIdentity
  phase : RoutedAssetPhase
  target : OptimizerTarget
  executionMode : ExecutionMode
  operations : AssetOperations
  deriving DecidableEq, Repr

/-- What Run Evidence reads of a Routed Asset. -/
def RoutedAsset.fact (asset : RoutedAsset) : Evidence.RoutedAsset := ⟨asset.executionPath, asset.target⟩

/-- `SkippedAsset`. -/
structure SkippedAsset where
  executionPath : Path
  identity : AssetIdentity
  reason : SkipReason
  deriving DecidableEq, Repr

/-- `RoutingDecision`. -/
inductive RoutingDecision
  | routed (asset : RoutedAsset)
  | skipped (asset : SkippedAsset)
  | unsupported
  deriving DecidableEq, Repr

/-- What a path is recognized as, and what the policy asks of it. -/
def recognize (policy : RoutingPolicy) (extension : Text) :
    Option (AssetIdentity × RoutedAssetPhase × OptimizerTarget × AssetOperations) :=
  let none := AssetOperations.default
  if extension = ".dds".toList then
    some (.texture .native, .looseAssetProcessing, .texture,
      { none with optimization := policy.requests .nativeTextureOptimization })
  else if extension = ".tga".toList then
    some (.texture .convertible, .looseAssetProcessing, .texture, { none with conversion := policy.convertsTextures })
  else if extension = ".nif".toList then
    some (.mesh .standard, .looseAssetProcessing, .mesh,
      { none with
        optimization := policy.requests .standardMeshOptimization
        meshReferenceMaintenance := policy.maintainsMeshReferences })
  else if extension = ".btr".toList ∨ extension = ".bto".toList then
    some (.mesh .terrain, .looseAssetProcessing, .mesh,
      { none with
        optimization := policy.requests .terrainMeshOptimization
        meshReferenceMaintenance := policy.maintainsMeshReferences })
  else if extension = ".hkx".toList then
    some (.animation, .looseAssetProcessing, .animation,
      { none with optimization := policy.requests .animationOptimization })
  else if extension ≠ [] ∧ extension = policy.archiveExtension then
    some (.archive, .archiveExtraction, .archive, { none with extraction := policy.requests .archiveExtraction })
  else Option.none

/-- `AssetRouter::route`. -/
def route (policy : RoutingPolicy) (executionPath : Path) : RoutingDecision :=
  match recognize policy (normalizedTerminalExtension executionPath) with
  | none => .unsupported
  | some (identity, phase, target, operations) =>
    if !operations.isEmpty then
      .routed { executionPath, identity, phase, target, executionMode := policy.executionMode, operations }
    else
      let reason := if policy.kindHasWork identity.kind then .excludedAssetVariant else .disabledAssetKind
      .skipped { executionPath, identity, reason }

/-! ## Batches -/

/-- `RoutingLedger`: the Routed Assets in order, and the reason of each recognized exclusion. -/
structure Ledger where
  routedAssets : List RoutedAsset
  skippedReasons : List SkipReason
  deriving DecidableEq, Repr

/-- `RoutingLedger::routed_assets_for`. -/
def Ledger.routedAssetsFor (ledger : Ledger) (target : OptimizerTarget) : List RoutedAsset :=
  ledger.routedAssets.filter fun asset => asset.target = target

/-- `RoutingLedger::skipped_asset_count`. -/
def Ledger.skippedAssetCount (ledger : Ledger) (reason : SkipReason) : Nat := ledger.skippedReasons.count reason

/-- What one decision adds to a ledger. -/
def Ledger.add (ledger : Ledger) : RoutingDecision → Ledger
  | .routed asset => { ledger with routedAssets := ledger.routedAssets ++ [asset] }
  | .skipped asset => { ledger with skippedReasons := ledger.skippedReasons ++ [asset.reason] }
  | .unsupported => ledger

/-- `AssetRouter::route_all`. -/
def routeAll (policy : RoutingPolicy) (paths : List Path) : Ledger :=
  paths.foldl (fun ledger path => ledger.add (route policy path)) ⟨[], []⟩

/-! ## Modes -/

variable {policy : RoutingPolicy} {mode : ExecutionMode}

/-- A decision, with a mode in place of its own. -/
def RoutingDecision.withMode (mode : ExecutionMode) : RoutingDecision → RoutingDecision
  | routed asset => routed { asset with executionMode := mode }
  | skipped asset => skipped asset
  | unsupported => unsupported

theorem kindHasWork_withMode : (policy.withMode mode).kindHasWork = policy.kindHasWork := by
  funext kind
  cases kind <;> rfl

/-- **The mode changes no decision**, but for the mode a Routed Asset carries. -/
theorem route_withMode (path : Path) : route (policy.withMode mode) path = (route policy path).withMode mode := by
  have hrecognize : recognize (policy.withMode mode) = recognize policy := rfl
  unfold route
  rw [hrecognize, kindHasWork_withMode]
  cases recognize policy (normalizedTerminalExtension path) with
  | none => rfl
  | some recognized =>
    obtain ⟨identity, phase, target, operations⟩ := recognized
    cases hempty : operations.isEmpty <;> simp [hempty, RoutingDecision.withMode, RoutingPolicy.withMode]

/-- **Every Routed Asset carries the mode of its policy.** -/
theorem route_executionMode {path : Path} {asset : RoutedAsset} (h : route policy path = .routed asset) :
    asset.executionMode = policy.executionMode := by
  unfold route at h
  cases hrecognized : recognize policy (normalizedTerminalExtension path) with
  | none => simp [hrecognized] at h
  | some recognized =>
    obtain ⟨identity, phase, target, operations⟩ := recognized
    cases hempty : operations.isEmpty with
    | true => simp [hrecognized, hempty] at h
    | false =>
      simp only [hrecognized, hempty, Bool.not_false, if_true, RoutingDecision.routed.injEq] at h
      rw [← h]

/-- And so does every one of a ledger. -/
theorem routeAll_executionMode {paths : List Path} {asset : RoutedAsset}
    (h : asset ∈ (routeAll policy paths).routedAssets) : asset.executionMode = policy.executionMode := by
  suffices hadds : ∀ (ledger : Ledger), (∀ asset ∈ ledger.routedAssets, asset.executionMode = policy.executionMode) →
      ∀ asset ∈ (paths.foldl (fun ledger path => ledger.add (route policy path)) ledger).routedAssets,
        asset.executionMode = policy.executionMode from hadds ⟨[], []⟩ (fun _ hnone => nomatch hnone) asset h
  clear h
  induction paths with
  | nil => exact fun _ h => h
  | cons path paths ih =>
    intro ledger h
    refine ih (ledger.add (route policy path)) fun asset hasset => ?_
    cases hrouted : route policy path with
    | routed new =>
      rw [hrouted] at hasset
      rcases List.mem_append.mp hasset with hbefore | hnew
      · exact h asset hbefore
      · rw [List.mem_singleton.mp hnew, route_executionMode hrouted]
    | skipped skipped =>
      rw [hrouted] at hasset
      exact h asset hasset
    | unsupported =>
      rw [hrouted] at hasset
      exact h asset hasset

end Routing

end Cao
