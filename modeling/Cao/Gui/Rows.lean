import Cao.Executor.Execute
import Cao.Evidence.Summaries
import Mathlib.Data.List.Perm.Subperm

/-!
# Run-detail rows

The texts of the window's view of a run (`cao_gui::run_view`): the labels, and the rows that a run's failures,
diagnostics and terminal result become.

* `phaseName`, `outcomeLabel`, `markCancelling`: the labels;
* `failureRow`, `diagnosticRow`: the rows that are streamed;
* `appendResultDetails`: the rows of a terminal result, without the failures that were streamed;
* **`appendResultDetails_failures`**: the failure rows are then those of the result's failures.
-/

namespace Cao.Gui

open Evidence (RunPhase RunDiagnostic RunDiagnosticCode MutationKind SkipReason PlannedOutputArchive
  PlannedArchiveWork)
open Executor (RunOutcome OptimizationRunResult)

/-! ## Labels -/

/-- `phase_name`. -/
def phaseName : RunPhase → Text
  | .preparing => "Preparing".toList
  | .discoveringArchives => "Discovering Archives".toList
  | .extractingArchives => "Extracting Archives".toList
  | .buildingEffectiveAssetTree => "Building the Effective Asset Tree".toList
  | .processingAssets => "Processing Assets".toList
  | .archiveFinalization => "Archive Finalization".toList
  | .safetyCleanup => "Safety Cleanup".toList

/-- `outcome_label`. -/
def outcomeLabel : RunOutcome → Text
  | .succeeded => "Done".toList
  | .completedWithFailures => "Completed With Failures".toList
  | .cancelled => "Cancelled".toList
  | .failed => "Failed".toList

/-- `mutation_name`. -/
def mutationName : MutationKind → Text
  | .archiveExtraction => "Archive Extraction".toList
  | .assetProcessing => "Asset Processing".toList
  | .archiveFinalization => "Archive Finalization".toList

/-- `packed_kind_name`. -/
def packedKindName : Pack.ArchiveType → Text
  | .standard => "Standard".toList
  | .incompressible => "Incompressible".toList
  | .textures => "Textures".toList

/-- `yes_no`. -/
def yesNo (flag : Bool) : Text := if flag then "yes".toList else "no".toList

/-- `shown`. -/
def shown (path : Path) : Text := OsStr.lossy (nativeText path)

/-- A count, as it is displayed. -/
def counted (n : Nat) : Text := Nat.toDigits 10 n

/-- The cancellation marker. -/
def cancelling : Text := "Cancelling - ".toList

/-- `mark_cancelling`. -/
def markCancelling (label : Text) : Text := cancelling ++ label

/-! ## Streamed rows -/

/-- `FAILURE_PREFIX`. -/
def failurePrefix : Text := "Failure: ".toList

/-- Fields of a row, with a bar between them. -/
def row (head : String) (fields : List Text) : Text := head.toList ++ " | ".toList.intercalate fields

/-- `failure_row`. -/
def failureRow (failure : Evidence.RunFailure) : Text := row "Failure: " [failure.detail.toList, shown failure.path]

/-- `RunDiagnosticSeverity`. -/
inductive RunDiagnosticSeverity
  | informational
  | warning
  deriving DecidableEq, Repr

/-- `RunDiagnosticCode::severity`. -/
def severity : RunDiagnosticCode → RunDiagnosticSeverity
  | .capacityShortage => .warning
  | _ => .informational

/-- `diagnostic_row`. -/
def diagnosticRow (diagnostic : RunDiagnostic) : Text :=
  match severity diagnostic.code with
  | .warning => row "Warning: " [diagnostic.detail.toList, shown diagnostic.path]
  | .informational => row "Diagnostic: " [diagnostic.detail.toList, shown diagnostic.path]

/-- `archive_failure_row`. -/
def archiveFailureRow (archivePath : Path) (detail : String) : Text :=
  row "Archive Failure: " [shown archivePath, detail.toList]

/-! ## The rows of a result -/

/-- What the rows show of the result of an Asset's attempt, beside its outcome. -/
structure AssetTexts where
  operation : Text
  affectedPath : Path
  serviceDetail : Text

/-- A terminal result, with the texts of its Asset attempts. -/
structure TerminalResult where
  result : OptimizationRunResult
  assetTexts : Nat → AssetTexts

/-- `PlannedOutputArchive::with_first_dummy_plugins`, after the Dummy Plugins seen. -/
def withFirstDummyPlugins (seen : List Path) : List PlannedOutputArchive → List (PlannedOutputArchive × Option Path)
  | [] => []
  | output :: outputs =>
    match output.dummyPluginPath with
    | none => (output, none) :: withFirstDummyPlugins seen outputs
    | some plugin =>
      if plugin ∈ seen then (output, none) :: withFirstDummyPlugins seen outputs
      else (output, some plugin) :: withFirstDummyPlugins (plugin :: seen) outputs

/-- `skipped_asset_count`: Archive discovery's and routing's. -/
def skippedAssetCount (result : OptimizationRunResult) (reason : SkipReason) : Nat :=
  let storage := result.evidence.storage
  (storage.archiveDiscovery.elim 0 fun discovery => ((discovery.skippedArchiveCounts.lookup reason).getD 0).toNat) +
    storage.routingLedger.elim 0 fun ledger => ((ledger.skippedAssetCounts.lookup reason).getD 0).toNat

/-- The rows before a result's failures. -/
def headRows (result : OptimizationRunResult) : List Text :=
  [row "Cancellation Observed: " [yesNo result.evidence.storage.cancellationObserved],
      row "Final Phase: " [phaseName result.finalPhase]] ++
    (result.evidence.storage.preparation.elim [] (·.modRoots)).map fun root => row "Mod Root: " [shown root]

/-- The rows of the failures that cleanup left. -/
def cleanupRows (result : OptimizationRunResult) : List Text :=
  result.evidence.cleanupFailures.map fun failure => row "Cleanup Failure: " [failure.detail.toList, shown failure.path]

/-- `AttemptOutcome::failure`. -/
def attemptFailure {F : Type} : AttemptOutcome F → Option (OperationFailure F)
  | .succeeded _ => none
  | .failed failure _ _ => some failure

/-- The rows of the Asset attempts that failed. -/
def assetRows (terminal : TerminalResult) : List Text :=
  terminal.result.evidence.storage.assetAttempts.zipIdx.flatMap fun (attempt, i) =>
    match attemptFailure attempt.result.outcome with
    | some failure =>
      [row "Asset Failure: " [shown attempt.asset.executionPath, (terminal.assetTexts i).operation,
        failure.detail.toList, shown (terminal.assetTexts i).affectedPath, (terminal.assetTexts i).serviceDetail]]
    | none => []

/-- The rows of the Archives that failed. -/
def archiveRows (result : OptimizationRunResult) : List Text :=
  (result.evidence.storage.archiveExtractionAttempts.flatMap fun attempt =>
    match attemptFailure attempt.outcome with
    | some failure => [archiveFailureRow attempt.archivePath failure.detail]
    | none => []) ++
  match result.evidence.storage.archiveFinalization with
  | none => []
  | some finalization =>
    (match finalization.failure with
    | some failure => [row "Finalization Failure: " [failure.detail.toList]]
    | none => []) ++
    finalization.attempts.flatMap fun attempt =>
      match attemptFailure attempt.outcome with
      | some failure => [archiveFailureRow attempt.archivePath failure.detail]
      | none => []

/-- The rows of the changes that cancellation cannot roll back. -/
def mutationRows (result : OptimizationRunResult) : List Text :=
  result.evidence.mutationSummaries.map fun mutation =>
    row "Committed Mutations Retained: " [shown mutation.modRoot, mutationName mutation.kind,
      "committed=".toList ++ counted mutation.committed, "partial-or-unknown=".toList ++ counted mutation.partialOrUnknown]

/-- The rows of the Archive Collisions. -/
def collisionRows (result : OptimizationRunResult) : List Text :=
  result.evidence.storage.archiveCollisions.map fun collision =>
    row "Archive Collision: " ([shown collision.modRoot, collision.gamePath,
      "winner=".toList ++ shown collision.winningArchive,
      "loose-asset-wins=".toList ++ yesNo collision.looseAssetWins] ++
      collision.shadowedArchives.map fun shadowed => "shadowed=".toList ++ shown shadowed)

section ByteSize

-- the text of a `ByteSize`
variable (byteSize : Nat → Text)

/-- The rows of the extractions that a Dry Run planned. -/
def extractionRows (result : OptimizationRunResult) : List Text :=
  result.evidence.storage.plannedArchiveWork.extractions.map fun planned =>
    row "Planned Extraction: " [shown planned.archivePath, shown planned.modRoot,
      "entries=".toList ++ counted planned.entryCount, "winners=".toList ++ counted planned.winnerCount,
      "capacity=".toList ++ byteSize planned.estimatedCapacityBytes,
      "delete-backups=".toList ++ yesNo planned.deletesSourceArchive]

/-- `append_planned_creation`. -/
def creationRows (work : PlannedArchiveWork) : List Text :=
  ((withFirstDummyPlugins [] work.outputs).flatMap fun (output, firstPlugin) =>
    row "Planned Archive: " [shown output.archivePath, shown output.modRoot, packedKindName output.kind,
      "files=".toList ++ counted output.fileCount, "size=".toList ++ byteSize output.totalBytes,
      "delete-sources=".toList ++ yesNo output.deletesPackedSources] ::
    (firstPlugin.toList.map fun plugin => row "Planned Dummy Plugin: " [shown plugin])) ++
  match work.outputBasis with
  | some .estimateFromModRootsAsTheyAre =>
    [row "Planned Archive Creation: " [("an estimate from the Mod Roots as they are now; an Apply run plans after " ++
      "Archive extraction and Loose Asset optimization, so its Archives can differ").toList]]
  | none => []

/-- The rows of the Assets that were skipped. -/
def skippedRows (result : OptimizationRunResult) : List Text :=
  [(SkipReason.disabledAssetKind, "Disabled Asset Kind"), (.excludedAssetVariant, "Excluded Asset Variant")].flatMap
    fun (reason, name) =>
      if skippedAssetCount result reason ≠ 0 then
        [row "Skipped Assets: " [name.toList, counted (skippedAssetCount result reason)]]
      else []

/-- The rows after a result's failures. -/
def tailRows (terminal : TerminalResult) : List Text :=
  cleanupRows terminal.result ++ assetRows terminal ++ archiveRows terminal.result ++ mutationRows terminal.result ++
    collisionRows terminal.result ++ extractionRows byteSize terminal.result ++
    creationRows byteSize terminal.result.evidence.storage.plannedArchiveWork ++ skippedRows terminal.result

/-- The rows of the failures whose rows were not streamed: each streamed row absorbs one copy. -/
def absorb (streamed : Text → Nat) : List Text → List Text
  | [] => []
  | detail :: rows =>
    if 0 < streamed detail then absorb (Function.update streamed detail (streamed detail - 1)) rows
    else detail :: absorb streamed rows

/-- Whether a row is that of a Run Failure. -/
def isFailureRow (detail : Text) : Bool := failurePrefix.isPrefixOf detail

/-- `append_result_details`. -/
def appendResultDetails (details : List Text) (terminal : TerminalResult) : List Text :=
  let details := details ++ headRows terminal.result
  let streamed := fun detail => (details.filter isFailureRow).count detail
  details ++ absorb streamed (terminal.result.evidence.storage.failures.map failureRow) ++ tailRows byteSize terminal

end ByteSize

/-! ## Which rows are failures' -/

section Rows

variable {head : String} {fields : List Text} {detail : Text}

/-- A row begins with its head. -/
theorem isFailureRow_row (h : ¬ head.toList <+: failurePrefix) :
    isFailureRow (row head fields) = failurePrefix.isPrefixOf head.toList := by
  unfold isFailureRow row
  rw [Bool.eq_iff_iff, List.isPrefixOf_iff_prefix, List.isPrefixOf_iff_prefix]
  constructor
  · intro hrow
    rcases List.prefix_or_prefix_of_prefix hrow (List.prefix_append head.toList _) with hhead | hhead
    · exact hhead
    · exact absurd hhead h
  · intro hhead
    exact hhead.trans (List.prefix_append _ _)

/-- A row that another head than a failure's begins. -/
theorem not_isFailureRow (h : (!head.toList.isPrefixOf failurePrefix && !failurePrefix.isPrefixOf head.toList) = true) :
    isFailureRow (row head fields) = false := by
  rw [Bool.and_eq_true, Bool.not_eq_true', Bool.not_eq_true', ← Bool.not_eq_true, List.isPrefixOf_iff_prefix] at h
  rw [isFailureRow_row h.1, h.2]

theorem isFailureRow_failureRow (failure : Evidence.RunFailure) : isFailureRow (failureRow failure) = true := by
  unfold isFailureRow failureRow row
  rw [List.isPrefixOf_iff_prefix]
  exact List.prefix_append _ _

theorem isFailureRow_diagnosticRow (diagnostic : RunDiagnostic) : isFailureRow (diagnosticRow diagnostic) = false := by
  unfold diagnosticRow
  split
  · exact not_isFailureRow (by decide)
  · exact not_isFailureRow (by decide)

theorem isFailureRow_archiveFailureRow {archivePath : Path} {detail : String} :
    isFailureRow (archiveFailureRow archivePath detail) = false := not_isFailureRow (by decide)

theorem headRows_filter (result : OptimizationRunResult) : (headRows result).filter isFailureRow = [] := by
  rw [List.filter_eq_nil_iff]
  intro detail hmem
  unfold headRows at hmem
  simp only [List.mem_append, List.mem_cons, List.not_mem_nil, or_false, List.mem_map] at hmem
  rw [Bool.not_eq_true]
  rcases hmem with (rfl | rfl) | ⟨root, -, rfl⟩ <;> exact not_isFailureRow (by decide)

variable {byteSize : Nat → Text} {terminal : TerminalResult}

theorem assetRows_not (h : detail ∈ assetRows terminal) : isFailureRow detail = false := by
  unfold assetRows at h
  obtain ⟨⟨attempt, i⟩, -, h⟩ := List.mem_flatMap.mp h
  dsimp only at h
  split at h
  · rw [List.mem_singleton.mp h]
    exact not_isFailureRow (by decide)
  · cases h

theorem archiveRows_not {result : OptimizationRunResult} (h : detail ∈ archiveRows result) : isFailureRow detail = false := by
  unfold archiveRows at h
  rcases List.mem_append.mp h with h | h
  · obtain ⟨attempt, -, h⟩ := List.mem_flatMap.mp h
    split at h
    · rw [List.mem_singleton.mp h]
      exact isFailureRow_archiveFailureRow
    · cases h
  · split at h
    · cases h
    · rcases List.mem_append.mp h with h | h
      · split at h
        · rw [List.mem_singleton.mp h]
          exact not_isFailureRow (by decide)
        · cases h
      · obtain ⟨attempt, -, h⟩ := List.mem_flatMap.mp h
        split at h
        · rw [List.mem_singleton.mp h]
          exact isFailureRow_archiveFailureRow
        · cases h

theorem creationRows_not {work : PlannedArchiveWork} (h : detail ∈ creationRows byteSize work) :
    isFailureRow detail = false := by
  unfold creationRows at h
  rcases List.mem_append.mp h with h | h
  · obtain ⟨⟨output, firstPlugin⟩, -, h⟩ := List.mem_flatMap.mp h
    rcases List.mem_cons.mp h with rfl | h
    · exact not_isFailureRow (by decide)
    · obtain ⟨plugin, -, rfl⟩ := List.mem_map.mp h
      exact not_isFailureRow (by decide)
  · split at h
    · rw [List.mem_singleton.mp h]
      exact not_isFailureRow (by decide)
    · cases h

theorem skippedRows_not {result : OptimizationRunResult} (h : detail ∈ skippedRows result) : isFailureRow detail = false := by
  unfold skippedRows at h
  obtain ⟨⟨reason, name⟩, -, h⟩ := List.mem_flatMap.mp h
  dsimp only at h
  split_ifs at h
  · rw [List.mem_singleton.mp h]
    exact not_isFailureRow (by decide)
  · cases h

theorem tailRows_filter (terminal : TerminalResult) : (tailRows byteSize terminal).filter isFailureRow = [] := by
  rw [List.filter_eq_nil_iff]
  intro detail hmem
  rw [Bool.not_eq_true]
  unfold tailRows at hmem
  simp only [List.mem_append] at hmem
  rcases hmem with ((((((h | h) | h) | h) | h) | h) | h) | h
  · obtain ⟨failure, -, rfl⟩ := List.mem_map.mp h
    exact not_isFailureRow (by decide)
  · exact assetRows_not h
  · exact archiveRows_not h
  · obtain ⟨mutation, -, rfl⟩ := List.mem_map.mp h
    exact not_isFailureRow (by decide)
  · obtain ⟨collision, -, rfl⟩ := List.mem_map.mp h
    exact not_isFailureRow (by decide)
  · obtain ⟨planned, -, rfl⟩ := List.mem_map.mp h
    exact not_isFailureRow (by decide)
  · exact creationRows_not h
  · exact skippedRows_not h

end Rows

/-! ## The multiset of failures -/

section Absorb

variable {streamed : Text → Nat} {rows details : List Text} {detail : Text}

/-- Each streamed row absorbs one of the copies. -/
theorem count_absorb (streamed : Text → Nat) (rows : List Text) (detail : Text) :
    (absorb streamed rows).count detail = rows.count detail - streamed detail := by
  induction rows generalizing streamed with
  | nil => simp [absorb]
  | cons first rows ih =>
    unfold absorb
    split_ifs with hpos
    · rw [ih]
      by_cases hfirst : first = detail
      · subst hfirst
        rw [Function.update_self, List.count_cons_self]
        omega
      · rw [Function.update_of_ne (Ne.symm hfirst), List.count_cons_of_ne hfirst]
    · by_cases hfirst : first = detail
      · subst hfirst
        rw [List.count_cons_self, List.count_cons_self, ih]
        omega
      · rw [List.count_cons_of_ne hfirst, List.count_cons_of_ne hfirst, ih]

theorem mem_of_mem_absorb (h : detail ∈ absorb streamed rows) : detail ∈ rows := by
  have hcount := count_absorb streamed rows detail
  have hpos := List.count_pos_iff.mpr h
  exact List.count_pos_iff.mp (by omega)

/-- **The failure rows after the end are those of the result's failures**, each as often as a failure renders to it,
when those streamed are among them. -/
theorem appendResultDetails_failures {byteSize : Nat → Text} {terminal : TerminalResult}
    (h : (details.filter isFailureRow).Subperm (terminal.result.evidence.storage.failures.map failureRow)) :
    ((appendResultDetails byteSize details terminal).filter isFailureRow).Perm
      (terminal.result.evidence.storage.failures.map failureRow) := by
  have hall : ∀ detail ∈ terminal.result.evidence.storage.failures.map failureRow, isFailureRow detail = true := by
    intro detail hmem
    obtain ⟨failure, -, rfl⟩ := List.mem_map.mp hmem
    exact isFailureRow_failureRow failure
  unfold appendResultDetails
  dsimp only
  rw [List.filter_append, List.filter_append, List.filter_append, headRows_filter, tailRows_filter, List.append_nil,
    List.append_nil, List.filter_eq_self.mpr fun detail hmem => hall detail (mem_of_mem_absorb hmem), List.perm_iff_count]
  intro detail
  have hle := h.count_le detail
  rw [List.count_append, count_absorb]
  omega

end Absorb

end Cao.Gui
