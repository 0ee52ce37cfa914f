import Cao.Run.SourcePin

/-!
# Archive extraction

One planned Archive's extraction (`extract_archive` of `run/archives.rs`): its source is pinned, every
entry staged, the entries it won published, and the source backed up or removed.

* `treeView`: the tree, as `matching_child` and `symlink_metadata` read it;
* `prepareMergeTarget`: a destination in the existing casing, its missing parents created;
* `tryExtract`, `extractStaged`, `extractArchive`: the attempt and how its end is classified.
-/

namespace Cao

open Prog (Spec spec_bind)

/-! ## Plans and outcomes -/

/-- `ArchiveExtractionFailure`. -/
inductive ArchiveExtractionFailure
  | extractionFailed
  | mergeFailed
  | sourceCleanupFailed
  | insufficientCapacity
  deriving DecidableEq, Repr

/-- `ArchiveExtractionResult`. -/
structure ArchiveExtractionResult where
  archivePath : Path
  modRoot : Path
  outcome : AttemptOutcome ArchiveExtractionFailure
  deriving DecidableEq, Repr

/-- `ArchiveExtractionResult::new`. -/
def ArchiveExtractionResult.new (plan : ArchiveExtractionPlan)
    (outcome : AttemptOutcome ArchiveExtractionFailure) : ArchiveExtractionResult :=
  ⟨plan.archivePath, plan.modRoot, outcome⟩

/-- `ExtractionProgress`. -/
structure ExtractionProgress where
  merging : Bool
  committed : Bool
  deriving DecidableEq, Repr

/-- `SourceCleanup`. -/
inductive SourceCleanup
  | backup
  | remove
  deriving DecidableEq, Repr

/-- What a `BTreeSet<&str>` is ordered by. -/
def strKey (s : Text) : List Nat := (utf8 s).map UInt8.toNat

/-- The detail of a manifest that is not the one planned. -/
def manifestChanged : String := "Archive manifest changed after preflight."

/-- One entry of a plan: it is canonical, and no alias of those before it. -/
def checkPlanned (table : UpcaseTable) (keys : OrdSet (gamePathKey table)) (entry : Text × Unit) :
    Except String (OrdSet (gamePathKey table)) :=
  if canonicalArchiveEntryPath entry.1 ≠ .ok entry.1 then .error "Archive plan contains a noncanonical entry."
  else if keys.contains entry.1 then .error "Archive manifest contains aliased entries."
  else .ok (keys.insert entry.1)

/-- The entries a plan expects, once the plan is sound. -/
def expectedEntries (table : UpcaseTable) (plan : ArchiveExtractionPlan) : Except String (OrdSet strKey) :=
  let expected := plan.entries.foldl OrdMap.insert (OrdMap.empty : OrdSet strKey)
  if expected.entries.length ≠ plan.entries.length then
    .error "Archive manifest contains duplicate canonical entries."
  else
    match expected.entries.foldlM (checkPlanned table) OrdMap.empty with
    | .error e => .error e
    | .ok _ =>
      if plan.mergeEntries.any fun entry => !expected.contains entry then
        .error "Archive merge entry is absent from its manifest."
      else .ok expected

/-! ## The tree an extraction works in -/

variable {K : Type} [DecidableEq K] {V : Volume K} {ε : Type}

/-- `symlink_metadata`, of what stands there. -/
def metadataOf : Node Leaf → Metadata
  | .dir => ⟨true, false, false⟩
  | .leaf .link => ⟨false, true, true⟩
  | .leaf _ => ⟨false, false, false⟩

/-- The tree as an extraction reads it; nothing here follows a link. -/
def treeView (disk : Disk V) : FileView where
  canonical path :=
    match disk.find path with
    | some (q, _) => .ok q
    | none => .error notFoundText
  weaklyCanonical path := .ok (weaklyCanonicalFrom disk [] path)
  readDir path :=
    match disk.find path with
    | some (q, .dir) => .ok ((disk.children q).map fun child => .ok child.1)
    | _ => .error notFoundText
  symlinkMetadata path := (entryAt path disk).map metadataOf
  isFile path :=
    match disk.find path with
    | some (_, .leaf (.file ..)) => true
    | _ => false

/-- `create_dir`. -/
def makeDirectory (path : Path) (disk : Disk V) : Except String (Disk V) :=
  match createEntry .dir path disk with
  | .ok (_, disk) => .ok disk
  | .error _ => .error "Cannot create the directory."

/-- `pin_directory`, of an extraction. -/
def pinMergeParent (seams : Seams) (path : Path) : Prog (Site V ExtractionProgress) (Thrown String) Unit := do
  let node ← inspectTree seams (entryAt path)
  call seams.native
  match node with
  | .dir => return ()
  | .leaf _ => failWith unexpectedIdentity

/-- The detail of a destination that something took after preflight. -/
def destinationAppeared : String := "Archive destination appeared after preflight."

/-- The loop of `prepare_merge_target`, from `current` on. -/
def prepareParts (seams : Seams) (table : UpcaseTable) :
    Path → List OsStr → Prog (Site V ExtractionProgress) (Thrown String) Path
  | current, [] => return current
  | current, part :: parts => do
    let existing ← inspectTree seams fun disk => matchingChild (treeView disk) table current part
    let next := existing.getD (current ++ [part])
    if parts = [] then
      if existing.isSome then failWith destinationAppeared else return next
    else do
      if existing.isNone then changeTree seams [] (makeDirectory next)
      let metadata ← inspectTree seams fun disk => (treeView disk).symlinkMetadata next
      if !metadata.isDir || metadata.isSymlink || metadata.isReparsePoint then
        failWith "Archive destination parent is not an ordinary directory."
      else do
        pinMergeParent seams next
        prepareParts seams table next parts

/-- `prepare_merge_target`. -/
def prepareMergeTarget (seams : Seams) (table : UpcaseTable) (root destination : Path) :
    Prog (Site V ExtractionProgress) (Thrown String) Path :=
  match containedParts root destination with
  | none => failWith destinationOutside
  | some parts => prepareParts seams table root parts

/-! ## Staging and merging -/

/-- The receipts of what is staged, by canonical entry. -/
abbrev StagedReceipts := List (Text × Nat)

/-- One entry of the manifest is staged. -/
def stageEntry (seams : Seams) (source : Path) (expected : OrdSet strKey) (staged : StagedReceipts)
    (entry : ArchiveEntry) : Prog (Site V ExtractionProgress) (Thrown String) StagedReceipts :=
  match canonicalArchiveEntryPath entry.name with
  | .error _ => failWith manifestChanged
  | .ok canonical =>
    if !expected.contains canonical || (staged.lookup canonical).isSome then failWith manifestChanged
    else do
      let receipt ← stageForPublication seams
      extractEntry seams source entry.name receipt
      return (canonical, receipt) :: staged

/-- One winning entry is published. The commit is recorded before the state is looked at. -/
def mergeEntry (seams : Seams) (table : UpcaseTable) (root directory : Path) (staged : StagedReceipts) (entry : Text) :
    Prog (Site V ExtractionProgress) (Thrown String) StagedReceipts :=
  match staged.lookup entry with
  | none => failWith manifestChanged
  | some receipt => do
    let target ← prepareMergeTarget seams table root (joinGamePath directory entry)
    let publication ← publishReceipt seams receipt target
    if publication.mutation = .committed then modifyProgress fun progress => { progress with committed := true }
    if publication.state ≠ .publishedAndReleased then
      failWith (if publication.errorDetail = "" then "Archive publication did not complete."
        else publication.errorDetail)
    else return staged.filter fun e => e.1 ≠ entry

/-- Every entry of the manifest is staged, and every winner then published. -/
def stageAndMerge (seams : Seams) (table : UpcaseTable) (plan : ArchiveExtractionPlan) (root : Path)
    (entries : List ArchiveEntry) (expected : OrdSet strKey) :
    Prog (Site V ExtractionProgress) (Thrown String) Unit := do
  let staged ← Prog.foldEach (stageEntry seams plan.archivePath expected) [] entries
  if staged.length ≠ expected.entries.length then failWith manifestChanged
  else do
    modifyProgress fun progress => { progress with merging := true }
    let _ ← Prog.foldEach (mergeEntry seams table root plan.archivePath.dropLast) staged plan.mergeEntries
    return ()

/-- A planned source, strictly inside its Mod Root and outside staging. -/
def containedSource (root source : Path) : Bool :=
  match relativeTo root source with
  | some relative => relative ≠ [] && !hasStagingComponent relative
  | none => false

/-- `try_extract`. -/
def tryExtract (seams : Seams) (table : UpcaseTable) (plan : ArchiveExtractionPlan) :
    Prog (Site V ExtractionProgress) (Thrown String) (Option (OperationFailure ArchiveExtractionFailure)) := do
  let root ← inspectTree seams fun disk => (treeView disk).canonical plan.modRoot
  if !containedSource root plan.archivePath then failWith "Archive source is outside its Mod Root."
  else do
    let entries ← listArchive seams plan.archivePath
    let required := max plan.estimatedCapacityBytes (estimatedCapacityBytes entries)
    let n ← nextCall
    match seams.recheck n [(root, required)] root with
    | some shortage => return some (.fromCapacityShortage .insufficientCapacity shortage)
    | none =>
      match expectedEntries table plan with
      | .error detail => failWith detail
      | .ok expected => do
        stageAndMerge seams table plan root entries expected
        return none

/-! ## The attempt -/

/-- How the end of staging and merging is classified. -/
def classify (progress : ExtractionProgress) :
    Except (Thrown String) (Option (OperationFailure ArchiveExtractionFailure)) →
      AttemptOutcome ArchiveExtractionFailure
  | .ok none => .succeeded (if progress.committed then .committed else .none)
  | .ok (some rejection) => .failed rejection .none true
  | .error thrown =>
    let category := if progress.merging then ArchiveExtractionFailure.mergeFailed else .extractionFailed
    let mutation := if progress.committed then MutationState.partialOrUnknown else .none
    .failed (.new category thrown.detail) mutation (!progress.committed)

/-- `extract_staged`. A panicking release is ignored. -/
def extractStaged (seams : Seams) (table : UpcaseTable) (plan : ArchiveExtractionPlan) :
    Prog (Site V ExtractionProgress) ε (AttemptOutcome ArchiveExtractionFailure) := do
  modifyProgress fun _ => ⟨false, false⟩
  let outcome ← catchUnwind (tryExtract seams table plan)
  let _ ← catchUnwind (releaseReader seams : Prog (Site V ExtractionProgress) (Thrown String) Unit)
  let progress ← getProgress
  return classify progress outcome

/-- The source, backed up or removed. -/
def cleanSource (seams : Seams) (pin : SourceFilePin) :
    SourceCleanup → Prog (Site V ExtractionProgress) (Thrown SourcePinError) Unit
  | .remove => pin.removeIfUnchanged seams
  | .backup => do
    let _ ← pin.backupIfUnchanged seams
    return ()

/-- Whether a retained source is still the Archive that was read. -/
def recoverable (seams : Seams) (pin : SourceFilePin) :
    Prog (Site V ExtractionProgress) (Thrown String) Bool := do
  let repinned ← result (pin.pinUnchangedForRecovery seams)
  match repinned with
  | .error _ => return false
  | .ok () => do
    let listed ← result (listArchive seams pin.source)
    releaseReader seams
    match listed with
    | .ok _ => return true
    | .error (_ : String) => return false

/-- How a failed cleanup is classified. -/
def cleanupFailure (detail : String) (staged : MutationState) (safeToContinue : Bool) :
    AttemptOutcome ArchiveExtractionFailure :=
  .failed (.new .sourceCleanupFailed detail) (if safeToContinue then staged else .partialOrUnknown)
    safeToContinue

/-- Source cleanup after everything the Archive won was published. -/
def cleanUp (seams : Seams) (pin : SourceFilePin) (cleanup : SourceCleanup) (staged : MutationState) :
    Prog (Site V ExtractionProgress) ε (AttemptOutcome ArchiveExtractionFailure) := do
  let cleaned ← catchUnwind (cleanSource seams pin cleanup)
  match cleaned with
  | .ok () => return .succeeded .committed
  | .error (.panic message) => return cleanupFailure message .partialOrUnknown false
  | .error (.error e) =>
    if staged = .committed then do
      let readable ← catchUnwind (recoverable seams pin)
      match readable with
      | .ok safe => return cleanupFailure e.text staged safe
      | .error _ => return cleanupFailure e.text staged false
    else return cleanupFailure e.text staged false

/-- `extract_archive`. -/
def extractArchive (seams : Seams) (table : UpcaseTable) (plan : ArchiveExtractionPlan)
    (cleanup : SourceCleanup) : Prog (Site V ExtractionProgress) ε ArchiveExtractionResult := do
  let pinned ← catchUnwind (SourceFilePin.new seams plan.archivePath plan.modRoot)
  match pinned with
  | .error thrown =>
    let detail := (thrown.map SourcePinError.text).detail
    return .new plan (.failed (.new .extractionFailed detail) .none true)
  | .ok pin => do
    let staged ← extractStaged seams table plan
    if !staged.isSuccess then return .new plan staged
    else do
      let outcome ← cleanUp seams pin cleanup staged.mutation
      return .new plan outcome

end Cao
