import Cao.Finalize.Planning

/-!
# Output attempts

`run/finalization/attempt.rs`: one planned output's atomic attempt, from the capacity recheck to the removal of its
packed sources, and how its end is classified.

* `pinPackedSources`, `stageArchive`, `publishArchive`, `loadPublished`, `removePackedSources`: its steps;
* `tryAttempt`, `verifyCommitted`, `attemptOutput`: the attempt.
-/

namespace Cao.Finalize

open Pack

variable {K : Type} [DecidableEq K] {V : Volume K} {ε α : Type}

/-- `AttemptStop`. -/
inductive AttemptStop
  | failed (detail : String)
  | short (shortage : CapacityShortage)
  deriving DecidableEq, Repr

/-- A failure at the progress's boundary. -/
def orStop (x : Prog (Site V Finalization) (Thrown String) α) : Prog (Site V Finalization) (Thrown AttemptStop) α :=
  x.mapError (Thrown.map .failed)

/-- A failed pin. -/
def orPinStop (x : Prog (Site V Finalization) (Thrown SourcePinError) α) :
    Prog (Site V Finalization) (Thrown AttemptStop) α :=
  x.mapError (Thrown.map fun e => .failed e.text)

/-- The attempt's progress changes. -/
def modifyAttempt (f : AttemptProgress → AttemptProgress) : Prog (Site V Finalization) ε Unit :=
  modifyProgress fun phase => { phase with progress := f phase.progress }

/-- The failure an error now reports. -/
def setBoundary (boundary : ArchiveFinalizationFailure) : Prog (Site V Finalization) ε Unit :=
  modifyAttempt fun progress => { progress with boundary }

/-! ## The steps of an attempt -/

/-- The estimate of the recheck, which never polls cancellation. -/
def currentEstimate (seams : FinalizationSeams) (plan : FinalizationPlan) (output : FinalizationOutput) :
    Prog (Site V Finalization) (Thrown AttemptStop) Nat :=
  (estimatePackedCapacity seams output plan.rules.dummyPlugin.length (pure ())).mapError fun
    | .error (.failed detail) => .error (.failed detail)
    | .error .cancelled => .panic "the recheck never polls cancellation"
    | .panic message => .panic message

/-- The sources are sized again, and the capacity rechecked. -/
def recheckCapacity (seams : FinalizationSeams) (plan : FinalizationPlan) (output : FinalizationOutput)
    (dummyDemand : Demand) : Prog (Site V Finalization) (Thrown AttemptStop) Unit := do
  let current ← currentEstimate seams plan output
  let demand := dummyDemand.add output.modRoot (max output.estimatedCapacityBytes current)
  let n ← nextCall
  match seams.recheck n demand.roots output.modRoot with
  | some shortage => failWith (.short shortage)
  | none => return ()

/-- One packed source is pinned, and with it the directories above it. -/
def pinPackedSource (seams : FinalizationSeams) (root : Path) (pins : List SourceFilePin × List Path)
    (source : PackSource) : Prog (Site V Finalization) (Thrown AttemptStop) (List SourceFilePin × List Path) := do
  let (pin, directories) ← orPinStop (SourceFilePin.withSharedDirectories seams.toSeams source.path root pins.2)
  return (pins.1 ++ [pin], directories)

/-- The sources stay pinned from before the write until each one's cleanup. -/
def pinPackedSources (seams : FinalizationSeams) (plan : FinalizationPlan) (output : FinalizationOutput) :
    Prog (Site V Finalization) (Thrown AttemptStop) (List SourceFilePin) :=
  if plan.deleteSources then do
    let (pins, _) ← Prog.foldEach (pinPackedSource seams output.modRoot) ([], []) output.archive.files
    return pins
  else return []

/-- `ArchivePacker::write`, into the staged file of a receipt. -/
def writeArchive (seams : Seams) (receipt : Nat) : Prog (Site V Finalization) (Thrown String) Unit := do
  let data ← call seams.pack
  writeStaged receipt data (.packed receipt)

/-- The Archive is staged and written. -/
def stageArchive (seams : FinalizationSeams) : Prog (Site V Finalization) (Thrown AttemptStop) Nat := do
  let receipt ← orStop (stageForPublication seams.toSeams)
  orStop (writeArchive seams.toSeams receipt)
  return receipt

/-- The Archive is published: its mutation and continuation are recorded before its state is looked at. -/
def publishArchive (seams : FinalizationSeams) (output : FinalizationOutput) (receipt : Nat) :
    Prog (Site V Finalization) (Thrown AttemptStop) Unit := do
  setBoundary .commitFailed
  let publication ← publishReceipt seams.toSeams receipt output.archivePath
  modifyAttempt fun progress => { progress with mutation := publication.mutation }
  if publication.state ≠ .publishedAndReleased then
    modifyAttempt fun progress => { progress with claimedSafeToContinue := publication.safeToContinue }
    failWith (.failed (if publication.errorDetail = "" then "Archive publication did not complete."
      else publication.errorDetail))
  else return ()

/-- The plugin that loads the published Archive, pinned where sources will be deleted. -/
def loadPublished (seams : FinalizationSeams) (plan : FinalizationPlan) (output : FinalizationOutput) :
    Prog (Site V Finalization) (Thrown AttemptStop) Unit := do
  setBoundary .pluginCreationFailed
  if output.loadingPluginPaths = [] then return ()
  else do
    let plugin ← orStop (ensureOutputLoadingPlugin seams plan output)
    if plan.deleteSources then orPinStop (loadingPluginPin seams.toSeams plugin output.modRoot) else return ()

/-- One packed source is removed. -/
def removePackedSource (seams : FinalizationSeams) (pin : SourceFilePin) :
    Prog (Site V Finalization) (Thrown AttemptStop) Unit := do
  orPinStop (pin.releaseForCleanup.removeIfUnchanged seams.toSeams)
  modifyAttempt fun progress => { progress with removedSources := progress.removedSources + 1 }

/-- The packed sources are removed. -/
def removePackedSources (seams : FinalizationSeams) (pins : List SourceFilePin) :
    Prog (Site V Finalization) (Thrown AttemptStop) Unit := do
  setBoundary .sourceCleanupFailed
  Prog.forEach pins (removePackedSource seams)

/-- `try_attempt`. -/
def tryAttempt (seams : FinalizationSeams) (plan : FinalizationPlan) (output : FinalizationOutput)
    (dummyDemand : Demand) : Prog (Site V Finalization) (Thrown AttemptStop) Unit := do
  recheckCapacity seams plan output dummyDemand
  let pins ← pinPackedSources seams plan output
  let receipt ← stageArchive seams
  publishArchive seams output receipt
  loadPublished seams plan output
  removePackedSources seams pins

/-! ## How an attempt ends -/

/-- `archive_reads_back`. -/
def archiveReadsBack (seams : FinalizationSeams) (archive : Path) :
    Prog (Site V Finalization) (Thrown String) Bool := do
  let listed ← result (listArchive seams.toSeams archive)
  releaseReader seams.toSeams
  match listed with
  | .ok _ => return true
  | .error (_ : String) => return false

/-- The length of an open file, read to its end. -/
def readToEnd (path : Path) (disk : Disk V) : Except String Nat :=
  match disk.find path with
  | some (_, .leaf (.file data _)) => .ok data.length
  | _ => .error notFoundText

/-- `readable_packed_source`. -/
def readablePackedSource (seams : FinalizationSeams) (source : Path) :
    Prog (Site V Finalization) (Thrown String) Bool := do
  let metadata ← result (statEntry seams.toSeams source)
  match metadata with
  | .ok (some (.leaf (.file data _))) => do
    let opened ← result (call seams.native)
    match opened with
    | .error (_ : String) => return false
    | .ok () => do
      let read ← result (inspectTree seams.toSeams (readToEnd source))
      match read with
      | .error (_ : String) => return false
      | .ok count =>
        if count = data.length then
          record (.readWhole source)
          return true
        else return false
  | .ok _ => return false
  | .error (_ : String) => return false

/-- Whether every one of some sources is readable, up to the first that is not. -/
def allReadable (seams : FinalizationSeams) : List PackSource → Prog (Site V Finalization) (Thrown String) Bool
  | [] => return true
  | source :: sources => do
    let readable ← readablePackedSource seams source.path
    if readable then allReadable seams sources else return false

/-- Whether a committed Archive is usable, and what is left of its sources too. -/
def verifyCommitted (seams : FinalizationSeams) (output : FinalizationOutput) (progress : AttemptProgress) :
    Prog (Site V Finalization) (Thrown String) Bool :=
  if progress.boundary = .pluginCreationFailed then return false
  else do
    let readable ← archiveReadsBack seams output.archivePath
    if readable then allReadable seams (output.archive.files.drop progress.removedSources) else return false

/-- How a failure at the progress's boundary ends. -/
def stopFailed (seams : FinalizationSeams) (output : FinalizationOutput) (detail : String) :
    Prog (Site V Finalization) ε (AttemptOutcome ArchiveFinalizationFailure) := do
  let phase ← getProgress
  let progress := phase.progress
  let safe ← if progress.mutation = .committed ∧ progress.claimedSafeToContinue then do
      let verified ← catchUnwind (verifyCommitted seams output progress)
      match verified with
      | .ok verified => pure verified
      | .error _ => pure false
    else pure progress.claimedSafeToContinue
  return .failed (.new progress.boundary detail) progress.mutation safe

/-- How an attempt ended. A finished attempt is asserted to be committed. -/
def classifyAttempt (seams : FinalizationSeams) (output : FinalizationOutput) :
    Except (Thrown AttemptStop) Unit → Prog (Site V Finalization) ε (AttemptOutcome ArchiveFinalizationFailure)
  | .ok () => do
    let phase ← getProgress
    if phase.progress.mutation = .committed then return .succeeded .committed else Prog.crash
  | .error (.error (.short shortage)) => do
    let phase ← getProgress
    return .failed (.fromCapacityShortage .insufficientCapacity shortage) phase.progress.mutation
      phase.progress.claimedSafeToContinue
  | .error (.error (.failed detail)) => stopFailed seams output detail
  | .error (.panic message) => do
    let phase ← getProgress
    return .failed (.new .unexpectedException message) phase.progress.mutation false

/-- `attempt_output`. -/
def attemptOutput (seams : FinalizationSeams) (plan : FinalizationPlan) (output : FinalizationOutput)
    (dummyDemand : Demand) : Prog (Site V Finalization) ε ArchiveFinalizationAttempt := do
  modifyAttempt fun _ => .start
  let attempted ← catchUnwind (tryAttempt seams plan output dummyDemand)
  let outcome ← classifyAttempt seams output attempted
  return ⟨output.archivePath, output.modRoot, outcome⟩

end Cao.Finalize
