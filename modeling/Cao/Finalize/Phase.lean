import Cao.Finalize.Attempt
import Cao.Ordinal

/-!
# The phase

`run/finalization/mod.rs`: Archive Finalization over a run's Mod Roots, from planning to the pruning of empty
directories.

* `creationDemand`, `recordShortage`: the capacity the phase asks for, and a known shortage;
* `deleteEmptyDirectories`, `pruneEmptyDirectories`: the pruning;
* `maintainAndPrune`, `attemptOutputs`, `finalizePlan`: what follows a plan;
* `runPhase`, `finalizeArchives`: the phase.
-/

namespace Cao.Finalize

open Pack

variable {K : Type} [DecidableEq K] {V : Volume K} {P ε α : Type}

/-- `Escape`. -/
inductive Escape
  | evidence (detail : String)
  | work (detail : String)
  deriving DecidableEq, Repr

/-- `map_err(Escape::Work)`. -/
def orWork (x : Prog (Site V P) (Thrown String) α) : Prog (Site V P) (Thrown Escape) α := x.mapError (Thrown.map .work)

/-! ## Evidence -/

/-- A fact for Run Evidence. -/
def evidenceFact (seams : FinalizationSeams) : Prog (Site V P) (Thrown Escape) Unit := do
  let n ← nextCall
  match seams.evidence n with
  | .ok () => return ()
  | .error detail => failWith (.evidence detail)

/-- `ArchiveFinalizationHandle::record`. -/
def recordAttempt (seams : FinalizationSeams) (attempt : ArchiveFinalizationAttempt) :
    Prog (Site V Finalization) (Thrown Escape) Unit := do
  evidenceFact seams
  modifyProgress fun phase => { phase with attempts := phase.attempts ++ [attempt] }

/-- A phase-level failure. -/
def failPhase (failure : OperationFailure ArchiveFinalizationFailure) : Prog (Site V Finalization) ε Unit :=
  modifyAccount fun account => { account with failure := some failure }

/-! ## Capacity -/

/-- The plugin allowance of a planned Mod Root. -/
def dummyCapacityOf (plan : FinalizationPlan) (root : Path) : Prog (Site V P) (Thrown ε) Nat :=
  match plan.dummyCapacityByRoot.lookup root with
  | some required => return required
  | none => Prog.fail (.panic "no entry found for key")

/-- `CreationDemand`. -/
structure CreationDemand where
  phase : Demand
  dummies : Demand
  deriving DecidableEq, Repr

/-- One Mod Root's allowance joins both demands. -/
def addAllowance (plan : FinalizationPlan) (demand : CreationDemand) (root : Path) :
    Prog (Site V P) (Thrown ε) CreationDemand := do
  let required ← dummyCapacityOf plan root
  return ⟨demand.phase.add root required, demand.dummies.add root required⟩

/-- `creation_demand`. -/
def creationDemand (plan : FinalizationPlan) : Prog (Site V P) (Thrown ε) CreationDemand := do
  let demand ← Prog.foldEach (addAllowance plan) ⟨.empty, .empty⟩ plan.roots
  let phase := plan.outputs.foldl (fun demand output => demand.add output.modRoot output.estimatedCapacityBytes)
    demand.phase
  return { demand with phase }

/-- `record_shortage`. -/
def recordShortage (seams : FinalizationSeams) (shortage : CapacityShortage) (archive : Option Path) :
    Prog (Site V Finalization) (Thrown Escape) Unit :=
  let failure := OperationFailure.fromCapacityShortage .insufficientCapacity shortage
  match archive with
  | none => failPhase failure
  | some archive => recordAttempt seams ⟨archive, shortage.root, .failed failure .none true⟩

/-! ## Pruning -/

/-- What a walk holds: the directories found, and those still to read, the last one first. -/
structure Found where
  directories : List Path
  pending : List Path
  deriving DecidableEq

/-- One entry of a directory: a link is neither descended into nor removed, nor is a hidden or reserved directory. -/
def visitEntry (seams : FinalizationSeams) (root directory : Path) (found : Found) (entry : OsStr) :
    Prog (Site V P) (Thrown ε) Found := do
  let listed ← result (call seams.native)
  match listed with
  | .error (_ : String) => return found
  | .ok () => do
    let path := directory ++ [entry]
    let metadata ← result (inspectTree seams.toSeams (entryAt path))
    match metadata with
    | .ok .dir => do
      let n ← nextCall
      if seams.hidden n path || hasStagingComponent ((relativeTo root path).getD path) then return found
      else return ⟨found.directories ++ [path], path :: found.pending⟩
    | .ok (.leaf _) => return found
    | .error (_ : String) => return found

/-- One directory of a walk; one that cannot be listed simply stays. -/
def visitDirectory (seams : FinalizationSeams) (root directory : Path) (found : Found) :
    Prog (Site V P) (Thrown ε) Found := do
  let listed ← result (inspectTree seams.toSeams (readDirectory directory))
  match listed with
  | .error (_ : String) => return found
  | .ok entries => Prog.foldEach (visitEntry seams root directory) found entries

/-- The loop of the walk. Every directory read is another entry of the tree, which bounds it. -/
def visitFrom (seams : FinalizationSeams) (root : Path) : Nat → Found → Prog (Site V P) (Thrown ε) (List Path)
  | 0, _ => Prog.crash
  | fuel + 1, ⟨directories, pending⟩ =>
    match pending with
    | [] => return directories
    | directory :: pending => do
      let found ← visitDirectory seams root directory ⟨directories, pending⟩
      visitFrom seams root fuel found

/-- `sort_by_key(Reverse(encode_wide().count()))`. -/
def longestFirst (directories : List Path) : List Path :=
  directories.insertionSort fun p q => (encodeWide (nativeText q)).length ≤ (encodeWide (nativeText p)).length

/-- `remove_dir`: not recursive. -/
def removeDirectory (path : Path) (disk : Disk V) : Except String (Disk V) :=
  match disk.find path with
  | some (q, .dir) =>
    match disk.erase q with
    | some disk => .ok disk
    | none => .error "The directory is not empty."
  | _ => .error notFoundText

/-- A directory is removed if it is empty, and counted. -/
def pruneDirectory (seams : FinalizationSeams) (pruned : Nat) (directory : Path) : Prog (Site V P) (Thrown ε) Nat := do
  let removed ← result (changeTree seams.toSeams [.pruned directory] (removeDirectory directory))
  match removed with
  | .ok () => return pruned + 1
  | .error (_ : String) => return pruned

/-- `delete_empty_directories`. -/
def deleteEmptyDirectories (seams : FinalizationSeams) (root : Path) : Prog (Site V P) (Thrown ε) Nat := do
  let s ← Prog.get
  let directories ← visitFrom seams root (s.disk.entries.length + 2) ⟨[], [root]⟩
  Prog.foldEach (pruneDirectory seams) 0 (longestFirst directories)

/-- `prune_empty_directories`. -/
def pruneEmptyDirectories (seams : FinalizationSeams) : List Path → Prog (Site V Finalization) (Thrown ε) Unit
  | [] => return ()
  | root :: roots => do
    let cancelled ← isCancelled seams
    if cancelled then modifyAccount fun account => { account with cancelled := true }
    else do
      let pruned ← deleteEmptyDirectories seams root
      if hpruned : pruned ≠ 0 then
        recordMutation ⟨root, root, .emptyDirectoryPruning, .committed, pruned, Nat.pos_of_ne_zero hpruned⟩
      pruneEmptyDirectories seams roots

/-! ## After the plan -/

/-- The allowance the remaining Mod Roots still need. -/
def remainingDemand (plan : FinalizationPlan) (roots : List Path) : Prog (Site V P) (Thrown ε) Demand :=
  Prog.foldEach (fun demand later => do
    let required ← dummyCapacityOf plan later
    return demand.add later required) Demand.empty roots

/-- The plugin allowance of the first remaining Mod Root is rechecked, if it has any. -/
def recheckPlugins (seams : FinalizationSeams) (plan : FinalizationPlan) (root : Path) (later : List Path) :
    Prog (Site V P) (Thrown ε) (Option CapacityShortage) := do
  let required ← dummyCapacityOf plan root
  if required = 0 then return none
  else do
    let remaining ← remainingDemand plan (root :: later)
    let n ← nextCall
    return seams.recheck n remaining.roots root

/-- The loop of `maintain_and_prune`: whether pruning may follow. -/
def maintainRoots (seams : FinalizationSeams) (settings : Settings) (plan : FinalizationPlan) :
    List Path → Prog (Site V Finalization) (Thrown Escape) Bool
  | [] => return true
  | root :: later => do
    let cancelled ← isCancelled seams
    if cancelled then
      modifyAccount fun account => { account with cancelled := true }
      return true
    else do
      let short ← recheckPlugins seams plan root later
      match short with
      | some shortage => do
        recordShortage seams shortage none
        return false
      | none => do
        let cancelled ← isCancelled seams
        if cancelled then
          modifyAccount fun account => { account with cancelled := true }
          return true
        else do
          let maintained ← orWork (maintainExistingLoadingPlugins seams settings plan root)
          if maintained then maintainRoots seams settings plan later else return false

/-- `maintain_and_prune`. -/
def maintainAndPrune (seams : FinalizationSeams) (settings : Settings) (plan : FinalizationPlan) :
    Prog (Site V Finalization) (Thrown Escape) Unit := do
  let finished ← maintainRoots seams settings plan plan.roots
  let phase ← getProgress
  if finished && !phase.account.cancelled then pruneEmptyDirectories seams plan.roots else return ()

/-- The loop over the outputs of `finalize_plan`: whether more may follow it. -/
def attemptOutputs (seams : FinalizationSeams) (plan : FinalizationPlan) (dummies : Demand) :
    List FinalizationOutput → Prog (Site V Finalization) (Thrown Escape) Bool
  | [] => return true
  | output :: outputs => do
    let cancelled ← isCancelled seams
    if cancelled then
      modifyAccount fun account => { account with cancelled := true }
      return true
    else do
      let attempt ← attemptOutput seams plan output dummies
      let rejected : Bool := attempt.outcome.failureCategory = some .insufficientCapacity
      if !rejected then
        modifyAccount fun account => { account with safeToContinue := attempt.outcome.safeToContinue }
      recordAttempt seams attempt
      let phase ← getProgress
      if rejected then return false
      else if !phase.account.safeToContinue then return true
      else attemptOutputs seams plan dummies outputs

/-- How the maintenance pass of `finalize_plan` ended. -/
def endMaintenance : Except (Thrown Escape) Unit → Prog (Site V Finalization) (Thrown Escape) Unit
  | .ok () => return ()
  | .error (.error (.evidence detail)) => failWith (.evidence detail)
  | .error (.error (.work detail)) => do
    modifyAccount fun account => { account with safeToContinue := false }
    failPhase (.new .unexpectedException detail)
  | .error (.panic message) => do
    modifyAccount fun account => { account with safeToContinue := false }
    failPhase (.new .unexpectedException message)

/-- What follows the outputs of `finalize_plan`. -/
def finishPlan (seams : FinalizationSeams) (settings : Settings) (plan : FinalizationPlan) :
    Prog (Site V Finalization) (Thrown Escape) Unit := do
  let phase ← getProgress
  let cancelled ← if phase.account.cancelled then pure true else isCancelled seams
  modifyAccount fun account => { account with cancelled }
  if cancelled || !phase.account.safeToContinue then return ()
  else do
    let cleanup ← catchUnwind (maintainAndPrune seams settings plan)
    endMaintenance cleanup

/-- `finalize_plan`. -/
def finalizePlan (seams : FinalizationSeams) (settings : Settings) (plan : FinalizationPlan) :
    Prog (Site V Finalization) (Thrown Escape) Unit := do
  let cancelled ← isCancelled seams
  if cancelled then modifyAccount fun account => { account with cancelled := true }
  else do
    let demand ← creationDemand plan
    let n ← nextCall
    match seams.check n demand.phase.roots with
    | some shortage =>
      recordShortage seams shortage
        ((plan.outputs.find? fun output => output.modRoot = shortage.root).map FinalizationOutput.archivePath)
    | none => do
      let goesOn ← attemptOutputs seams plan demand.dummies plan.outputs
      if goesOn then finishPlan seams settings plan else return ()

/-! ## The phase -/

/-- What the phase reads of `RunPreparation`: the Mod Roots, the Packing Exclusions, and whether Archive creation is
requested. -/
structure RunPreparation where
  modRoots : List Path
  packingExclusions : List Text
  archiveCreation : Bool
  deriving DecidableEq, Repr

/-- `packing_exclusions`. -/
def packingExclusions (lowercase : Text → Text) (preparation : RunPreparation) : List Text :=
  preparation.packingExclusions.map fun rule => lowercase (rule.map fun c => if c = '\\' then '/' else c)

/-- What planning is given. -/
def FinalizationRequest.prepared (request : FinalizationRequest) (preparation : RunPreparation) : FinalizationRequest :=
  { request with filesToNotPack := packingExclusions request.lowercase preparation }

/-- `run_phase`. -/
def runPhase (seams : FinalizationSeams) (request : FinalizationRequest) (preparation : RunPreparation) :
    Prog (Site V Finalization) (Thrown Escape) Unit :=
  if preparation.archiveCreation then do
    let planned ← result (planFinalization seams (request.prepared preparation) preparation.modRoots)
    match planned with
    | .ok plan => do
      evidenceFact seams
      finalizePlan seams request.settings plan
    | .error .cancelled => modifyAccount fun account => { account with cancelled := true }
    | .error (.failed detail) => failWith (.work detail)
  else do
    evidenceFact seams
    pruneEmptyDirectories seams preparation.modRoots

/-- `phase.finish(account)`. -/
def finishPhase (seams : FinalizationSeams) : Prog (Site V Finalization) String Unit := do
  let n ← nextCall
  match seams.evidence n with
  | .ok () => return ()
  | .error detail => Prog.fail detail

/-- A phase that escaped is finished as an unexpected failure. -/
def escaped (seams : FinalizationSeams) (detail : String) : Prog (Site V Finalization) String Unit := do
  failPhase (.new .unexpectedException detail)
  modifyAccount fun account => { account with safeToContinue := false }
  finishPhase seams

/-- `finalize_archives`. -/
def finalizeArchives (seams : FinalizationSeams) (request : FinalizationRequest) (preparation : RunPreparation) :
    Prog (Site V Finalization) String Unit := do
  modifyAccount fun _ => .default
  let outcome ← catchUnwind (runPhase seams request preparation)
  match outcome with
  | .ok () => finishPhase seams
  | .error (.error (.evidence detail)) => Prog.fail detail
  | .error (.error (.work detail)) => escaped seams detail
  | .error (.panic message) => escaped seams message

end Cao.Finalize
