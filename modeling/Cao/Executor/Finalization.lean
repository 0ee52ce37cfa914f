import Cao.Executor.Run

/-!
# Archive Finalization in a run

The phase of `run/finalization/mod.rs` over the run's evidence: what it offers the evidence, when it stops and how its
account ends. Each of its steps on disk is one answer here; `Cao.Finalize` models what they do.

* `recordAttempt`, `recordShortage`, `failAccount`: what the phase records;
* `pruneRoots`, `maintainRoots`, `maintainAndPrune`, `attemptOutputs`, `finalizePlan`: what follows a plan;
* `runPhase`, `finalizeArchives`: the phase.
-/

namespace Cao.Executor

open Routing Capacity
open Evidence (PhaseAttempt)
open Finalize (FinalizationPlan FinalizationOutput ArchiveFinalizationAttempt ArchiveFinalizationAccount
  ArchiveFinalizationFailure)

variable {K : Type} {V : Volume K} {table : UpcaseTable} {ε : Type}

/-! ## The account -/

/-- The account of the phase changes. -/
def modifyAccount (f : ArchiveFinalizationAccount → ArchiveFinalizationAccount) : Prog (Run V) ε Unit :=
  Prog.modify fun run => { run with account := f run.account }

/-- The account of the phase. -/
def getAccount : Prog (Run V) ε ArchiveFinalizationAccount := fun run => (.done run.account, run)

/-- The account observes cancellation. -/
def cancelAccount : Prog (Run V) ε Unit := modifyAccount fun account => { account with cancelled := true }

/-- `ArchiveFinalizationAccount::fail`. -/
def failAccount (failure : OperationFailure ArchiveFinalizationFailure) : Prog (Run V) ε Unit :=
  modifyAccount fun account => { account with failure := some failure }

/-- An escaped failure gives no boundary for further effects. -/
def escapeAccount (detail : String) : Prog (Run V) ε Unit := do
  failAccount (.new .unexpectedException detail)
  modifyAccount fun account => { account with safeToContinue := false }

/-! ## What the phase records -/

/-- `AttemptPhaseHandle::record`, of an attempt that ended. -/
def recordAttempt (seams : RunSeams V table) (attempt : PhaseAttempt) : Running V Unit := do
  mark (.attempted attempt)
  recording (Evidence.recordAttemptProgress seams.checks seams.sink attempt)

/-- `record_shortage`. -/
def recordShortage (seams : RunSeams V table) (shortage : CapacityShortage) (archive : Option Path) : Running V Unit :=
  let failure := OperationFailure.fromCapacityShortage .insufficientCapacity shortage
  match archive with
  | none => failAccount failure
  | some archive => recordAttempt seams (.finalization ⟨archive, shortage.root, .failed failure .none true⟩)

/-! ## After the outputs -/

/-- `prune_empty_directories`. -/
def pruneRoots (seams : RunSeams V table) : List Path → Running V Unit
  | [] => return ()
  | root :: roots => do
    let cancelled ← isCancelled seams
    if cancelled then cancelAccount
    else do
      let n ← mutating seams .pruneEmptyDirectories
      let pruned ← answered (seams.finalization.prune n root)
      modifyAccount fun account =>
        if hpruned : pruned = 0 then account
        else
          { account with
            mutations := account.mutations ++
              [⟨root, root, .emptyDirectoryPruning, .committed, pruned, Nat.pos_of_ne_zero hpruned⟩] }
      pruneRoots seams roots

/-- `maintain_existing_loading_plugins`. -/
def maintainLoadingPlugins (seams : RunSeams V table) (root : Path) : Running V Bool := do
  let n ← mutating seams .maintainLoadingPlugins
  let account ← getAccount
  modifyAccount fun _ => (seams.finalization.maintain n root account).1
  match (seams.finalization.maintain n root account).2 with
  | .ok maintained => return maintained
  | .error (.error detail) => Prog.fail (.error (.other detail))
  | .error (.panic message) => panicked message

/-- The loop of `maintain_and_prune`: whether pruning may follow. -/
def maintainRoots (seams : RunSeams V table) (plan : FinalizationPlan) : List Path → Running V Bool
  | [] => return true
  | root :: later => do
    let cancelled ← isCancelled seams
    if cancelled then do
      cancelAccount
      return true
    else do
      match ← call fun n => seams.finalization.recheck n plan root with
      | some shortage => do
        recordShortage seams shortage none
        return false
      | none => do
        let cancelled ← isCancelled seams
        if cancelled then do
          cancelAccount
          return true
        else do
          let maintained ← maintainLoadingPlugins seams root
          if maintained then maintainRoots seams plan later else return false

/-- `maintain_and_prune`. -/
def maintainAndPrune (seams : RunSeams V table) (plan : FinalizationPlan) : Running V Unit := do
  let finished ← maintainRoots seams plan plan.roots
  let account ← getAccount
  if finished && !account.cancelled then pruneRoots seams plan.roots else return ()

/-- How the maintenance pass of `finalize_plan` ended. -/
def endMaintenance : Except (Thrown WorkError) Unit → Running V Unit
  | .ok () => return ()
  | .error (.error (.evidenceInvariant message)) => Prog.fail (.error (.evidenceInvariant message))
  | .error (.error (.other detail)) => escapeAccount detail
  | .error (.panic message) => escapeAccount message

/-! ## The outputs -/

/-- `attempt_output`. -/
def attemptOutput (seams : RunSeams V table) (output : FinalizationOutput) : Running V ArchiveFinalizationAttempt := do
  let n ← mutating seams .attemptOutput
  modifyAccount fun account =>
    { account with mutations := account.mutations ++ (seams.finalization.attemptOutput n output).1 }
  answered (seams.finalization.attemptOutput n output).2

/-- The loop over the outputs of `finalize_plan`: whether more may follow it. -/
def attemptOutputs (seams : RunSeams V table) : List FinalizationOutput → Running V Bool
  | [] => return true
  | output :: outputs => do
    let cancelled ← isCancelled seams
    if cancelled then do
      cancelAccount
      return true
    else do
      let attempt ← attemptOutput seams output
      let rejected : Bool := attempt.outcome.failureCategory = some .insufficientCapacity
      modifyAccount fun account =>
        if rejected then account else { account with safeToContinue := attempt.outcome.safeToContinue }
      recordAttempt seams (.finalization attempt)
      let account ← getAccount
      if rejected then return false
      else if !account.safeToContinue then return true
      else attemptOutputs seams outputs

/-- `account.cancelled || stop.is_cancelled()`. -/
def observesCancellation (seams : RunSeams V table) (observed : Bool) : Running V Bool :=
  if observed then return true else isCancelled seams

/-- What follows the outputs of `finalize_plan`. -/
def finishPlan (seams : RunSeams V table) (plan : FinalizationPlan) : Running V Unit := do
  let account ← getAccount
  let cancelled ← observesCancellation seams account.cancelled
  modifyAccount fun account => { account with cancelled }
  if cancelled || !account.safeToContinue then return ()
  else do
    let cleanup ← Prog.attempt (maintainAndPrune seams plan)
    endMaintenance cleanup

/-- What the check before creation comes to. -/
def checkCreation (seams : RunSeams V table) (plan : FinalizationPlan) : Running V (Option CapacityShortage) := do
  match ← call fun n => seams.finalization.check n plan with
  | .fits => return none
  | .failWork shortage => return some shortage
  | .failRun _ => panicked "Archive Finalization runs only in an Apply run"
  | .warn _ => panicked "Archive Finalization runs only in an Apply run"

/-- `finalize_plan`. -/
def finalizePlan (seams : RunSeams V table) (plan : FinalizationPlan) : Running V Unit := do
  let cancelled ← isCancelled seams
  if cancelled then cancelAccount
  else do
    match ← checkCreation seams plan with
    | some shortage =>
      recordShortage seams shortage
        ((plan.outputs.find? fun output => output.modRoot = shortage.root).map FinalizationOutput.archivePath)
    | none => do
      let goesOn ← attemptOutputs seams plan.outputs
      if goesOn then finishPlan seams plan else return ()

/-! ## The phase -/

/-- `ArchiveFinalizationHandle::plan`. -/
def planPhase (seams : RunSeams V table) (total : UInt64) : Running V Unit :=
  recording (Evidence.planArchiveFinalization seams.checks seams.sink total)

/-- `run_phase`. -/
def runPhase (seams : RunSeams V table) (preparation : Preparation) : Running V Unit :=
  if preparation.policy.requests .archiveCreation then do
    let n ← nextCall
    match seams.finalization.plan n with
    | .ok plan => do
      let total ← countOf plan.outputs
      planPhase seams total
      finalizePlan seams plan
    | .error (.error .cancelled) => cancelAccount
    | .error (.error (.failed detail)) => Prog.fail (.error (.other detail))
    | .error (.panic message) => panicked message
  else do
    planPhase seams 0
    pruneRoots seams preparation.facts.modRoots

/-- `ArchiveFinalizationHandle::finish`. -/
def finishPhase : Running V Unit := do
  let account ← getAccount
  recording (Evidence.finishArchiveFinalization account)

/-- A phase that escaped is finished as an unexpected failure. -/
def escaped (detail : String) : Running V Unit := do
  escapeAccount detail
  finishPhase

/-- `finalize_archives`. -/
def finalizeArchives (seams : RunSeams V table) (preparation : Preparation) : Running V Unit := do
  modifyAccount fun _ => .default
  match ← Prog.attempt (runPhase seams preparation) with
  | .ok () => finishPhase
  | .error (.error (.evidenceInvariant message)) => Prog.fail (.error (.evidenceInvariant message))
  | .error (.error (.other detail)) => escaped detail
  | .error (.panic message) => escaped message

end Cao.Executor
