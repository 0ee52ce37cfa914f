import Cao.Asset.Execute
import Cao.Capacity.Preview
import Cao.Evidence.Store

/-!
# A run under its executor

What one Optimization Run holds while the Run Executor drives it (`run/executor.rs`), and what each of its seams may do.

* `RunRequest`, `Preparation`, `Flow`: what the phases are given and hand on;
* `Effect`, `RunEvent`: what may change the file system, and what happened;
* `Run`, `RunSeams`: the state of a run, and the behaviour of every call, by its number;
* `Running`: a step of the run, which may be refused by Run Evidence, escape or panic;
* `recording`, `onSite`, `mutating`: the evidence, the Asset attempts and every other effect.
-/

namespace Cao.Evidence

/-- `RunFailure::new`. -/
def RunFailure.new (code : RunFailureCode) (phase : RunPhase) (detail : String) : RunFailure :=
  ⟨code, phase, detail, [], none⟩

end Cao.Evidence

namespace Cao.Executor

open Routing Capacity Asset
open Evidence (MutableRunEvidence Recording RunObservationSink RunPhase RunDiagnostic PhaseAttempt)
open Finalize (FinalizationPlan FinalizationOutput PlanningStop ArchiveFinalizationAttempt ArchiveFinalizationAccount
  ArchiveFinalizationMutation)

/-! ## What the phases are given and hand on -/

/-- What the executor reads of `RunRequest`. -/
structure RunRequest where
  executionMode : ExecutionMode
  requestedWork : List RequestedWork
  archiveExtraction : SourceCleanup
  deriving DecidableEq, Repr

/-- `RunRequest::has_requested_work`. -/
def RunRequest.hasRequestedWork (request : RunRequest) : Bool := !request.requestedWork.isEmpty

/-- What the executor reads of `SelectedProfile`. `RoutingPolicy::compile` finds conflicts between the requested work
and the profile's capabilities, or whether Textures are converted and the Archive extension. -/
structure SelectedProfile where
  packingExclusions : List Text
  compiled : List RequestedWork → Option (Bool × Text)

/-- `compile_policy`. -/
def SelectedProfile.compilePolicy (profile : SelectedProfile) (request : RunRequest) : Option RoutingPolicy :=
  (profile.compiled request.requestedWork).map fun compiled =>
    { executionMode := request.executionMode
      work := request.requestedWork
      convertsTextures := compiled.1
      archiveExtension := compiled.2 }

/-- What the executor reads of `RunToolset` beside its seams. -/
structure RunToolset where
  mode : ExecutionMode
  deriving DecidableEq, Repr

/-- `RunPreparation`: the policy, and what Run Evidence retains. -/
structure Preparation where
  policy : RoutingPolicy
  facts : Finalize.RunPreparation
  deriving DecidableEq, Repr

/-- `Stop`. -/
inductive Stop
  | halted
  | backendCancelled
  deriving DecidableEq, Repr

/-- `ControlFlow<Stop, T>`. -/
inductive Flow (α : Type)
  | proceed (value : α)
  | stopped (stop : Stop)
  deriving DecidableEq, Repr

/-- `Error`, as the run's work returns it. -/
inductive WorkError
  | evidenceInvariant (message : String)
  | other (message : String)
  deriving DecidableEq, Repr

/-- The text of an error. -/
def WorkError.text : WorkError → String
  | evidenceInvariant message => "Run Evidence invariant violated: " ++ message
  | other message => message

/-! ## Events -/

/-- A step of the run, outside Asset attempts, that may change the file system. -/
inductive Effect
  | prepareRoot
  | extractArchive
  | attemptOutput
  | maintainLoadingPlugins
  | pruneEmptyDirectories
  deriving DecidableEq, Repr

/-- What happened in a run. -/
inductive RunEvent
  /-- A phase's entry was offered to Run Evidence. -/
  | entered (phase : RunPhase)
  | invoked (effect : Effect)
  /-- An event of an Asset attempt. -/
  | asset (event : AssetEvent)
  /-- An attempt ended with its result. -/
  | attempted (attempt : PhaseAttempt)
  /-- The registry's cleanup ran over so many registered paths. -/
  | cleanedUp (owned : Nat)
  /-- The injected cleanup service ran. -/
  | serviced
  /-- The evidence was consumed. -/
  | consumed
  deriving DecidableEq, Repr

/-- Whether an event may change the file system. -/
def RunEvent.mutates : RunEvent → Bool
  | invoked _ => true
  | asset (.invoked _) | asset (.published ..) | asset (.removed ..) | asset (.quarantined ..) => true
  | cleanedUp owned => owned ≠ 0
  | _ => false

/-- `PhaseAttempt`'s verdict. -/
def safeToContinue : PhaseAttempt → Bool
  | .extraction attempt => attempt.outcome.safeToContinue
  | .asset attempt => attempt.result.outcome.safeToContinue
  | .finalization attempt => attempt.outcome.safeToContinue

/-! ## The state of a run -/

variable {K : Type} {V : Volume K} {table : UpcaseTable} {ε α β : Type}

/-- A run: its evidence, the site of its Asset attempts, how many other paths its registry holds, the account of Archive
Finalization, the violation it deferred, every refusal by Run Evidence and what happened. -/
structure Run {K : Type} (volume : Volume K) where
  evidence : MutableRunEvidence
  site : AssetSite volume
  owned : Nat
  account : ArchiveFinalizationAccount
  invariant : Option String
  refused : List String
  calls : Nat
  log : List RunEvent

/-- A run that begins over a tree. -/
def Run.start (tree : AssetTree V) : Run V where
  evidence := .new
  site := ⟨tree, [], 0, []⟩
  owned := 0
  account := .default
  invariant := none
  refused := []
  calls := 0
  log := []

/-! ## Seams -/

/-- What a walk of one Mod Root meets: excluded links, regular files, and whether cancellation let it finish. -/
structure Visit where
  excluded : List (Path × String)
  files : List Path
  complete : Bool
  deriving DecidableEq, Repr

/-- `Preflight`. -/
inductive Preflight
  | failed (failure : Evidence.RunFailure)
  | cancelled
  | planned (plans : List ArchiveExtractionPlan) (collisions : List ArchiveCollision)
      (capacityWarning : Option RunDiagnostic)

/-- What a mutating step leaves: its tree, and how many more paths the registry holds. -/
structure Aftermath {K : Type} (volume : Volume K) where
  tree : AssetTree volume
  registered : Nat

/-- What each step of Archive Finalization comes to, by the number of its call: an answer, or the message of a panic. -/
structure FinalizationSteps where
  plan : Nat → Except (Thrown PlanningStop) FinalizationPlan
  check : Nat → FinalizationPlan → Except String Capacity.CapacityVerdict
  /-- The effects outside the attempt, and the attempt. -/
  attemptOutput : Nat → FinalizationOutput → List ArchiveFinalizationMutation × Except String ArchiveFinalizationAttempt
  recheck : Nat → FinalizationPlan → Path → Except String (Option CapacityShortage)
  /-- What the account becomes, and whether the Mod Root's plugins were maintained. -/
  maintain : Nat → Path → ArchiveFinalizationAccount → ArchiveFinalizationAccount × Except (Thrown String) Bool
  prune : Nat → Path → Except String Nat
  planCreation : Nat → Preparation → Except String CreationPlanning

/-- The behaviour of everything beneath the executor, by the number of the call. -/
structure RunSeams {K : Type} (volume : Volume K) (table : UpcaseTable) where
  checks : OverflowChecks
  debugAssertions : Bool
  sink : Option RunObservationSink
  lowercase : Text → Text
  /-- What a sample of the token shows. -/
  cancelled : Nat → Bool
  configuration : Option (Nat → Except (Thrown String) (SelectedProfile × RunToolset))
  /-- The Mod Exclusions found, and the Mod Roots. -/
  resolveModRoots : Nat → List RunDiagnostic × Except (Thrown Evidence.RunFailure) (List Path)
  prepareRoot : Nat → Path → Except (Thrown String) (Option Evidence.RunFailure)
  visit : Nat → Path → Except String Visit
  preflight : Nat → List (RootArchives table) → Except String Preflight
  extractArchive : Nat → ArchiveExtractionPlan → SourceCleanup → Except String ArchiveExtractionResult
  /-- `weakly_canonical`. -/
  weaklyCanonical : Nat → Path → Option Path
  asset : AssetSeams
  backend : AssetBackend
  creation : Nat → Option (Except String BackendCreation)
  finalization : FinalizationSteps
  /-- The registry's cleanup: the paths it could not remove, with details. -/
  cleanup : Nat → Except String (List (Path × String))
  aftermath : Nat → AssetTree volume → Aftermath volume

/-! ## Steps -/

/-- A step of the run's work. -/
abbrev Running {K : Type} (V : Volume K) (α : Type) := Prog (Run V) (Thrown WorkError) α

/-- The number of a call. -/
def nextCall : Prog (Run V) ε Nat := fun run => (.done run.calls, { run with calls := run.calls + 1 })

/-- An event. -/
def mark (event : RunEvent) : Prog (Run V) ε Unit := Prog.modify fun run => { run with log := run.log ++ [event] }

/-- `stop.is_cancelled()`. -/
def isCancelled (seams : RunSeams V table) : Prog (Run V) ε Bool := do
  let n ← nextCall
  return seams.cancelled n

/-- A panic. -/
def panicked (message : String) : Running V α := Prog.fail (.panic message)

/-- What an answer comes to. -/
def answered : Except String α → Running V α
  | .ok a => pure a
  | .error message => panicked message

/-- A call that changes nothing. -/
def call (f : Nat → Except String α) : Running V α := do
  let n ← nextCall
  answered (f n)

/-- A `Vec` never holds more than a `usize` counts. -/
def countOf (l : List α) : Running V UInt64 :=
  if h : l.length < u64Size then pure (.ofNatLT l.length h) else panicked "capacity overflow"

/-- A step that may change the file system. -/
def mutating (seams : RunSeams V table) (effect : Effect) : Prog (Run V) ε Nat := do
  mark (.invoked effect)
  let n ← nextCall
  Prog.modify fun run =>
    let aftermath := seams.aftermath n run.site.tree
    { run with site := { run.site with tree := aftermath.tree }, owned := run.owned + aftermath.registered }
  return n

/-- An operation on the evidence. -/
def recording (x : Recording α) : Running V α := fun run =>
  match x run.evidence with
  | (.done a, evidence) => (.done a, { run with evidence })
  | (.fail (.error message), evidence) =>
    (.fail (.error (.evidenceInvariant message)), { run with evidence, refused := run.refused ++ [message] })
  | (.fail (.panic message), evidence) => (.fail (.panic message), { run with evidence })
  | (.crash, evidence) => (.crash, { run with evidence })

/-- The entry of a phase. -/
def enter (phase : RunPhase) (x : Recording Unit) : Running V Unit := do
  mark (.entered phase)
  recording x

/-- A program of the Asset attempts, with what it reported. -/
def onSite (x : Prog (AssetSite V) Empty α) : Running V (α × List AssetEvent) := fun run =>
  match x { run.site with log := [] } with
  | (.done a, site) =>
    (.done (a, site.log), { run with site := { site with log := [] }, log := run.log ++ site.log.map .asset })
  | (.fail e, _) => e.elim
  | (.crash, _) => (.crash, run)

/-- A step is taken unless cancellation shows. -/
def unlessCancelled (seams : RunSeams V table) (x : Running V (Flow α)) : Running V (Flow α) := do
  let cancelled ← isCancelled seams
  if cancelled then return .stopped .halted else x

/-- Work that goes on from what a phase hands over, unless it stopped. -/
def Flow.andThen (x : Running V (Flow α)) (f : α → Running V (Flow β)) : Running V (Flow β) := do
  match ← x with
  | .proceed a => f a
  | .stopped stop => return .stopped stop

/-- `DeferredInvariant::note`. -/
def note (x : Running V Unit) : Running V Unit := do
  match ← Prog.attempt x with
  | .ok () => return ()
  | .error (.error e) => Prog.modify fun run => { run with invariant := some (run.invariant.getD e.text) }
  | .error (.panic message) => panicked message

end Cao.Executor
