import Cao.Executor.Execute
import Cao.Lib.Trace

/-!
# The Optimization Run Service

How runs are started, executed and committed (`run/service.rs`), with each section under a lock as one atomic step.

* `RunEvent`, `Published`: the events of a run, and what it publishes for snapshots and waiters;
* `Task`, `RunShared.perform`: the sections of one observation: the state first, then the dispatcher;
* `Stage`, `RunShared.proceed`: the Run Worker, from admission to exit, with its panics and a worker that never starts;
* `RunService`, `Step`: the process's active slot and its runs, with the clients' calls, in any order.
-/

namespace Cao.Service

open Evidence (RunPhase RunPhaseRecord RunProgress RunDiagnostic)
open Executor (OptimizationRunResult)

/-! ## What a run shares -/

/-- `RunEventPayload`. -/
inductive RunEventPayload
  | phase (record : RunPhaseRecord)
  | failure (failure : Evidence.RunFailure)
  | diagnostic (diagnostic : RunDiagnostic)
  | terminal (result : OptimizationRunResult)
  deriving DecidableEq

/-- The event of Safety Cleanup. -/
def safetyCleanup : RunEventPayload := .phase (.executed .safetyCleanup none)

/-- An event that neither Safety Cleanup nor the end of a run is published by. -/
def RunEventPayload.isWork : RunEventPayload → Bool
  | phase record => record.phase ≠ .safetyCleanup
  | failure _ | diagnostic _ => true
  | terminal _ => false

/-- `RunEvent`, of one run. -/
structure RunEvent where
  sequence : Nat
  payload : RunEventPayload
  deriving DecidableEq

/-- `Published`. -/
structure Published where
  phase : RunPhase
  workPhase : RunPhase
  progress : Option RunProgress
  diagnostics : List RunDiagnostic
  failureCount : Nat
  result : Option OptimizationRunResult
  terminalDispatched : Bool
  deriving DecidableEq

/-- The state of `record_phase`, `record_failure` and `record_diagnostic`; a terminal result is `commit`'s. -/
def Published.record (published : Published) : RunEventPayload → Published
  | .phase record =>
    { published with
      phase := record.phase
      progress := record.progress
      workPhase := if record.phase ≠ .safetyCleanup then record.phase else published.workPhase }
  | .failure _ => { published with failureCount := published.failureCount + 1 }
  | .diagnostic diagnostic => { published with diagnostics := published.diagnostics ++ [diagnostic] }
  | .terminal _ => published

/-- A section that the Run Worker owes before it goes on. -/
inductive Task
  | publish (payload : RunEventPayload)
  | dispatch (payload : RunEventPayload)
  | noteDispatcherFailure (detail : String)
  deriving DecidableEq

/-- One call of the `RunObservationSink`: the state is published before its event is dispatched. -/
def observe (payload : RunEventPayload) : List Task := [.publish payload, .dispatch payload]

/-- Where the Run Worker is. -/
inductive Stage
  /-- The run holds the slot, and its worker is being scheduled. -/
  | admitted
  /-- In the executor, before Safety Cleanup. -/
  | working
  /-- Safety Cleanup is entered, and the injected service not yet called. -/
  | cleaning
  /-- Safety Cleanup is done, and the evidence not yet sealed. -/
  | sealing
  /-- A panic was caught on the worker. -/
  | escaped (detail : String)
  /-- In `terminal_failure`, before its cleanup pass. -/
  | failing
  | sealed (result : OptimizationRunResult)
  /-- The result is published, and the terminal event due. -/
  | committed
  /-- The dispatcher is dropped. -/
  | released
  /-- The waiters are released. -/
  | finished
  /-- The worker's reference is dropped. -/
  | exited
  deriving DecidableEq

/-- `RunShared`: what one run shares between its worker and its handle, with the worker's own place. -/
structure RunShared where
  cancelled : Bool
  /-- Whether the injected cleanup service was called. -/
  performed : Bool
  published : Published
  /-- Whether a dispatcher is attached. -/
  dispatcher : Bool
  sequence : Nat
  /-- Whether the start, and later the handle, holds the run. -/
  handle : Bool
  stage : Stage
  tasks : List Task
  /-- The events numbered, whether or not a dispatcher was left for them. -/
  numbered : List RunEventPayload
  /-- The events the dispatcher was called with. -/
  delivered : List RunEvent
  deriving DecidableEq

namespace RunShared

/-- A run just admitted. -/
def admitted (dispatcher : Bool) : RunShared where
  cancelled := false
  performed := false
  published := ⟨.preparing, .preparing, none, [], 0, none, false⟩
  dispatcher
  sequence := 0
  handle := true
  stage := .admitted
  tasks := []
  numbered := []
  delivered := []

/-- `strong_count`, as far as it is asked for: the worker or the handle holds the run. -/
def isHeld (run : RunShared) : Bool := run.stage ≠ .exited || run.handle

/-- `dispatch`, under its lock; a dispatcher that panics is disabled, and its failure noted afterwards. -/
def dispatch (run : RunShared) (payload : RunEventPayload) (panicked : Option String) : RunShared :=
  let run := { run with sequence := run.sequence + 1, numbered := run.numbered ++ [payload] }
  if run.dispatcher then
    let run := { run with delivered := run.delivered ++ [⟨run.sequence, payload⟩] }
    match panicked with
    | none => run
    | some detail => { run with dispatcher := false, tasks := .noteDispatcherFailure detail :: run.tasks }
  else run

/-- One section that was owed; `panicked` is what the dispatcher panics with, if it is called and does. -/
def perform (run : RunShared) (panicked : Option String) : Task → RunShared
  | .publish payload => { run with published := run.published.record payload }
  | .dispatch payload => run.dispatch payload panicked
  | .noteDispatcherFailure detail =>
    { run with published := run.published.record (.diagnostic (.new .dispatcherFailed run.published.phase detail)) }

/-- The failure of a run whose work escaped. -/
def escapedFailure (run : RunShared) (detail : String) : Evidence.RunFailure :=
  .new .runWorkEscaped run.published.workPhase detail

end RunShared

/-- What the Run Worker does next, where it owes nothing. -/
inductive Move
  | spawned
  /-- The scheduler starts nothing. -/
  | spawnFailed (detail : String)
  /-- The work publishes a fact. -/
  | observe (payload : RunEventPayload)
  /-- Safety Cleanup is recorded, and published unless Run Evidence refuses it. -/
  | enterCleanup (accepted : Bool)
  | performCleanup
  /-- A panic reaches the worker. -/
  | escape (detail : String)
  /-- The evidence is sealed: returned, or carried by `RunEvidenceInvariantPanic`. -/
  | sealResult (result : OptimizationRunResult)
  /-- `terminal_failure` of a panic, with the result it seals where there is no cleanup left to do. -/
  | fail (result : OptimizationRunResult)
  | commit
  | releaseDispatcher
  | signal
  | exit
  deriving DecidableEq

namespace RunShared

/-- `terminal_failure` with a cleanup pass: its failure and Safety Cleanup are published first. -/
def failPublicly (run : RunShared) (failure : Evidence.RunFailure) : RunShared :=
  { run with stage := .failing, tasks := Service.observe (.failure failure) ++ Service.observe safetyCleanup }

/-- The Run Worker, between two sections: `execute`, `commit_scheduling_failure` and `commit`. -/
def proceed (run : RunShared) (move : Move) : Option RunShared :=
  match run.stage, move with
  | .admitted, .spawned => some { run with stage := .working }
  | .admitted, .spawnFailed detail => some (run.failPublicly (.new .schedulingFailed .preparing detail))
  | .working, .observe payload => if payload.isWork then some { run with tasks := Service.observe payload } else none
  | .working, .enterCleanup accepted =>
    some { run with stage := .cleaning, tasks := if accepted then Service.observe safetyCleanup else [] }
  | .working, .escape detail => some { run with stage := .escaped detail }
  | .cleaning, .performCleanup => some { run with stage := .sealing, performed := true }
  | .sealing, .sealResult result => some { run with stage := .sealed result }
  | .sealing, .escape detail => some { run with stage := .escaped detail }
  | .escaped detail, .fail result =>
    -- Nothing but the terminal event follows a Safety Cleanup that was performed.
    if run.performed then some { run with stage := .sealed result }
    else some (run.failPublicly (run.escapedFailure detail))
  | .failing, .sealResult result => some { run with stage := .sealed result, performed := true }
  | .sealed result, .commit =>
    some
      { run with
        stage := .committed
        published := { run.published with result := some result }
        tasks := [.dispatch (.terminal result)] }
  | .committed, .releaseDispatcher => some { run with stage := .released, dispatcher := false }
  | .released, .signal =>
    some { run with stage := .finished, published := { run.published with terminalDispatched := true } }
  | .finished, .exit => some { run with stage := .exited }
  | _, _ => none

end RunShared

/-! ## The service -/

/-- What `start` inspects of a Run Request. -/
structure RunRequest where
  profileIdentity : Text
  modSelectionDirectory : Path
  deriving DecidableEq, Repr

/-- `StartError`. -/
inductive StartError
  | missingProfileIdentity
  | missingModSelectionDirectory
  | activeRun
  deriving DecidableEq, Repr

/-- `ACTIVE_RUN`, by the number of its run, and every run started. -/
structure RunService where
  slot : Option Nat
  runs : List RunShared
  deriving DecidableEq

namespace RunService

/-- Before any start. -/
def idle : RunService := ⟨none, []⟩

/-- Whether the slot's run is still held by anyone. -/
def occupied (s : RunService) : Bool := s.slot.any fun i => s.runs[i]?.any RunShared.isHeld

/-- `start`, up to the worker's scheduling. -/
def start (s : RunService) (request : RunRequest) (dispatcher : Bool) : Except StartError RunService :=
  if request.profileIdentity = [] then .error .missingProfileIdentity
  else if request.modSelectionDirectory = [] then .error .missingModSelectionDirectory
  else if s.occupied then .error .activeRun
  else .ok ⟨some s.runs.length, s.runs ++ [.admitted dispatcher]⟩

/-- A run changes. -/
def setRun (s : RunService) (i : Nat) (run : RunShared) : RunService := { s with runs := s.runs.set i run }

end RunService

/-- The calls of the clients, and the sections of the Run Workers. -/
inductive Label
  | start (request : RunRequest) (dispatcher : Bool)
  | cancel (i : Nat)
  /-- A snapshot, `terminal_result`, `diagnostics` or `wait`. -/
  | poll (i : Nat)
  /-- The handle is dropped, after its join. -/
  | dropHandle (i : Nat)
  /-- A section that the worker owes. -/
  | task (i : Nat) (panicked : Option String)
  | move (i : Nat) (move : Move)
  deriving DecidableEq

/-- One step. `commit` publishes the result and frees the slot in one section. -/
def Step : Label → RunService → RunService → Prop
  | .start request dispatcher, s, s' =>
    (∃ e, s.start request dispatcher = .error e ∧ s' = s) ∨ s.start request dispatcher = .ok s'
  | .cancel i, s, s' => ∃ run, s.runs[i]? = some run ∧ s' = s.setRun i { run with cancelled := true }
  | .poll i, s, s' => i < s.runs.length ∧ s' = s
  | .dropHandle i, s, s' => ∃ run, s.runs[i]? = some run ∧ run.stage = .exited ∧
      s' = s.setRun i { run with cancelled := true, handle := false }
  | .task i panicked, s, s' => ∃ run task tasks, s.runs[i]? = some run ∧ run.tasks = task :: tasks ∧
      s' = s.setRun i ({ run with tasks }.perform panicked task)
  | .move i move, s, s' => ∃ run run', s.runs[i]? = some run ∧ run.tasks = [] ∧ run.proceed move = some run' ∧
      s' = { s.setRun i run' with slot := if move = .commit ∧ s.slot = some i then none else s.slot }

end Cao.Service
