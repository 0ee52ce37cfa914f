import Cao.Service.Protocol

/-!
# One active run, and one terminal event

What holds of the service and of each run after any steps of the clients and the workers.

* `Shaped`, **`shaped_proceed`**: work, then Safety Cleanup, then the terminal event;
* `Orderly`, **`orderly_perform`**, **`orderly_proceed`**: one run: its numbers, its result and its place;
* `Exclusive`, **`exclusive_step`**: the slot is of the one run without a result;
* **`service_protocol`**: all of it, after any run of steps.
-/

namespace Cao.Service

/-! ## The shape of a run's events -/

/-- The events that are due. -/
def Task.due : Task → Option RunEventPayload
  | dispatch payload => some payload
  | publish _ | noteDispatcherFailure _ => none

/-- The events numbered, and those that are due. -/
def RunShared.planned (run : RunShared) : List RunEventPayload := run.numbered ++ run.tasks.filterMap Task.due

/-- Before Safety Cleanup is entered, and no longer. -/
def RunShared.isOpen (run : RunShared) : Bool :=
  match run.stage with
  | .admitted | .working => true
  | .escaped _ => !run.performed
  | _ => false

/-- Work, then Safety Cleanup where it is published, then the terminal event once there is a result. -/
def Shaped (run : RunShared) : Prop :=
  ∃ work cleanup, (∀ payload ∈ work, payload.isWork = true) ∧ (cleanup = [] ∨ cleanup = [safetyCleanup]) ∧
    (run.isOpen = true → cleanup = []) ∧
      run.planned = work ++ cleanup ++ run.published.result.toList.map .terminal

/-- Whether the result is committed, by the worker's place. -/
def Stage.isCommitted : Stage → Bool
  | committed | released | finished | exited => true
  | _ => false

/-- Whether the waiters are released. -/
def Stage.isFinished : Stage → Bool
  | finished | exited => true
  | _ => false

/-- The events as they are numbered. -/
def numberedFrom : Nat → List RunEventPayload → List RunEvent
  | _, [] => []
  | n, payload :: payloads => ⟨n, payload⟩ :: numberedFrom (n + 1) payloads

/-- What holds of one run between two sections. -/
structure Orderly (run : RunShared) : Prop where
  shaped : Shaped run
  sequence : run.sequence = run.numbered.length
  delivered : run.delivered <+: numberedFrom 1 run.numbered
  all : run.dispatcher = true → run.delivered = numberedFrom 1 run.numbered
  committed : run.published.result.isSome = run.stage.isCommitted
  dispatched : run.published.terminalDispatched = run.stage.isFinished
  performed : run.stage = .sealing → run.performed = true
  idle : run.stage.isCommitted = true → run.stage ≠ .committed → run.tasks = []

variable {run run' : RunShared}

theorem numberedFrom_append (n : Nat) (payloads : List RunEventPayload) (payload : RunEventPayload) :
    numberedFrom n (payloads ++ [payload]) = numberedFrom n payloads ++ [⟨n + payloads.length, payload⟩] := by
  induction payloads generalizing n with
  | nil => rfl
  | cons first payloads ih =>
    show _ :: numberedFrom (n + 1) (payloads ++ [payload]) = _
    rw [ih, List.length_cons, Nat.add_assoc, Nat.add_comm 1]
    rfl

theorem orderly_admitted (dispatcher : Bool) : Orderly (.admitted dispatcher) where
  shaped := ⟨[], [], List.forall_mem_nil _, .inl rfl, fun _ => rfl, rfl⟩
  sequence := rfl
  delivered := List.nil_prefix
  all _ := rfl
  committed := rfl
  dispatched := rfl
  performed h := by cases h
  idle h := by cases h

/-! ## One section -/

theorem record_result (published : Published) (payload : RunEventPayload) :
    (published.record payload).result = published.result := by
  cases payload <;> rfl

theorem record_terminalDispatched (published : Published) (payload : RunEventPayload) :
    (published.record payload).terminalDispatched = published.terminalDispatched := by
  cases payload <;> rfl

/-- What is published of a fact changes neither the events nor the result. -/
theorem Orderly.publish {task : Task} {tasks : List Task} (h : Orderly run) (htasks : run.tasks = task :: tasks)
    (hdue : task.due = none) (payload : RunEventPayload) :
    Orderly { run with tasks, published := run.published.record payload } where
  shaped := by
    obtain ⟨work, cleanup, hwork, hcleanup, hopen, hplanned⟩ := h.shaped
    refine ⟨work, cleanup, hwork, hcleanup, hopen, ?_⟩
    have hsame : run.planned = run.numbered ++ tasks.filterMap Task.due := by
      unfold RunShared.planned
      rw [htasks, List.filterMap_cons_none hdue]
    dsimp only
    rw [record_result, ← hplanned, hsame]
    rfl
  sequence := h.sequence
  delivered := h.delivered
  all := h.all
  committed := (congrArg Option.isSome (record_result _ _)).trans h.committed
  dispatched := (record_terminalDispatched _ _).trans h.dispatched
  performed := h.performed
  idle hcommitted hlater := by
    rw [h.idle hcommitted hlater] at htasks
    cases htasks

/-- The event that is dispatched was due. -/
theorem Orderly.dispatch {payload : RunEventPayload} {tasks : List Task} (h : Orderly run)
    (htasks : run.tasks = .dispatch payload :: tasks) (panicked : Option String) :
    Orderly ({ run with tasks }.dispatch payload panicked) := by
  have hshaped : ∀ tasks' : List Task, tasks'.filterMap Task.due = tasks.filterMap Task.due →
      ∃ work cleanup, (∀ payload ∈ work, payload.isWork = true) ∧ (cleanup = [] ∨ cleanup = [safetyCleanup]) ∧
        (run.isOpen = true → cleanup = []) ∧ run.numbered ++ [payload] ++ tasks'.filterMap Task.due =
          work ++ cleanup ++ run.published.result.toList.map .terminal := by
    intro tasks' hsame
    obtain ⟨work, cleanup, hwork, hcleanup, hopen, hplanned⟩ := h.shaped
    refine ⟨work, cleanup, hwork, hcleanup, hopen, ?_⟩
    have hdue : (Task.dispatch payload).due = some payload := rfl
    rw [← hplanned, hsame, List.append_assoc]
    unfold RunShared.planned
    rw [htasks, List.filterMap_cons_some hdue]
    rfl
  have hidle : run.stage.isCommitted = true → run.stage ≠ .committed → ∀ tasks' : List Task, tasks' = [] := by
    intro hcommitted hlater
    rw [h.idle hcommitted hlater] at htasks
    cases htasks
  have hnumber : numberedFrom 1 (run.numbered ++ [payload]) =
      numberedFrom 1 run.numbered ++ [⟨run.sequence + 1, payload⟩] := by
    rw [numberedFrom_append, h.sequence, Nat.add_comm]
  have hsequence : run.sequence + 1 = (run.numbered ++ [payload]).length := by
    rw [List.length_append, h.sequence]
    rfl
  unfold RunShared.dispatch
  dsimp only
  split_ifs with hattached
  · have hall : run.delivered ++ [⟨run.sequence + 1, payload⟩] = numberedFrom 1 (run.numbered ++ [payload]) := by
      rw [hnumber, h.all hattached]
    cases panicked with
    | none =>
      exact ⟨hshaped tasks rfl, hsequence, hall ▸ List.prefix_rfl, fun _ => hall, h.committed, h.dispatched, h.performed,
        fun hcommitted hlater => hidle hcommitted hlater _⟩
    | some detail =>
      exact ⟨hshaped (.noteDispatcherFailure detail :: tasks) rfl, hsequence, hall ▸ List.prefix_rfl,
        fun habsent => absurd habsent Bool.false_ne_true, h.committed, h.dispatched, h.performed,
        fun hcommitted hlater => hidle hcommitted hlater _⟩
  · refine ⟨hshaped tasks rfl, hsequence, ?_, fun hpresent => absurd hpresent hattached, h.committed, h.dispatched,
      h.performed, fun hcommitted hlater => hidle hcommitted hlater _⟩
    dsimp only
    rw [hnumber]
    exact h.delivered.trans (List.prefix_append _ _)

/-- **A section that the worker owed keeps its run orderly.** -/
theorem orderly_perform {task : Task} {tasks : List Task} (h : Orderly run) (htasks : run.tasks = task :: tasks)
    (panicked : Option String) : Orderly ({ run with tasks }.perform panicked task) := by
  cases task with
  | publish payload => exact h.publish htasks rfl payload
  | dispatch payload => exact h.dispatch htasks panicked
  | noteDispatcherFailure detail => exact h.publish htasks rfl _

/-! ## The worker's moves -/

/-- What is left to show of a move that numbers no event. -/
theorem Orderly.moved (h : Orderly run) (hsame : run'.numbered = run.numbered ∧ run'.sequence = run.sequence ∧
      run'.delivered = run.delivered ∧ (run'.dispatcher = true → run.dispatcher = true)) (hshaped : Shaped run')
    (hcommitted : run'.published.result.isSome = run'.stage.isCommitted)
    (hdispatched : run'.published.terminalDispatched = run'.stage.isFinished)
    (hperformed : run'.stage = .sealing → run'.performed = true)
    (hidle : run'.stage.isCommitted = true → run'.stage ≠ .committed → run'.tasks = []) : Orderly run' where
  shaped := hshaped
  sequence := by rw [hsame.2.1, hsame.1, h.sequence]
  delivered := by rw [hsame.2.2.1, hsame.1]; exact h.delivered
  all hattached := by rw [hsame.2.2.1, hsame.1, h.all (hsame.2.2.2 hattached)]
  committed := hcommitted
  dispatched := hdispatched
  performed := hperformed
  idle := hidle

/-- A run that owes nothing, and has no result, has published its work, and Safety Cleanup where it is over. -/
theorem Orderly.uncommitted (h : Orderly run) (htasks : run.tasks = []) (hstage : run.stage.isCommitted = false) :
    run.published.result = none ∧ ∃ work cleanup, (∀ payload ∈ work, payload.isWork = true) ∧
      (cleanup = [] ∨ cleanup = [safetyCleanup]) ∧ (run.isOpen = true → cleanup = []) ∧ run.numbered = work ++ cleanup := by
  have hnone : run.published.result = none := by
    rw [← Option.isNone_iff_eq_none, ← Option.not_isSome, h.committed, hstage]
    rfl
  obtain ⟨work, cleanup, hwork, hcleanup, hopen, hplanned⟩ := h.shaped
  unfold RunShared.planned at hplanned
  rw [htasks, hnone] at hplanned
  exact ⟨hnone, work, cleanup, hwork, hcleanup, hopen, by simpa using hplanned⟩

/-- The failure of `terminal_failure` is the last of the work, and its Safety Cleanup follows. -/
theorem Orderly.failPublicly (h : Orderly run) (htasks : run.tasks = []) (hstage : run.stage.isCommitted = false)
    (hopen : run.isOpen = true) (failure : Evidence.RunFailure) : Orderly (run.failPublicly failure) := by
  obtain ⟨hnone, work, cleanup, hwork, -, hclosed, hnumbered⟩ := h.uncommitted htasks hstage
  rw [hclosed hopen, List.append_nil] at hnumbered
  refine h.moved ⟨rfl, rfl, rfl, id⟩ ⟨work ++ [.failure failure], [safetyCleanup], ?_, .inr rfl, ?_, ?_⟩ ?_ ?_ ?_ ?_
  · intro payload hpayload
    rcases List.mem_append.mp hpayload with hpayload | hpayload
    · exact hwork payload hpayload
    · rw [List.mem_singleton.mp hpayload]
      rfl
  · exact fun habsurd => absurd habsurd Bool.false_ne_true
  · show run.numbered ++ [.failure failure, safetyCleanup] = _ ++ run.published.result.toList.map .terminal
    rw [hnone, hnumbered]
    simp
  · show run.published.result.isSome = false
    rw [hnone]
    rfl
  · show run.published.terminalDispatched = false
    rw [h.dispatched]
    cases hs : run.stage <;> rw [hs] at hstage <;> first | rfl | cases hstage
  · exact fun habsurd => by cases habsurd
  · exact fun habsurd => by cases habsurd

/-- The worker goes on, and nothing is due. -/
theorem Orderly.advance (h : Orderly run) (htasks : run.tasks = []) (hstage : run.stage.isCommitted = false)
    {stage : Stage} (performed : Bool) (hlater : stage.isCommitted = false)
    (hopen : ({ run with stage, performed } : RunShared).isOpen = true → run.isOpen = true)
    (hperformed : stage = .sealing → performed = true) : Orderly { run with stage, performed } := by
  obtain ⟨hnone, work, cleanup, hwork, hcleanup, hclosed, hnumbered⟩ := h.uncommitted htasks hstage
  have hfinished : ∀ stage : Stage, stage.isCommitted = false → stage.isFinished = false := by
    intro stage hstage
    cases stage <;> first | rfl | cases hstage
  refine h.moved ⟨rfl, rfl, rfl, id⟩ ⟨work, cleanup, hwork, hcleanup, fun ho => hclosed (hopen ho), ?_⟩ ?_ ?_ hperformed ?_
  · show run.numbered ++ run.tasks.filterMap Task.due = _ ++ run.published.result.toList.map .terminal
    rw [htasks, hnone, hnumbered]
    rfl
  · rw [hlater]
    exact h.committed.trans hstage
  · rw [hfinished stage hlater]
    exact h.dispatched.trans (hfinished run.stage hstage)
  · exact fun hcommitted => absurd (hlater.symm.trans hcommitted) Bool.false_ne_true

/-- Events become due, of a run without a result. -/
theorem Orderly.owe (h : Orderly run) (htasks : run.tasks = []) (hstage : run.stage.isCommitted = false) {stage : Stage}
    {tasks : List Task} (work : List RunEventPayload) {cleanup : List RunEventPayload} (hwork : ∀ payload ∈ work, payload.isWork = true)
    (hcleanup : cleanup = [] ∨ cleanup = [safetyCleanup]) (hlater : stage.isCommitted = false) (hsealing : stage ≠ .sealing)
    (hopen : ({ run with stage, tasks } : RunShared).isOpen = true → cleanup = [])
    (hplanned : run.numbered ++ tasks.filterMap Task.due = work ++ cleanup) : Orderly { run with stage, tasks } := by
  obtain ⟨hnone, -⟩ := h.uncommitted htasks hstage
  have hfinished : ∀ stage : Stage, stage.isCommitted = false → stage.isFinished = false := by
    intro stage hstage
    cases stage <;> first | rfl | cases hstage
  refine h.moved ⟨rfl, rfl, rfl, id⟩ ⟨work, cleanup, hwork, hcleanup, hopen, ?_⟩ ?_ ?_ (fun hs => absurd hs hsealing) ?_
  · show run.numbered ++ tasks.filterMap Task.due = _ ++ run.published.result.toList.map .terminal
    rw [hnone, hplanned]
    exact (List.append_nil _).symm
  · rw [hlater]
    exact h.committed.trans hstage
  · rw [hfinished stage hlater]
    exact h.dispatched.trans (hfinished run.stage hstage)
  · exact fun hcommitted => absurd (hlater.symm.trans hcommitted) Bool.false_ne_true

/-- **The result is published**: the terminal event is due, and the last. -/
theorem Orderly.commit (h : Orderly run) (htasks : run.tasks = []) (hstage : run.stage.isCommitted = false)
    (result : Executor.OptimizationRunResult) :
    Orderly
      { run with
        stage := .committed
        published := { run.published with result := some result }
        tasks := [.dispatch (.terminal result)] } := by
  obtain ⟨hnone, work, cleanup, hwork, hcleanup, -, hnumbered⟩ := h.uncommitted htasks hstage
  refine h.moved ⟨rfl, rfl, rfl, id⟩ ⟨work, cleanup, hwork, hcleanup, fun habsurd => absurd habsurd Bool.false_ne_true, ?_⟩
    rfl ?_ (fun habsurd => by cases habsurd) fun _ hlater => absurd rfl hlater
  · show run.numbered ++ [.terminal result] = _ ++ [.terminal result]
    rw [hnumbered]
  · show run.published.terminalDispatched = false
    rw [h.dispatched]
    cases hs : run.stage <;> rw [hs] at hstage <;> first | rfl | cases hstage

theorem isOpen_of_committed (h : run.stage.isCommitted = true) : run.isOpen = false := by
  unfold RunShared.isOpen
  cases hs : run.stage <;> rw [hs] at h <;> first | rfl | cases h

/-- After the commit no event becomes due. -/
theorem Orderly.conclude (h : Orderly run) (htasks : run.tasks = []) (hstage : run.stage.isCommitted = true) (stage : Stage)
    (dispatcher : Bool) (hlater : stage.isCommitted = true) (hattached : dispatcher = true → run.dispatcher = true) :
    Orderly
      { run with stage, dispatcher, published := { run.published with terminalDispatched := stage.isFinished } } := by
  obtain ⟨work, cleanup, hwork, hcleanup, -, hplanned⟩ := h.shaped
  refine h.moved ⟨rfl, rfl, rfl, hattached⟩ ⟨work, cleanup, hwork, hcleanup, fun hopen => ?_, hplanned⟩ ?_ rfl
    (fun hsealing => ?_) fun _ _ => htasks
  · exact absurd ((isOpen_of_committed hlater).symm.trans hopen) Bool.false_ne_true
  · rw [hlater]
    exact h.committed.trans hstage
  · have hstage : stage = .sealing := hsealing
    rw [hstage] at hlater
    cases hlater

/-- **A move of the worker keeps its run orderly.** -/
theorem orderly_proceed {move : Move} (h : Orderly run) (htasks : run.tasks = []) (hmove : run.proceed move = some run') :
    Orderly run' := by
  unfold RunShared.proceed at hmove
  split at hmove
  · next hstage =>
    cases hmove
    exact h.advance htasks (hstage ▸ rfl) _ rfl (fun _ => by unfold RunShared.isOpen; rw [hstage]) nofun
  · next hstage =>
    cases hmove
    exact h.failPublicly htasks (hstage ▸ rfl) (by unfold RunShared.isOpen; rw [hstage]) _
  · next payload hstage =>
    split_ifs at hmove with hwork
    cases hmove
    obtain ⟨-, work, cleanup, hall, -, hclosed, hnumbered⟩ := h.uncommitted htasks (hstage ▸ rfl)
    rw [hclosed (by unfold RunShared.isOpen; rw [hstage]), List.append_nil] at hnumbered
    refine h.owe htasks (hstage ▸ rfl) (work ++ [payload]) (fun other hother => ?_) (.inl rfl) (hstage ▸ rfl)
      (hstage ▸ nofun) (fun _ => rfl) ?_
    · rcases List.mem_append.mp hother with hother | hother
      · exact hall other hother
      · rw [List.mem_singleton.mp hother]
        exact hwork
    · rw [hnumbered, List.append_nil]
      rfl
  · next accepted hstage =>
    cases hmove
    obtain ⟨-, work, cleanup, hall, -, hclosed, hnumbered⟩ := h.uncommitted htasks (hstage ▸ rfl)
    rw [hclosed (by unfold RunShared.isOpen; rw [hstage]), List.append_nil] at hnumbered
    cases accepted with
    | true =>
      exact h.owe htasks (hstage ▸ rfl) work hall (.inr rfl) rfl nofun (fun habsurd => absurd habsurd Bool.false_ne_true)
        (congrArg (· ++ [safetyCleanup]) hnumbered)
    | false =>
      exact h.owe htasks (hstage ▸ rfl) work hall (.inl rfl) rfl nofun (fun habsurd => absurd habsurd Bool.false_ne_true)
        (congrArg (· ++ []) hnumbered)
  · next detail hstage =>
    cases hmove
    exact h.advance htasks (hstage ▸ rfl) _ rfl (fun _ => by unfold RunShared.isOpen; rw [hstage]) nofun
  · next hstage =>
    cases hmove
    exact h.advance htasks (hstage ▸ rfl) _ rfl (fun habsurd => absurd habsurd Bool.false_ne_true) fun _ => rfl
  · next result hstage =>
    cases hmove
    exact h.advance htasks (hstage ▸ rfl) _ rfl (fun habsurd => absurd habsurd Bool.false_ne_true) nofun
  · next detail hstage =>
    cases hmove
    have hperformed := h.performed hstage
    refine h.advance htasks (hstage ▸ rfl) _ rfl (fun hopen => ?_) nofun
    unfold RunShared.isOpen at hopen
    dsimp only at hopen
    rw [hperformed] at hopen
    cases hopen
  · next detail result hstage =>
    split_ifs at hmove with hperformed
    · cases hmove
      exact h.advance htasks (hstage ▸ rfl) _ rfl (fun habsurd => absurd habsurd Bool.false_ne_true) nofun
    · cases hmove
      refine h.failPublicly htasks (hstage ▸ rfl) ?_ _
      unfold RunShared.isOpen
      rw [hstage]
      simpa using hperformed
  · next result hstage =>
    cases hmove
    exact h.advance htasks (hstage ▸ rfl) _ rfl (fun habsurd => absurd habsurd Bool.false_ne_true) nofun
  · next result hstage =>
    cases hmove
    exact h.commit htasks (hstage ▸ rfl) result
  · next hstage =>
    cases hmove
    have hconcluded := h.conclude htasks (hstage ▸ rfl) .released false rfl nofun
    have hsame : Stage.released.isFinished = run.published.terminalDispatched := by
      rw [h.dispatched, hstage]
      rfl
    rwa [hsame] at hconcluded
  · next hstage =>
    cases hmove
    exact h.conclude htasks (hstage ▸ rfl) .finished run.dispatcher rfl id
  · next hstage =>
    cases hmove
    have hconcluded := h.conclude htasks (hstage ▸ rfl) .exited run.dispatcher rfl id
    have hsame : Stage.exited.isFinished = run.published.terminalDispatched := by
      rw [h.dispatched, hstage]
      rfl
    rwa [hsame] at hconcluded
  · cases hmove

/-! ## The slot -/

/-- The slot is of the one run without a result, and every run is orderly. -/
structure Exclusive (s : RunService) : Prop where
  slot : ∀ i, s.slot = some i → ∃ run, s.runs[i]? = some run ∧ run.published.result = none
  active : ∀ (i : Nat) run, s.runs[i]? = some run → run.published.result = none → s.slot = some i
  runs : ∀ (i : Nat) run, s.runs[i]? = some run → Orderly run

variable {s s' : RunService} {i : Nat}

theorem exclusive_idle : Exclusive .idle where
  slot _ h := by cases h
  active _ _ h := by cases h
  runs _ _ h := by cases h

/-- A run without a result is held, by its worker or by its start. -/
theorem Orderly.isHeld (h : Orderly run) (hnone : run.published.result = none) : run.isHeld = true := by
  have hstage := h.committed
  rw [hnone] at hstage
  unfold RunShared.isHeld
  rw [Bool.or_eq_true, decide_eq_true_eq]
  refine .inl fun hexited => ?_
  rw [hexited] at hstage
  cases hstage

/-- **A start is refused while some run has no result, and then only.** -/
theorem Exclusive.occupied_iff (h : Exclusive s) :
    s.occupied = true ↔ ∃ (i : Nat) (run : RunShared), s.runs[i]? = some run ∧ run.published.result = none := by
  unfold RunService.occupied
  constructor
  · intro hoccupied
    cases hslot : s.slot with
    | none =>
      rw [hslot] at hoccupied
      cases hoccupied
    | some i =>
      obtain ⟨run, hrun, hnone⟩ := h.slot i hslot
      exact ⟨i, run, hrun, hnone⟩
  · rintro ⟨i, run, hrun, hnone⟩
    have hheld : s.runs[i]?.any RunShared.isHeld = true := by
      rw [hrun]
      exact (h.runs i run hrun).isHeld hnone
    rw [h.active i run hrun hnone]
    exact hheld

/-- A run is admitted. -/
theorem Exclusive.admits (h : Exclusive s) (hfree : s.occupied = false) (dispatcher : Bool) :
    Exclusive ⟨some s.runs.length, s.runs ++ [.admitted dispatcher]⟩ := by
  have hnew : (s.runs ++ [RunShared.admitted dispatcher])[s.runs.length]? = some (.admitted dispatcher) := by simp
  have hold : ∀ (i : Nat) run, (s.runs ++ [RunShared.admitted dispatcher])[i]? = some run →
      s.runs[i]? = some run ∨ i = s.runs.length ∧ run = .admitted dispatcher := by
    intro i run hrun
    rcases lt_trichotomy i s.runs.length with hlt | rfl | hgt
    · rw [List.getElem?_append_left hlt] at hrun
      exact .inl hrun
    · exact .inr ⟨rfl, Option.some.inj (hrun.symm.trans hnew)⟩
    · rw [List.getElem?_eq_none (by simp; omega)] at hrun
      cases hrun
  refine ⟨fun i hi => ?_, fun i run hrun hnone => ?_, fun i run hrun => ?_⟩
  · cases hi
    exact ⟨_, hnew, rfl⟩
  · rcases hold i run hrun with hrun | ⟨rfl, -⟩
    · have hoccupied := h.occupied_iff.mpr ⟨i, run, hrun, hnone⟩
      rw [hfree] at hoccupied
      cases hoccupied
    · rfl
  · rcases hold i run hrun with hrun | ⟨-, rfl⟩
    · exact h.runs i run hrun
    · exact orderly_admitted dispatcher

/-- A run is changed, and no other. -/
theorem getElem?_setRun {run run' other : RunShared} {j : Nat} (hrun : s.runs[i]? = some run)
    (hother : (s.setRun i run').runs[j]? = some other) : j = i ∧ other = run' ∨ j ≠ i ∧ s.runs[j]? = some other := by
  have hlt : i < s.runs.length := (List.getElem?_eq_some_iff.mp hrun).1
  by_cases hj : j = i
  · subst hj
    have hset : (s.setRun j run').runs[j]? = some run' := List.getElem?_set_self hlt
    exact .inl ⟨rfl, Option.some.inj (hother.symm.trans hset)⟩
  · have hset : (s.setRun i run').runs[j]? = s.runs[j]? := List.getElem?_set_ne fun h => hj h.symm
    exact .inr ⟨hj, hset ▸ hother⟩

/-- A run goes on without a result, or with the one it has. -/
theorem Exclusive.setRun (h : Exclusive s) (hrun : s.runs[i]? = some run) (horderly : Orderly run')
    (hresult : run'.published.result = run.published.result) : Exclusive (s.setRun i run') := by
  have hlt : i < s.runs.length := (List.getElem?_eq_some_iff.mp hrun).1
  refine ⟨fun j hslot => ?_, fun j other hother hnone => ?_, fun j other hother => ?_⟩
  · obtain ⟨other, hother, hnone⟩ := h.slot j hslot
    by_cases hj : j = i
    · subst hj
      refine ⟨run', List.getElem?_set_self hlt, ?_⟩
      rw [hrun] at hother
      rw [hresult, Option.some.inj hother, hnone]
    · exact ⟨other, (List.getElem?_set_ne fun h => hj h.symm).trans hother, hnone⟩
  · rcases getElem?_setRun hrun hother with ⟨rfl, rfl⟩ | ⟨-, hother⟩
    · exact h.active j run hrun (hresult ▸ hnone)
    · exact h.active j other hother hnone
  · rcases getElem?_setRun hrun hother with ⟨rfl, rfl⟩ | ⟨-, hother⟩
    · exact horderly
    · exact h.runs j other hother

/-- **The result is published and the slot freed, together.** -/
theorem Exclusive.release (h : Exclusive s) (hrun : s.runs[i]? = some run) (hnone : run.published.result = none)
    (horderly : Orderly run') (hresult : run'.published.result ≠ none) :
    Exclusive { s.setRun i run' with slot := if s.slot = some i then none else s.slot } := by
  have hslot := h.active i run hrun hnone
  rw [if_pos hslot]
  refine ⟨fun j hj => by (cases hj), fun j other hother hother' => ?_, fun j other hother => ?_⟩
  · rcases getElem?_setRun hrun hother with ⟨rfl, rfl⟩ | ⟨hj, hother⟩
    · exact absurd hother' hresult
    · have hj' := h.active j other hother hother'
      rw [hslot] at hj'
      exact absurd (Option.some.inj hj').symm hj
  · rcases getElem?_setRun hrun hother with ⟨rfl, rfl⟩ | ⟨-, hother⟩
    · exact horderly
    · exact h.runs j other hother

/-- Only the commit publishes a result. -/
theorem result_proceed {move : Move} (hmove : run.proceed move = some run') :
    move = .commit ∧ run.stage.isCommitted = false ∧ run'.published.result ≠ none ∨
      move ≠ .commit ∧ run'.published.result = run.published.result := by
  unfold RunShared.proceed at hmove
  split at hmove
  case h_11 result hstage =>
    cases hmove
    exact .inl ⟨rfl, hstage ▸ rfl, Option.some_ne_none _⟩
  all_goals
    first
      | (cases hmove; done)
      | (cases hmove; exact .inr ⟨nofun, rfl⟩)
      | (split_ifs at hmove <;> cases hmove <;> exact .inr ⟨nofun, rfl⟩)

/-- **Every step keeps the slot of the one run without a result.** -/
theorem exclusive_step {label : Label} (hstep : Step label s s') (h : Exclusive s) : Exclusive s' := by
  cases label with
  | start request dispatcher =>
    rcases hstep with ⟨_, -, rfl⟩ | hstep
    · exact h
    · unfold RunService.start at hstep
      split_ifs at hstep with hidentity hdirectory hoccupied
      cases hstep
      exact h.admits (Bool.not_eq_true _ ▸ hoccupied) dispatcher
  | cancel i =>
    obtain ⟨run, hrun, rfl⟩ := hstep
    have horderly := h.runs i run hrun
    exact h.setRun hrun ⟨horderly.shaped, horderly.sequence, horderly.delivered, horderly.all, horderly.committed,
      horderly.dispatched, horderly.performed, horderly.idle⟩ rfl
  | poll i =>
    obtain ⟨-, rfl⟩ := hstep
    exact h
  | dropHandle i =>
    obtain ⟨run, hrun, -, rfl⟩ := hstep
    have horderly := h.runs i run hrun
    exact h.setRun hrun ⟨horderly.shaped, horderly.sequence, horderly.delivered, horderly.all, horderly.committed,
      horderly.dispatched, horderly.performed, horderly.idle⟩ rfl
  | task i panicked =>
    obtain ⟨run, task, tasks, hrun, htasks, rfl⟩ := hstep
    refine h.setRun hrun (orderly_perform (h.runs i run hrun) htasks panicked) ?_
    cases task with
    | publish payload => exact record_result _ _
    | noteDispatcherFailure detail => exact record_result _ _
    | dispatch payload =>
      unfold RunShared.perform RunShared.dispatch
      dsimp only
      split_ifs
      · cases panicked <;> rfl
      · rfl
  | move i move =>
    obtain ⟨run, run', hrun, htasks, hmove, rfl⟩ := hstep
    have horderly := orderly_proceed (h.runs i run hrun) htasks hmove
    rcases result_proceed hmove with ⟨rfl, hstage, hresult⟩ | ⟨hother, hresult⟩
    · have hnone := ((h.runs i run hrun).uncommitted htasks hstage).1
      have hreleased := h.release hrun hnone horderly hresult
      simpa only [true_and] using hreleased
    · rw [if_neg fun hcommit => hother hcommit.1]
      exact h.setRun hrun horderly hresult

/-! ## The events of a run -/

/-- An event of a shaped run other than its work: nothing follows the terminal event, and Safety Cleanup only it. -/
theorem after_special {work cleanup before after : List RunEventPayload} {payload : RunEventPayload}
    {result : Option Executor.OptimizationRunResult} (hwork : ∀ payload ∈ work, payload.isWork = true)
    (hcleanup : cleanup = [] ∨ cleanup = [safetyCleanup])
    (hsplit : work ++ cleanup ++ result.toList.map .terminal = before ++ payload :: after) (hpayload : payload.isWork = false) :
    (after = [] ∧ (∀ other ∈ before, ∀ result, other ≠ .terminal result) ∧
        ∀ terminal, payload = .terminal terminal → result = some terminal) ∨
      payload = safetyCleanup ∧ ∃ terminal, after = [.terminal terminal] := by
  induction work generalizing before with
  | nil =>
    rw [List.nil_append] at hsplit
    -- One terminal event, or none, ends the list.
    have hlast : ∀ before, result.toList.map RunEventPayload.terminal = before ++ payload :: after →
        before = [] ∧ after = [] ∧ ∃ terminal, payload = .terminal terminal ∧ result = some terminal := by
      intro before hsplit
      cases result with
      | none => cases before <;> cases hsplit
      | some terminal =>
        cases before with
        | nil =>
          obtain ⟨rfl, rfl⟩ := List.cons.inj hsplit
          exact ⟨rfl, rfl, terminal, rfl, rfl⟩
        | cons first before => cases before <;> cases (List.cons.inj hsplit).2
    have hdone : ∀ before, result.toList.map RunEventPayload.terminal = before ++ payload :: after → after = [] ∧
        ∀ terminal, payload = .terminal terminal → result = some terminal := by
      intro before hsplit
      obtain ⟨-, hafter, terminal, rfl, hresult⟩ := hlast before hsplit
      refine ⟨hafter, fun other hother => ?_⟩
      cases hother
      exact hresult
    rcases hcleanup with rfl | rfl
    · obtain ⟨rfl, -⟩ := hlast before hsplit
      obtain ⟨hafter, hresult⟩ := hdone [] hsplit
      exact .inl ⟨hafter, List.forall_mem_nil _, hresult⟩
    · cases before with
      | nil =>
        obtain ⟨rfl, rfl⟩ := List.cons.inj hsplit
        cases result with
        | none => exact .inl ⟨rfl, List.forall_mem_nil _, fun terminal habsurd => by cases habsurd⟩
        | some terminal => exact .inr ⟨rfl, terminal, rfl⟩
      | cons first before =>
        obtain ⟨rfl, hrest⟩ := List.cons.inj hsplit
        obtain ⟨rfl, -⟩ := hlast before hrest
        obtain ⟨hafter, hresult⟩ := hdone [] hrest
        refine .inl ⟨hafter, fun other hother result => ?_, hresult⟩
        rw [List.mem_singleton.mp hother]
        exact fun habsurd => by cases habsurd
  | cons first work ih =>
    have hfirst := hwork first List.mem_cons_self
    cases before with
    | nil =>
      rw [(List.cons.inj hsplit).1, hpayload] at hfirst
      cases hfirst
    | cons head before =>
      obtain ⟨rfl, hrest⟩ := List.cons.inj hsplit
      rcases ih (fun other hother => hwork other (List.mem_cons_of_mem _ hother)) hrest with ⟨hafter, hbefore, hresult⟩ | hcleanup
      · refine .inl ⟨hafter, fun other hother result => ?_, hresult⟩
        rcases List.mem_cons.mp hother with rfl | hother
        · rintro rfl
          cases hfirst
        · exact hbefore other hother result
      · exact .inr hcleanup

/-- What a client sees of a run that is over. -/
def RunShared.showsTerminal (run : RunShared) : Prop :=
  run.published.result ≠ none ∨ (∃ result, .terminal result ∈ run.numbered) ∨ run.published.terminalDispatched = true

/-- **The events of an orderly run.** -/
theorem Orderly.events (h : Orderly run) {before after : List RunEventPayload} {payload : RunEventPayload}
    (hsplit : run.numbered = before ++ payload :: after) (hpayload : payload.isWork = false) :
    (after = [] ∧ (∀ other ∈ before, ∀ result, other ≠ .terminal result) ∧
        ∀ terminal, payload = .terminal terminal → run.published.result = some terminal) ∨
      payload = safetyCleanup ∧ (after = [] ∨ ∃ terminal, after = [.terminal terminal]) := by
  obtain ⟨work, cleanup, hwork, hcleanup, -, hplanned⟩ := h.shaped
  unfold RunShared.planned at hplanned
  rw [hsplit, List.append_assoc, List.cons_append] at hplanned
  rcases after_special hwork hcleanup hplanned.symm hpayload with ⟨hafter, hbefore, hresult⟩ | ⟨hcleanup, terminal, hafter⟩
  · exact .inl ⟨(List.append_eq_nil_iff.mp hafter).1, hbefore, hresult⟩
  · refine .inr ⟨hcleanup, ?_⟩
    rcases List.append_eq_singleton_iff.mp hafter with ⟨hafter, -⟩ | ⟨hafter, -⟩
    · exact .inl hafter
    · exact .inr ⟨terminal, hafter⟩

/-- The waiters are released once the terminal event is dispatched. -/
theorem Orderly.finished (h : Orderly run) (hdispatched : run.published.terminalDispatched = true) :
    ∃ before result, run.numbered = before ++ [.terminal result] := by
  obtain ⟨work, cleanup, -, -, -, hplanned⟩ := h.shaped
  rw [h.dispatched] at hdispatched
  have hlater : run.stage.isCommitted = true ∧ run.stage ≠ .committed := by
    cases hs : run.stage <;> rw [hs] at hdispatched <;> first | cases hdispatched; done | exact ⟨rfl, by decide⟩
  obtain ⟨result, hresult⟩ := Option.isSome_iff_exists.mp (h.committed.trans hlater.1)
  unfold RunShared.planned at hplanned
  rw [h.idle hlater.1 hlater.2, hresult, List.filterMap_nil, List.append_nil] at hplanned
  exact ⟨work ++ cleanup, result, hplanned⟩

/-- What shows a terminal result is published with it. -/
theorem Orderly.terminal (h : Orderly run) (hshows : run.showsTerminal) : run.published.result ≠ none := by
  have hof : ∀ {result before after}, run.numbered = before ++ .terminal result :: after → run.published.result ≠ none := by
    intro result before after hsplit
    rcases h.events hsplit rfl with ⟨-, -, hresult⟩ | ⟨habsurd, -⟩
    · rw [hresult result rfl]
      exact Option.some_ne_none _
    · cases habsurd
  rcases hshows with hresult | ⟨result, hmem⟩ | hdispatched
  · exact hresult
  · obtain ⟨before, after, hsplit⟩ := List.append_of_mem hmem
    exact hof hsplit
  · obtain ⟨before, result, hsplit⟩ := h.finished hdispatched
    exact hof hsplit

/-- **The Optimization Run Service, whatever the order of its clients' and workers' steps**: one run at a time, its
events in order, one terminal event and that the last, nothing but it after Safety Cleanup, and the slot free before a
terminal result shows. -/
theorem service_protocol (labels : List Label) (s : RunService) (h : Trace Step labels .idle s) :
    (∀ (i j : Nat) (run run' : RunShared), s.runs[i]? = some run → s.runs[j]? = some run' →
      run.published.result = none → run'.published.result = none → i = j) ∧
    (∀ request dispatcher, s.start request dispatcher = .error .activeRun →
      ∃ (i : Nat) (run : RunShared), s.runs[i]? = some run ∧ run.published.result = none) ∧
    ∀ (i : Nat) (run : RunShared), s.runs[i]? = some run →
      (run.delivered <+: numberedFrom 1 run.numbered ∧
        (run.dispatcher = true → run.delivered = numberedFrom 1 run.numbered)) ∧
      (∀ before result after, run.numbered = before ++ .terminal result :: after →
        after = [] ∧ ∀ payload ∈ before, ∀ other, payload ≠ .terminal other) ∧
      (run.published.terminalDispatched = true → ∃ before result, run.numbered = before ++ [.terminal result]) ∧
      (∀ before record after, run.numbered = before ++ .phase record :: after → record.phase = .safetyCleanup →
        after = [] ∨ ∃ result, after = [.terminal result]) ∧
      (run.showsTerminal → run.published.result ≠ none ∧ s.slot ≠ some i) := by
  have hexclusive : Exclusive s := h.invariant (fun _ _ _ _ hstep => exclusive_step hstep) exclusive_idle
  refine ⟨fun i j run run' hrun hrun' hnone hnone' => ?_, fun request dispatcher hstart => ?_, fun i run hrun => ?_⟩
  · exact Option.some.inj ((hexclusive.active i run hrun hnone).symm.trans (hexclusive.active j run' hrun' hnone'))
  · unfold RunService.start at hstart
    split_ifs at hstart with hidentity hdirectory hoccupied
    · cases hstart
    · cases hstart
    · exact hexclusive.occupied_iff.mp hoccupied
  · have horderly := hexclusive.runs i run hrun
    refine ⟨⟨horderly.delivered, horderly.all⟩, fun before result after hsplit => ?_, horderly.finished,
      fun before record after hsplit hphase => ?_, fun hshows => ⟨horderly.terminal hshows, fun hslot => ?_⟩⟩
    · rcases horderly.events hsplit rfl with ⟨hafter, hbefore, -⟩ | ⟨habsurd, -⟩
      · exact ⟨hafter, hbefore⟩
      · cases habsurd
    · have hspecial : (RunEventPayload.phase record).isWork = false := by
        unfold RunEventPayload.isWork
        simpa using hphase
      rcases horderly.events hsplit hspecial with ⟨hafter, -⟩ | ⟨-, hafter⟩
      · exact .inl hafter
      · exact hafter
    · obtain ⟨other, hother, hnone⟩ := hexclusive.slot i hslot
      rw [hrun] at hother
      cases hother
      exact horderly.terminal hshows hnone

/-- A result of the sample. -/
def sampleResult : Executor.OptimizationRunResult := ⟨.failed, .preparing, ⟨.default, []⟩⟩

/-- A request of the sample. -/
def sampleRequest : RunRequest := ⟨"skyrimse".toList, [OsStr.ofText "mods".toList]⟩

/-- A run whose worker panics, and whose dispatcher panics with Safety Cleanup; then another start. -/
def sampleRun : List Label :=
  [.start sampleRequest true, .move 0 .spawned, .cancel 0, .move 0 (.escape "panic"), .move 0 (.fail sampleResult), .task 0 none,
    .task 0 none, .task 0 none, .task 0 (some "panic"), .task 0 none, .move 0 (.sealResult sampleResult), .move 0 .commit,
    .start sampleRequest false, .task 0 none, .move 0 .releaseDispatcher, .move 0 .signal, .move 0 .exit, .dropHandle 0]

theorem service_protocol_sample : ∃ s, Trace Step sampleRun .idle s ∧
    (∀ (i j : Nat) (run run' : RunShared), s.runs[i]? = some run → s.runs[j]? = some run' →
      run.published.result = none → run'.published.result = none → i = j) ∧
    (∀ request dispatcher, s.start request dispatcher = .error .activeRun →
      ∃ (i : Nat) (run : RunShared), s.runs[i]? = some run ∧ run.published.result = none) ∧
    ∀ (i : Nat) (run : RunShared), s.runs[i]? = some run →
      (run.delivered <+: numberedFrom 1 run.numbered ∧
        (run.dispatcher = true → run.delivered = numberedFrom 1 run.numbered)) ∧
      (∀ before result after, run.numbered = before ++ .terminal result :: after →
        after = [] ∧ ∀ payload ∈ before, ∀ other, payload ≠ .terminal other) ∧
      (run.published.terminalDispatched = true → ∃ before result, run.numbered = before ++ [.terminal result]) ∧
      (∀ before record after, run.numbered = before ++ .phase record :: after → record.phase = .safetyCleanup →
        after = [] ∨ ∃ result, after = [.terminal result]) ∧
      (run.showsTerminal → run.published.result ≠ none ∧ s.slot ≠ some i) := by
  have hrun : ∃ s, Trace Step sampleRun .idle s := by
    refine ⟨_, _, .inr rfl, _, ⟨_, _, rfl, rfl, rfl, rfl⟩, _, ⟨_, rfl, rfl⟩, _, ⟨_, _, rfl, rfl, rfl, rfl⟩, _,
      ⟨_, _, rfl, rfl, rfl, rfl⟩, _, ⟨_, _, _, rfl, rfl, rfl⟩, _, ⟨_, _, _, rfl, rfl, rfl⟩, _, ⟨_, _, _, rfl, rfl, rfl⟩, _,
      ⟨_, _, _, rfl, rfl, rfl⟩, _, ⟨_, _, _, rfl, rfl, rfl⟩, _, ⟨_, _, rfl, rfl, rfl, rfl⟩, _, ⟨_, _, rfl, rfl, rfl, rfl⟩, _,
      .inr rfl, _, ⟨_, _, _, rfl, rfl, rfl⟩, _, ⟨_, _, rfl, rfl, rfl, rfl⟩, _, ⟨_, _, rfl, rfl, rfl, rfl⟩, _,
      ⟨_, _, rfl, rfl, rfl, rfl⟩, _, ⟨_, rfl, rfl, rfl⟩, rfl⟩
  obtain ⟨s, hrun⟩ := hrun
  exact ⟨s, hrun, service_protocol sampleRun s hrun⟩

end Cao.Service
