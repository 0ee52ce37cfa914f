import Cao.Gui.Rows
import Mathlib.Data.List.Induction

/-!
# The window's view of a run

`RunView` of `cao_gui::run_view`: what the ordered events of one run become in the window, and the state machine of a
close during a run.

* `RunView`, `RunView.consume`, `RunView.perform`: the view, and its calls;
* `RunView.accepted`: the events that a view takes in, call after call;
* `Follows`, `Follows.perform`: what holds of a view since the run began, and its step;
* **`follows`**: a view follows the run it is bound to.
-/

namespace Cao.Gui

open Evidence (RunPhaseRecord RunPhaseStatus RunProgress RunDiagnostic PhaseSkipReason)
open Executor (RunOutcome)

/-! ## The view -/

/-- `RunEventPayload`. -/
inductive RunEventPayload
  | phase (record : RunPhaseRecord)
  | diagnostic (diagnostic : RunDiagnostic)
  | failure (failure : Evidence.RunFailure)
  | terminal (result : TerminalResult)

/-- `RunEvent`. -/
structure RunEvent where
  runId : Text
  sequence : Nat
  payload : RunEventPayload

/-- `RunViewState`. -/
structure RunViewState where
  runId : Text := []
  label : Text := []
  progress : Option RunProgress := none
  details : List Text := []
  active : Bool := false
  cancellationRequested : Bool := false
  closeRequested : Bool := false
  outcome : Option RunOutcome := none

/-- `RunView`: its state, and the sequence of the last accepted event. -/
structure RunView where
  state : RunViewState := { }
  sequence : Nat := 0

namespace RunView

/-- `RunView::begin`. -/
def begin (runId : Text) : RunView where
  state := { runId, label := "Preparing".toList, active := true }
  sequence := 0

/-- The label of a phase. -/
def phaseLabel (record : RunPhaseRecord) : Text :=
  phaseName record.phase ++
    match record.status with
    | .executed => []
    | .skipped => " - Skipped (No Requested Work)".toList
    -- only a Dry Run plans Archive work instead of attempting it
    | .planned => " - Planned (Dry Run)".toList

section ByteSize

variable (byteSize : Nat → Text)

/-- What a payload makes of the state. -/
def take (state : RunViewState) : RunEventPayload → RunViewState
  | .phase record =>
    { state with
      label := if state.cancellationRequested then markCancelling (phaseLabel record) else phaseLabel record
      progress := record.progress }
  | .diagnostic diagnostic => { state with details := state.details ++ [diagnosticRow diagnostic] }
  | .failure failure => { state with details := state.details ++ [failureRow failure] }
  | .terminal terminal =>
    { state with
      active := false
      outcome := some terminal.result.outcome
      -- Safety Cleanup has no attempt counts
      progress :=
        match terminal.result.evidence.storage.phase terminal.result.finalPhase with
        | some record => record.progress
        | none => state.progress
      details := appendResultDetails byteSize state.details terminal
      label := outcomeLabel terminal.result.outcome }

/-- Whether an event is of the bound run, and above the last accepted one. -/
def accepts (view : RunView) (event : RunEvent) : Bool :=
  event.runId = view.state.runId && view.sequence < event.sequence

/-- `RunView::consume`. -/
def consume (view : RunView) (event : RunEvent) : Bool × RunView :=
  if event.runId ≠ view.state.runId ∨ event.sequence ≤ view.sequence then (false, view)
  else (true, ⟨take byteSize view.state event.payload, event.sequence⟩)

/-- `RunView::request_cancellation`. -/
def requestCancellation (view : RunView) : RunView :=
  if view.state.active && !view.state.cancellationRequested then
    { view with
      state := { view.state with cancellationRequested := true, label := markCancelling view.state.label } }
  else view

/-- `RunView::request_close`. -/
def requestClose (view : RunView) : Bool × RunView :=
  if !view.state.active then (true, view)
  else (false, requestCancellation { view with state := { view.state with closeRequested := true } })

/-- `RunView::can_start`. -/
def canStart (view : RunView) : Bool := !view.state.active && !view.state.closeRequested

/-- A call of the window. -/
inductive Call
  | begins (runId : Text)
  | consumes (event : RunEvent)
  | requestsCancellation
  | requestsClose

/-- The view after a call. -/
def perform (view : RunView) : Call → RunView
  | .begins runId => RunView.begin runId
  | .consumes event => (view.consume byteSize event).2
  | .requestsCancellation => view.requestCancellation
  | .requestsClose => view.requestClose.2

/-- The view after calls. -/
def run (view : RunView) (calls : List Call) : RunView := calls.foldl (perform byteSize) view

/-- The event that a call has a view accept. -/
def takes (view : RunView) : Call → List RunEvent
  | .consumes event => if view.accepts event then [event] else []
  | _ => []

/-- The events that a view accepts, call after call. -/
def accepted (view : RunView) : List Call → List RunEvent
  | [] => []
  | call :: calls => view.takes call ++ accepted (view.perform byteSize call) calls

end ByteSize

/-- The event of a call. -/
def Call.event? : Call → Option RunEvent
  | .consumes event => some event
  | _ => none

/-- Whether a call asks for cancellation. -/
def Call.requests : Call → Bool
  | .requestsCancellation | .requestsClose => true
  | _ => false

/-- Whether a call begins a run. -/
def Call.isBegin : Call → Bool
  | .begins _ => true
  | _ => false

end RunView

/-- Whether an event ends its run. -/
def RunEvent.isTerminal (event : RunEvent) : Bool :=
  match event.payload with
  | .terminal _ => true
  | _ => false

/-- The failure that an event streams. -/
def RunEvent.failure? (event : RunEvent) : Option Evidence.RunFailure :=
  match event.payload with
  | .failure failure => some failure
  | _ => none

/-- **Each run's events arrive in service order**: none is newer than the terminal event before it. -/
def InServiceOrder (calls : List RunView.Call) : Prop :=
  (calls.filterMap RunView.Call.event?).Pairwise fun event later =>
    event.runId = later.runId → event.isTerminal = true → later.sequence ≤ event.sequence

/-! ## What a view follows -/

namespace RunView

/-- No label of a phase begins with the cancellation marker. -/
theorem phaseLabel_not_cancelling (record : RunPhaseRecord) : ¬ cancelling <+: phaseLabel record := by
  have hname : ∀ phase, ∃ c name, phaseName phase = c :: name ∧ c ≠ 'C' := by
    intro phase
    cases phase <;> exact ⟨_, _, String.toList_ofList, by decide⟩
  obtain ⟨c, name, hname, hc⟩ := hname record.phase
  rintro ⟨rest, hrest⟩
  rw [phaseLabel, hname] at hrest
  have hhead : 'C' = c := (List.cons.inj hrest).1
  exact hc hhead.symm

section Calls

variable {byteSize : Nat → Text} {view : RunView} {calls later : List Call} {call : Call} {event : RunEvent}

theorem run_append : run byteSize view (calls ++ later) = run byteSize (run byteSize view calls) later :=
  List.foldl_append

theorem accepted_append : accepted byteSize view (calls ++ later) =
    accepted byteSize view calls ++ accepted byteSize (run byteSize view calls) later := by
  induction calls generalizing view with
  | nil => rfl
  | cons call calls ih =>
    show takes view call ++ accepted byteSize (perform byteSize view call) (calls ++ later) = _
    rw [ih, ← List.append_assoc]
    rfl

theorem consume_of_accepts (h : view.accepts event = true) :
    view.consume byteSize event = (true, ⟨take byteSize view.state event.payload, event.sequence⟩) := by
  unfold accepts at h
  rw [Bool.and_eq_true, decide_eq_true_eq, decide_eq_true_eq] at h
  unfold consume
  rw [if_neg (by rw [not_or, not_not, Nat.not_le]; exact h)]

/-- **An event of another run, or a stale one, changes nothing.** -/
theorem consume_of_not_accepts (h : view.accepts event = false) : view.consume byteSize event = (false, view) := by
  unfold consume
  rw [if_pos]
  by_contra hnot
  rw [not_or, not_not, Nat.not_le] at hnot
  unfold accepts at h
  rw [decide_eq_true hnot.1, decide_eq_true hnot.2] at h
  cases h

/-- A pending close stays, until another run begins. -/
theorem perform_closeRequested (hcall : call.isBegin = false) (h : view.state.closeRequested = true) :
    (view.perform byteSize call).state.closeRequested = true := by
  cases call with
  | begins runId => cases hcall
  | consumes event =>
    by_cases haccepts : view.accepts event = true
    · show (view.consume byteSize event).2.state.closeRequested = true
      rw [consume_of_accepts haccepts]
      cases event.payload <;> exact h
    · show (view.consume byteSize event).2.state.closeRequested = true
      rw [consume_of_not_accepts (by simpa using haccepts)]
      exact h
  | requestsCancellation =>
    show (view.requestCancellation).state.closeRequested = true
    unfold requestCancellation
    split_ifs <;> exact h
  | requestsClose =>
    show (view.requestClose).2.state.closeRequested = true
    unfold requestClose requestCancellation
    split_ifs
    · exact h
    · rfl
    · rfl

theorem run_closeRequested (hcalls : ∀ call ∈ calls, call.isBegin = false) (h : view.state.closeRequested = true) :
    (run byteSize view calls).state.closeRequested = true := by
  induction calls generalizing view with
  | nil => exact h
  | cons call calls ih =>
    exact ih (fun c hmem => hcalls c (List.mem_cons_of_mem _ hmem))
      (perform_closeRequested (hcalls call List.mem_cons_self) h)

theorem requestClose_of_active (h : view.state.active = true) : view.requestClose.2.state.closeRequested = true := by
  unfold requestClose requestCancellation
  rw [h]
  split_ifs <;> first | rfl | simp_all

end Calls

/-! ## The invariant -/

/-- What holds of a view, of the calls since its run began and of the events that it accepted. -/
structure Follows (runId : Text) (calls : List Call) (events : List RunEvent) (view : RunView) : Prop where
  bound : view.state.runId = runId
  called : ∀ event ∈ events, event.runId = runId ∧ .consumes event ∈ calls
  active : view.state.active = true ↔ ∀ event ∈ events, event.isTerminal = false
  ended : ∀ event ∈ events, event.isTerminal = true → view.sequence = event.sequence
  requested : view.state.active = true → view.state.cancellationRequested = calls.any Call.requests
  label : view.state.active = true → ∃ base, ¬ cancelling <+: base ∧
    view.state.label = if view.state.cancellationRequested then cancelling ++ base else base
  streamed : view.state.active = true →
    view.state.details.filter isFailureRow = (events.filterMap RunEvent.failure?).map failureRow
  rows : ∀ event ∈ events, ∀ terminal, event.payload = .terminal terminal →
    (events.filterMap RunEvent.failure?).Subperm terminal.result.evidence.storage.failures →
      (view.state.details.filter isFailureRow).Perm (terminal.result.evidence.storage.failures.map failureRow)

section Follows

variable {byteSize : Nat → Text} {runId : Text} {view : RunView} {calls : List Call} {call : Call} {event : RunEvent}
  {events : List RunEvent}

theorem follows_begin (runId : Text) : Follows runId [] [] (RunView.begin runId) where
  bound := rfl
  called := by simp
  active := by simp [RunView.begin]
  ended := by simp
  requested _ := rfl
  label _ := ⟨"Preparing".toList, by decide, rfl⟩
  streamed _ := rfl
  rows := by simp

/-- A call that changes neither the events nor what is asked for. -/
theorem Follows.idle (h : Follows runId calls events view) (hcall : call.requests = false) :
    Follows runId (calls ++ [call]) events view where
  bound := h.bound
  called event hmem := ⟨(h.called event hmem).1, List.mem_append_left _ (h.called event hmem).2⟩
  active := h.active
  ended := h.ended
  requested hactive := by rw [h.requested hactive, List.any_append]; simp [hcall]
  label := h.label
  streamed := h.streamed
  rows := h.rows

/-- A request, of which the view keeps the events. -/
theorem Follows.request (h : Follows runId calls events view) (hcall : call.requests = true) (closing : Bool) :
    Follows runId (calls ++ [call]) events
      (requestCancellation { view with state := { view.state with closeRequested := closing } }) := by
  have hany : (calls ++ [call]).any Call.requests = true := by
    rw [List.any_append]
    simp [hcall]
  have hcalled : ∀ event ∈ events, event.runId = runId ∧ .consumes event ∈ calls ++ [call] := fun event hmem =>
    ⟨(h.called event hmem).1, List.mem_append_left _ (h.called event hmem).2⟩
  unfold requestCancellation
  split_ifs with hnew
  · rw [Bool.and_eq_true, Bool.not_eq_true'] at hnew
    obtain ⟨hactive, hcancel⟩ := hnew
    obtain ⟨base, hbase, hlabel⟩ := h.label hactive
    rw [if_neg (by simpa using hcancel)] at hlabel
    exact ⟨h.bound, hcalled, h.active, h.ended, fun _ => hany.symm,
      fun _ => ⟨base, hbase, by simp [markCancelling, hlabel]⟩, h.streamed, h.rows⟩
  · have hold : view.state.active = true → view.state.cancellationRequested = true := by
      intro hactive
      simpa [hactive] using hnew
    exact ⟨h.bound, hcalled, h.active, h.ended, fun hactive => (hold hactive).trans hany.symm, h.label, h.streamed, h.rows⟩

theorem isTerminal_of_payload {terminal : TerminalResult} (h : event.payload = .terminal terminal) :
    event.isTerminal = true := by
  unfold RunEvent.isTerminal
  rw [h]

theorem Follows.called_consume (h : Follows runId calls events view) (haccepts : view.accepts event = true) :
    ∀ e ∈ events ++ [event], e.runId = runId ∧ .consumes e ∈ calls ++ [Call.consumes event] := by
  intro e hmem
  rcases List.mem_append.mp hmem with hmem | hmem
  · exact ⟨(h.called e hmem).1, List.mem_append_left _ (h.called e hmem).2⟩
  · rw [List.mem_singleton.mp hmem]
    unfold accepts at haccepts
    rw [Bool.and_eq_true, decide_eq_true_eq] at haccepts
    exact ⟨haccepts.1.trans h.bound, by simp⟩

theorem any_requests_consumes : (calls ++ [Call.consumes event]).any Call.requests = calls.any Call.requests := by
  rw [List.any_append, List.any_cons, List.any_nil]
  simp [Call.requests]

/-- An event that does not end the run. -/
theorem Follows.goOn (h : Follows runId calls events view) (haccepts : view.accepts event = true)
    (hactive : view.state.active = true) (hevent : event.isTerminal = false) {state : RunViewState}
    (hbound : state.runId = view.state.runId) (hon : state.active = true)
    (hrequested : state.cancellationRequested = view.state.cancellationRequested)
    (hlabel : ∃ base, ¬ cancelling <+: base ∧
      state.label = if state.cancellationRequested then cancelling ++ base else base)
    (hdetails : state.details.filter isFailureRow =
      view.state.details.filter isFailureRow ++ event.failure?.toList.map failureRow) :
    Follows runId (calls ++ [.consumes event]) (events ++ [event]) ⟨state, event.sequence⟩ := by
  have hnone : ∀ e ∈ events ++ [event], e.isTerminal = false := by
    intro e hmem
    rcases List.mem_append.mp hmem with hmem | hmem
    · exact h.active.mp hactive e hmem
    · rwa [List.mem_singleton.mp hmem]
  refine ⟨hbound.trans h.bound, h.called_consume haccepts, iff_of_true hon hnone, fun e hmem hterminal => ?_,
    fun _ => ?_, fun _ => hlabel, fun _ => ?_, fun e hmem terminal hterminal => ?_⟩
  · rw [hnone e hmem] at hterminal
    cases hterminal
  · rw [any_requests_consumes]
    exact hrequested.trans (h.requested hactive)
  · show state.details.filter isFailureRow = _
    rw [hdetails, h.streamed hactive, List.filterMap_append, List.map_append]
    congr 1
  · have := isTerminal_of_payload hterminal
    rw [hnone e hmem] at this
    cases this

/-- **A view that follows its run does so after one more event.** -/
theorem Follows.consume (h : Follows runId calls events view) (haccepts : view.accepts event = true)
    (hactive : view.state.active = true) :
    Follows runId (calls ++ [.consumes event]) (events ++ [event])
      ⟨take byteSize view.state event.payload, event.sequence⟩ := by
  cases hpayload : event.payload with
  | phase record =>
    refine h.goOn haccepts hactive (by simp [RunEvent.isTerminal, hpayload]) rfl hactive rfl
      ⟨phaseLabel record, phaseLabel_not_cancelling record, rfl⟩ ?_
    simp [take, RunEvent.failure?, hpayload]
  | diagnostic diagnostic =>
    refine h.goOn haccepts hactive (by simp [RunEvent.isTerminal, hpayload]) rfl hactive rfl (h.label hactive) ?_
    simp [take, RunEvent.failure?, hpayload, isFailureRow_diagnosticRow]
  | failure failure =>
    refine h.goOn haccepts hactive (by simp [RunEvent.isTerminal, hpayload]) rfl hactive rfl (h.label hactive) ?_
    simp [take, RunEvent.failure?, hpayload, isFailureRow_failureRow]
  | terminal terminal =>
    have hends := isTerminal_of_payload hpayload
    have hlast : event ∈ events ++ [event] := by simp
    have hnone := h.active.mp hactive
    refine ⟨h.bound, h.called_consume haccepts, iff_of_false Bool.false_ne_true fun hall => ?_, fun e hmem hterminal => ?_,
      nofun, nofun, nofun, fun e hmem other hother hsub => ?_⟩
    · rw [hall event hlast] at hends
      cases hends
    · rcases List.mem_append.mp hmem with hmem | hmem
      · rw [hnone e hmem] at hterminal
        cases hterminal
      · rw [List.mem_singleton.mp hmem]
    · rcases List.mem_append.mp hmem with hmem | hmem
      · have := isTerminal_of_payload hother
        rw [hnone e hmem] at this
        cases this
      · rw [List.mem_singleton.mp hmem, hpayload] at hother
        cases hother
        have hfailure : event.failure? = none := by simp [RunEvent.failure?, hpayload]
        rw [List.filterMap_append, List.filterMap_cons_none hfailure, List.filterMap_nil, List.append_nil] at hsub
        refine appendResultDetails_failures ?_
        rw [h.streamed hactive]
        obtain ⟨rest, hperm, hsublist⟩ := hsub
        exact ⟨rest.map failureRow, hperm.map failureRow, hsublist.map failureRow⟩

/-- In service order, a view accepts events only while its run is active. -/
theorem Follows.active_of_accepts (h : Follows runId calls events view)
    (horder : InServiceOrder (calls ++ [.consumes event])) (haccepts : view.accepts event = true) :
    view.state.active = true := by
  unfold accepts at haccepts
  rw [Bool.and_eq_true, decide_eq_true_eq, decide_eq_true_eq] at haccepts
  rw [h.active]
  intro e hmem
  by_contra hterminal
  rw [Bool.not_eq_false] at hterminal
  obtain ⟨hrun, hcalled⟩ := h.called e hmem
  have hevent : e ∈ calls.filterMap Call.event? := List.mem_filterMap.mpr ⟨_, hcalled, rfl⟩
  unfold InServiceOrder at horder
  rw [List.filterMap_append, List.pairwise_append] at horder
  have hle := horder.2.2 e hevent event (by simp [Call.event?]) (hrun.trans (h.bound.symm.trans haccepts.1.symm)) hterminal
  have hsequence := h.ended e hmem hterminal
  omega

/-- **A view that follows its run does so after one more call.** -/
theorem Follows.perform (h : Follows runId calls events view) (horder : InServiceOrder (calls ++ [call]))
    (hcall : call.isBegin = false) :
    Follows runId (calls ++ [call]) (events ++ view.takes call) (view.perform byteSize call) := by
  cases call with
  | begins runId => cases hcall
  | consumes event =>
    show Follows runId _ (events ++ if view.accepts event then [event] else []) (view.consume byteSize event).2
    by_cases haccepts : view.accepts event = true
    · rw [consume_of_accepts haccepts, if_pos haccepts]
      exact h.consume haccepts (h.active_of_accepts horder haccepts)
    · rw [consume_of_not_accepts (by simpa using haccepts), if_neg haccepts, List.append_nil]
      exact h.idle rfl
  | requestsCancellation =>
    show Follows runId _ (events ++ []) (view.requestCancellation)
    rw [List.append_nil]
    exact h.request rfl view.state.closeRequested
  | requestsClose =>
    show Follows runId _ (events ++ []) (view.requestClose).2
    rw [List.append_nil]
    unfold requestClose
    split_ifs with hactive
    · have hidle := @Follows.request runId view calls .requestsClose events h rfl view.state.closeRequested
      unfold requestCancellation at hidle
      rw [Bool.not_eq_true'] at hactive
      rwa [hactive, Bool.false_and, if_neg Bool.false_ne_true] at hidle
    · exact @Follows.request runId view calls .requestsClose events h rfl true

/-- **A view follows the run that it is bound to.** -/
theorem follows_run (runId : Text) (horder : InServiceOrder calls) (hcalls : ∀ call ∈ calls, call.isBegin = false) :
    Follows runId calls (accepted byteSize (RunView.begin runId) calls) (run byteSize (RunView.begin runId) calls) := by
  induction calls using List.reverseRecOn with
  | nil => exact follows_begin runId
  | append_singleton calls call ih =>
    have hbefore : InServiceOrder calls := by
      unfold InServiceOrder at horder ⊢
      rw [List.filterMap_append, List.pairwise_append] at horder
      exact horder.1
    have h := ih hbefore fun c hmem => hcalls c (List.mem_append_left _ hmem)
    rw [run_append, accepted_append]
    have htakes : accepted byteSize (run byteSize (RunView.begin runId) calls) [call] =
        (run byteSize (RunView.begin runId) calls).takes call := List.append_nil _
    rw [htakes]
    exact h.perform horder (hcalls call (by simp))

/-- A view whose run is active shows its label, marked exactly when cancellation was requested. -/
theorem Follows.label_iff (h : Follows runId calls events view) (hactive : view.state.active = true) :
    (cancelling <+: view.state.label ↔ ∃ call ∈ calls, call.requests = true) ∧
      ¬ cancelling ++ cancelling <+: view.state.label := by
  obtain ⟨base, hbase, hlabel⟩ := h.label hactive
  rw [← List.any_eq_true, ← h.requested hactive, hlabel]
  by_cases hrequested : view.state.cancellationRequested = true
  · rw [if_pos hrequested, List.prefix_append_right_inj]
    exact ⟨iff_of_true (List.prefix_append _ _) hrequested, hbase⟩
  · rw [if_neg hrequested]
    exact ⟨iff_of_false hbase hrequested, fun hmarked => hbase ((List.prefix_append _ _).trans hmarked)⟩

end Follows

/-- **The view follows the bound run**: it takes in nothing of another run or stale; while the run is active its label
is marked once, exactly when cancellation was requested, and no run may start; none may either once a close was
requested; and after the end the failure rows are those of the result, each as often as a failure renders to it. -/
theorem follows_bound_run (byteSize : Nat → Text) (earlier calls : List Call) (runId : Text)
    (hcalls : ∀ call ∈ calls, call.isBegin = false) (horder : InServiceOrder calls) :
    let began := run byteSize { } (earlier ++ [.begins runId])
    let view := run byteSize began calls
    let events := accepted byteSize began calls
    (∀ event, event.runId ≠ runId ∨ event.sequence ≤ view.sequence → view.consume byteSize event = (false, view)) ∧
      (view.state.active = true → (cancelling <+: view.state.label ↔ ∃ call ∈ calls, call.requests = true) ∧
        ¬ cancelling ++ cancelling <+: view.state.label) ∧
      (view.state.active = true ↔ ∀ event ∈ events, event.isTerminal = false) ∧
      (view.state.active = true → view.canStart = false) ∧
      (∀ before after, calls = before ++ .requestsClose :: after →
        (∀ event ∈ accepted byteSize began before, event.isTerminal = false) → view.canStart = false) ∧
      ∀ event ∈ events, ∀ terminal, event.payload = .terminal terminal →
        (events.filterMap RunEvent.failure?).Subperm terminal.result.evidence.storage.failures →
          (view.state.details.filter isFailureRow).Perm (terminal.result.evidence.storage.failures.map failureRow) := by
  intro began view events
  have hbegan : began = RunView.begin runId := by
    simp only [began, run_append]
    rfl
  have h : Follows runId calls events view := by
    simp only [events, view, hbegan]
    exact follows_run runId horder hcalls
  refine ⟨fun event hstale => consume_of_not_accepts ?_, h.label_iff, h.active, fun hactive => by simp [canStart, hactive],
    fun before after heq hbefore => ?_, h.rows⟩
  · unfold accepts
    rw [h.bound, Bool.and_eq_false_iff, decide_eq_false_iff_not, decide_eq_false_iff_not, Nat.not_lt]
    exact hstale
  · have hprior : InServiceOrder before := by
      unfold InServiceOrder at horder ⊢
      rw [heq, List.filterMap_append, List.pairwise_append] at horder
      exact horder.1
    have hfollows := @follows_run byteSize before runId hprior fun call hmem => hcalls call (by simp [heq, hmem])
    rw [← hbegan] at hfollows
    have hclosing := requestClose_of_active (hfollows.active.mpr hbefore)
    have hlater : view.state.closeRequested = true := by
      simp only [view, heq, run_append]
      exact @run_closeRequested byteSize (perform byteSize (run byteSize began before) .requestsClose) after
        (fun call hmem => hcalls call (by simp [heq, hmem])) hclosing
    simp [canStart, hlater]

/-- A run that is to be cancelled. -/
theorem follows_cancelled : cancelling <+:
    (run counted (run counted { } ([] ++ [.begins ['r']])) [.requestsCancellation]).state.label :=
  ((follows_bound_run counted [] [.requestsCancellation] ['r'] (by decide) List.Pairwise.nil).2.1 rfl).1.mpr
    ⟨.requestsCancellation, List.mem_cons_self, rfl⟩

end RunView
end Cao.Gui
