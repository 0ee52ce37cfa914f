import Cao.Gui.Session

/-!
# A run in flight

What holds of the window whatever is done to it, from its startup until it closes.

* `Running`, `Idle`, `Sound`: what holds while a run is in flight, without one, and always;
* `sound_act`, `sound_session`: each step keeps it, and so does a session;
* **`session_sound`**: a run goes on with what the window showed when it was started, whatever is done meanwhile.
-/

namespace Cao.Gui

open Profile (ProfileSettings CommonSettings Profiles Process)
open Service (StartError)
open Setup (RunRequest runRequest)

/-! ## Sound windows -/

section

variable {D : Type} {parseF64 : Text → Option Binary64} {tables : CaseTables} {isAbsolute : Text → Bool}

/-- A run is in flight: the window waits for it and for no other, and holds on to what it was started with. -/
structure Running (tables : CaseTables) (isAbsolute : Text → Bool) (s : Session D parseF64) (handle : Handle D parseF64) :
    Prop where
  locked : s.locked = true
  running : s.running = true
  opened : s.closed = false
  active : s.view.state.active = true
  bound : s.view.state.runId = handle.runId
  waiting : s.waiting = [handle.runId]
  cancelling : s.cancelling = handle.cancellationRequested
  cancelled : s.view.state.cancellationRequested = handle.cancellationRequested
  closing : s.view.state.closeRequested = true → handle.cancellationRequested = true
  profile : s.loaded.profile = handle.shown.profile
  options : s.loaded.options = handle.shown.options
  settings : s.loaded.settings = handle.shown.settings
  request : runRequest isAbsolute handle.shown.profile.name handle.shown.options handle.shown.capabilities = .ok handle.request
  written : Written tables s handle.shown

/-- No run is in flight: the window waits for none, and is open for another unless it is closed. -/
structure Idle (s : Session D parseF64) : Prop where
  active : s.view.state.active = false
  waiting : s.waiting = []
  opened : s.closed = false →
    s.locked = false ∧ s.running = false ∧ s.cancelling = false ∧ s.view.state.closeRequested = false

/-- What holds after every step of a session. -/
structure Sound (tables : CaseTables) (isAbsolute : Text → Bool) (s : Session D parseF64) : Prop where
  steady : SteadyFiles tables s
  run : ∀ handle, s.active = some handle → Running tables isAbsolute s handle
  idle : s.active = none → Idle s
  outcome : s.view.state.active = true → s.view.state.outcome = none

variable {s s' : Session D parseF64}

theorem Running.of_steadfast {handle : Handle D parseF64} (h : Running tables isAbsolute s handle) (hsame : Steadfast s s') :
    Running tables isAbsolute s' handle := by
  have hstanding := hsame.standing
  have hview : s'.view = s.view := congrArg Standing.view hstanding
  exact {
    locked := (congrArg Standing.locked hstanding).trans h.locked
    running := (congrArg Standing.running hstanding).trans h.running
    opened := (congrArg Standing.closed hstanding).trans h.opened
    active := hview ▸ h.active
    bound := hview ▸ h.bound
    waiting := (congrArg Standing.waiting hstanding).trans h.waiting
    cancelling := (congrArg Standing.cancelling hstanding).trans h.cancelling
    cancelled := hview ▸ h.cancelled
    closing := hview ▸ h.closing
    profile := hsame.profile.trans h.profile
    options := hsame.options.trans h.options
    settings := hsame.settings.trans h.settings
    request := h.request
    written := h.written.of_eq hsame.profileIni }

theorem Idle.of_standing (h : Idle s) (hstanding : s'.standing = s.standing) : Idle s' := by
  have hview : s'.view = s.view := congrArg Standing.view hstanding
  have hclosed : s'.closed = s.closed := congrArg Standing.closed hstanding
  have hlocked : s'.locked = s.locked := congrArg Standing.locked hstanding
  have hrunning : s'.running = s.running := congrArg Standing.running hstanding
  have hcancelling : s'.cancelling = s.cancelling := congrArg Standing.cancelling hstanding
  refine ⟨hview ▸ h.active, (congrArg Standing.waiting hstanding).trans h.waiting, ?_⟩
  rw [hview, hclosed, hlocked, hrunning, hcancelling]
  exact h.opened

/-- **A window that stands fast stays sound.** -/
theorem Sound.of_steadfast (h : Sound tables isAbsolute s) (hsame : Steadfast s s') : Sound tables isAbsolute s' := by
  have hactive : s'.active = s.active := congrArg Standing.active hsame.standing
  have hview : s'.view = s.view := congrArg Standing.view hsame.standing
  refine ⟨h.steady.of_eq hsame.profileIni, fun handle hhandle => ?_, fun hnone => ?_, hview ▸ h.outcome⟩
  · exact (h.run handle (hactive ▸ hhandle)).of_steadfast hsame
  · exact (h.idle (hactive ▸ hnone)).of_standing hsame.standing

/-- **Whatever an idle window loads, it stays sound.** -/
theorem Sound.of_standing (h : Sound tables isAbsolute s) (hnone : s.active = none) (hstanding : s'.standing = s.standing)
    (hsteady : SteadyFiles tables s') : Sound tables isAbsolute s' := by
  have hactive : s'.active = none := (congrArg Standing.active hstanding).trans hnone
  have hview : s'.view = s.view := congrArg Standing.view hstanding
  refine ⟨hsteady, fun handle hhandle => ?_, fun _ => (h.idle hnone).of_standing hstanding, hview ▸ h.outcome⟩
  rw [hactive] at hhandle
  cases hhandle

end

/-! ## The view of a run in flight -/

section

variable {view : RunView} {event : RunEvent}

/-- A cancellation is only asked for. -/
theorem requestCancellation_state (h : view.state.active = true) :
    view.requestCancellation.state.active = true ∧ view.requestCancellation.state.runId = view.state.runId ∧
      view.requestCancellation.state.cancellationRequested = true ∧
      view.requestCancellation.state.closeRequested = view.state.closeRequested ∧
      view.requestCancellation.state.outcome = view.state.outcome := by
  unfold RunView.requestCancellation
  rw [h, Bool.true_and]
  cases hcancelled : view.state.cancellationRequested with
  | true =>
    rw [if_neg (show ¬ (!true) = true from by decide)]
    exact ⟨h, rfl, hcancelled, rfl, rfl⟩
  | false =>
    rw [if_pos (show (!false) = true from rfl)]
    exact ⟨h, rfl, rfl, rfl, rfl⟩

/-- The terminal event ends the run. -/
theorem take_of_terminal (byteSize : Nat → Text) (state : RunViewState) (h : event.isTerminal = true) :
    (RunView.take byteSize state event.payload).active = false ∧
      (RunView.take byteSize state event.payload).outcome.isSome = true := by
  unfold RunEvent.isTerminal at h
  cases hpayload : event.payload with
  | terminal terminal => exact ⟨rfl, rfl⟩
  | phase record => simp [hpayload] at h
  | diagnostic diagnostic => simp [hpayload] at h
  | failure failure => simp [hpayload] at h

/-- What no event but the terminal one changes. -/
structure GoesOn (state state' : RunViewState) : Prop where
  active : state'.active = state.active
  bound : state'.runId = state.runId
  cancelled : state'.cancellationRequested = state.cancellationRequested
  closing : state'.closeRequested = state.closeRequested
  outcome : state'.outcome = state.outcome

theorem goesOn_take (byteSize : Nat → Text) (state : RunViewState) (h : event.isTerminal = false) :
    GoesOn state (RunView.take byteSize state event.payload) := by
  unfold RunEvent.isTerminal at h
  cases hpayload : event.payload with
  | terminal terminal => simp [hpayload] at h
  | phase record => exact ⟨rfl, rfl, rfl, rfl, rfl⟩
  | diagnostic diagnostic => exact ⟨rfl, rfl, rfl, rfl, rfl⟩
  | failure failure => exact ⟨rfl, rfl, rfl, rfl, rfl⟩

end

/-! ## Steps -/

section

variable {D : Type} [DecidableEq D] {parseF64 : Text → Option Binary64} {tables : CaseTables} {profiles : Profiles D}
  {isAbsolute : Text → Bool} {byteSize : Nat → Text} {s s' : Session D parseF64} {handle : Handle D parseF64}
  {reading : Reading parseF64}

/-- From `s`, a program leaves the window sound, unless the process dies. -/
def KeepsSound (tables : CaseTables) (isAbsolute : Text → Bool) (x : Windowed D parseF64 Unit) (s : Session D parseF64) : Prop :=
  Prog.Spec x s (fun _ s' => Sound tables isAbsolute s') (fun _ _ => True) fun _ => True

omit [DecidableEq D] in
theorem Sound.idle_of_active (h : Sound tables isAbsolute s) (hview : s.view.state.active = false) : s.active = none := by
  cases hactive : s.active with
  | none => rfl
  | some handle => exact absurd (h.run handle hactive).active (by rw [hview]; decide)

omit [DecidableEq D] in
theorem Sound.idle_of_running (h : Sound tables isAbsolute s) (hrunning : s.running = false) : s.active = none := by
  cases hactive : s.active with
  | none => rfl
  | some handle => exact absurd (h.run handle hactive).running (by rw [hrunning]; decide)

omit [DecidableEq D] in
theorem Sound.handle_of_active (h : Sound tables isAbsolute s) (hview : s.view.state.active = true) :
    ∃ handle, s.active = some handle := by
  cases hactive : s.active with
  | none => exact absurd (h.idle hactive).active (by rw [hview]; decide)
  | some handle => exact ⟨handle, rfl⟩

omit [DecidableEq D] in
theorem Sound.handle_of_waiting (h : Sound tables isAbsolute s) {runId : Text} (hmem : runId ∈ s.waiting) :
    ∃ handle, s.active = some handle := by
  cases hactive : s.active with
  | none =>
    rw [(h.idle hactive).waiting] at hmem
    cases hmem
  | some handle => exact ⟨handle, rfl⟩

/-- A save keeps a window sound. -/
theorem sound_save (h : Sound tables isAbsolute s) : Prog.Spec (save tables profiles reading) s
    (fun saved s' => Sound tables isAbsolute s' ∧ SaveLeaves tables s saved s') (fun _ _ => True) fun _ => True := by
  refine (spec_save h.steady).mono (fun saved s' hsaved => ⟨?_, hsaved⟩) (fun _ _ h => h) fun _ h => h
  cases hactive : s.active with
  | none => exact h.of_standing hactive hsaved.standing hsaved.steady
  | some handle => exact h.of_steadfast (hsaved.locked (h.run handle hactive).locked)

omit [DecidableEq D] in
/-- A message keeps it sound. -/
theorem sound_message (h : Sound tables isAbsolute s) (given : Message D) :
    KeepsSound tables isAbsolute (message given) s :=
  (moves_message given s).mono (fun _ _ hsame => h.of_steadfast hsame) (fun _ _ h => h) fun _ h => h

theorem sound_selectProfile (h : Sound tables isAbsolute s) (name : Text) :
    KeepsSound tables isAbsolute (selectProfile tables profiles name reading) s := by
  refine Prog.spec_bind.mpr (Prog.spec_get.mpr ?_)
  cases hrunning : s.running with
  | true => exact h
  | false =>
    have hnone := h.idle_of_running hrunning
    refine Prog.spec_bind.mpr ((sound_save h).mono (fun saved s₁ h₁ => ?_) (fun _ _ h => h) fun _ h => h)
    have hnone₁ : s₁.active = none := (congrArg Standing.active h₁.2.standing).trans hnone
    refine (moves_loadProfile name s₁).mono (fun _ s₂ h₂ => ?_) (fun _ _ h => h) fun _ h => h
    exact h₁.1.of_standing hnone₁ h₂.standing (h₁.1.steady.of_eq h₂.profileIni)

omit [DecidableEq D] in
/-- A run that is cancelled goes on, whatever of its view was asked to close. -/
theorem sound_cancelRun {view : RunView} (h : Sound tables isAbsolute s) (hhandle : s.active = some handle)
    (hactive : view.state.active = true) (hbound : view.state.runId = s.view.state.runId)
    (houtcome : view.state.outcome = none) :
    KeepsSound tables isAbsolute cancelRun { s with view } := by
  have hrun := h.run handle hhandle
  obtain ⟨hactive', hbound', hcancelled', -, houtcome'⟩ := requestCancellation_state hactive
  unfold KeepsSound cancelRun
  refine Prog.spec_modify.mpr ?_
  dsimp only
  rw [hhandle]
  dsimp only
  rw [if_pos hactive]
  refine ⟨h.steady, fun handle' hhandle' => ?_, nofun, fun _ => houtcome'.trans houtcome⟩
  cases hhandle'
  exact { hrun with
    active := hactive'
    bound := hbound'.trans (hbound.trans hrun.bound)
    cancelling := rfl
    cancelled := hcancelled'
    closing := fun _ => rfl }

theorem sound_startRun (h : Sound tables isAbsolute s) (hview : s.view.state.active = false) (hopened : s.closed = false)
    (redirected : Except Text Unit) (started : RunRequest → Except StartError Text) :
    KeepsSound tables isAbsolute (startRun tables profiles isAbsolute reading redirected started) s := by
  have hnone := h.idle_of_active hview
  refine Prog.spec_bind.mpr ((sound_save h).mono (fun saved s₁ h₁ => ?_) (fun _ _ h => h) fun _ h => h)
  obtain ⟨hsound, hsaved⟩ := h₁
  cases saved with
  | false => exact hsound
  | true =>
    rw [if_pos rfl]
    refine Prog.spec_bind.mpr (Prog.spec_get.mpr ?_)
    cases redirected with
    | error error => exact sound_message hsound _
    | ok u =>
      dsimp only
      cases hrequest : runRequest isAbsolute s₁.loaded.profile.name s₁.loaded.options s₁.loaded.capabilities with
      | error error => exact sound_message hsound _
      | ok request =>
        dsimp only
        cases started request with
        | error error => exact sound_message hsound _
        | ok runId =>
          have hwaiting : s₁.waiting = [] := (congrArg Standing.waiting hsaved.standing).trans (h.idle hnone).waiting
          refine ⟨hsound.steady, fun handle hhandle => ?_, nofun, fun _ => rfl⟩
          cases hhandle
          exact {
            locked := rfl
            running := rfl
            opened := (congrArg Standing.closed hsaved.standing).trans hopened
            active := rfl
            bound := rfl
            waiting := congrArg (runId :: ·) hwaiting
            cancelling := rfl
            cancelled := rfl
            closing := nofun
            profile := rfl
            options := rfl
            settings := rfl
            request := hrequest
            written := hsaved.written ((h.idle hnone).opened hopened).1 rfl }

theorem sound_runClicked (h : Sound tables isAbsolute s) (hopened : s.closed = false) (redirected : Except Text Unit)
    (started : RunRequest → Except StartError Text) :
    KeepsSound tables isAbsolute (runClicked tables profiles isAbsolute reading redirected started) s := by
  refine Prog.spec_bind.mpr (Prog.spec_get.mpr ?_)
  cases hview : s.view.state.active with
  | true =>
    rw [if_pos rfl]
    obtain ⟨handle, hhandle⟩ := h.handle_of_active hview
    exact sound_cancelRun h hhandle hview rfl (h.outcome hview)
  | false =>
    rw [if_neg Bool.false_ne_true]
    split_ifs
    · exact sound_startRun h hview hopened redirected started
    · exact h

/-- A window that closes is sound once no run is in flight. -/
theorem sound_closeWindow (hsteady : SteadyFiles tables s) (hnone : s.active = none) (hview : s.view.state.active = false)
    (hwaiting : s.waiting = []) : KeepsSound tables isAbsolute (closeWindow tables profiles reading) s := by
  refine Prog.spec_bind.mpr ((spec_save hsteady).mono (fun saved s₁ h₁ => ?_) (fun _ _ h => h) fun _ h => h)
  have hview₁ : s₁.view = s.view := congrArg Standing.view h₁.standing
  have hactive₁ : s₁.view.state.active = false := by
    rw [hview₁]
    exact hview
  have hnone₁ : s₁.active = none := (congrArg Standing.active h₁.standing).trans hnone
  have hwaiting₁ : s₁.waiting = [] := (congrArg Standing.waiting h₁.standing).trans hwaiting
  refine Prog.spec_modify.mpr ⟨h₁.steady, fun handle hhandle => ?_, fun _ => ⟨hactive₁, hwaiting₁, nofun⟩, fun hactive => ?_⟩
  · exact absurd (hnone₁.symm.trans hhandle) nofun
  · exact absurd (hactive₁.symm.trans hactive) nofun

/-- **A run that ends** leaves the window idle, or closes it. -/
theorem sound_endRun {view : RunView} (h : Sound tables isAbsolute s) (hhandle : s.active = some handle)
    (hview : view.state.active = false) : KeepsSound tables isAbsolute (endRun tables profiles reading) { s with view } := by
  have hrun := h.run handle hhandle
  refine Prog.spec_bind.mpr (Prog.spec_modify.mpr (Prog.spec_bind.mpr (Prog.spec_get.mpr ?_)))
  dsimp only
  rw [hhandle]
  dsimp only
  have hwaiting : s.waiting.filter (fun runId => decide (runId ≠ handle.runId)) = [] := by
    rw [hrun.waiting]
    simp
  by_cases hclose : view.state.closeRequested = true
  · rw [if_pos hclose]
    exact sound_closeWindow h.steady rfl hview hwaiting
  · rw [if_neg hclose]
    refine Prog.spec_bind.mpr (Prog.spec_modify.mpr ?_)
    refine Prog.spec_bind.mpr ((sound_save ?_).mono (fun saved s₁ h₁ => sound_message h₁.1 _) (fun _ _ h => h) fun _ h => h)
    exact ⟨h.steady, fun handle hsome => absurd hsome (Option.some_ne_none handle).symm,
      fun _ => ⟨hview, hwaiting, fun _ => ⟨rfl, rfl, rfl, eq_false_of_ne_true hclose⟩⟩,
      fun hactive => absurd (hview.symm.trans hactive) nofun⟩

omit [DecidableEq D] in
/-- A view that still shows the run, as it was bound and asked for, keeps the window sound. -/
theorem Sound.shows {view : RunView} (h : Sound tables isAbsolute s) (hhandle : s.active = some handle)
    (hactive : view.state.active = true) (hbound : view.state.runId = s.view.state.runId)
    (hcancelled : view.state.cancellationRequested = s.view.state.cancellationRequested)
    (hclosing : view.state.closeRequested = s.view.state.closeRequested) (houtcome : view.state.outcome = none) :
    Sound tables isAbsolute { s with view } := by
  have hrun := h.run handle hhandle
  refine ⟨h.steady, fun handle' hhandle' => ?_, fun hnone => ?_, fun _ => houtcome⟩
  · obtain rfl : handle = handle' := Option.some.inj (hhandle.symm.trans hhandle')
    exact { hrun with
      active := hactive
      bound := hbound.trans hrun.bound
      cancelled := hcancelled.trans hrun.cancelled
      closing := fun hclose => hrun.closing (hclosing.symm.trans hclose) }
  · exact absurd (hhandle.symm.trans hnone) (Option.some_ne_none handle)

/-- **An event of the run in flight** is taken in; the terminal one ends the run. -/
theorem sound_onRunEvent (h : Sound tables isAbsolute s) (hhandle : s.active = some handle) (event : RunEvent) :
    KeepsSound tables isAbsolute (onRunEvent tables profiles byteSize event reading) s := by
  have hrun := h.run handle hhandle
  refine Prog.spec_bind.mpr (Prog.spec_get.mpr ?_)
  dsimp only
  cases haccepts : s.view.accepts event with
  | false =>
    rw [RunView.consume_of_not_accepts haccepts, if_neg Bool.false_ne_true]
    exact h
  | true =>
    rw [RunView.consume_of_accepts haccepts, if_pos rfl]
    refine Prog.spec_bind.mpr (Prog.spec_modify.mpr ?_)
    rw [hrun.active, Bool.true_and]
    cases hterminal : event.isTerminal with
    | true =>
      obtain ⟨hends, houtcome⟩ := take_of_terminal byteSize s.view.state hterminal
      rw [if_pos houtcome]
      exact sound_endRun h hhandle hends
    | false =>
      have hgoes := goesOn_take byteSize s.view.state hterminal
      have hnone : (RunView.take byteSize s.view.state event.payload).outcome = none :=
        hgoes.outcome.trans (h.outcome hrun.active)
      rw [if_neg (by rw [hnone]; decide)]
      exact h.shows hhandle (hgoes.active.trans hrun.active) hgoes.bound hgoes.cancelled hgoes.closing hnone

theorem sound_deliver (h : Sound tables isAbsolute s) (event : RunEvent) :
    KeepsSound tables isAbsolute (deliver tables profiles byteSize event reading) s := by
  refine Prog.spec_bind.mpr (Prog.spec_get.mpr ?_)
  by_cases hmem : event.runId ∈ s.waiting
  · rw [if_pos hmem]
    obtain ⟨handle, hhandle⟩ := h.handle_of_waiting hmem
    exact sound_onRunEvent h hhandle event
  · rw [if_neg hmem]
    exact h

/-- A window that is asked to close does so once no run is in flight. -/
theorem sound_askToClose (h : Sound tables isAbsolute s) :
    KeepsSound tables isAbsolute (askToClose tables profiles reading) s := by
  refine Prog.spec_bind.mpr (Prog.spec_get.mpr (Prog.spec_bind.mpr (Prog.spec_modify.mpr ?_)))
  unfold RunView.requestClose
  cases hview : s.view.state.active with
  | false =>
    have hnone := h.idle_of_active hview
    exact sound_closeWindow h.steady hnone hview (h.idle hnone).waiting
  | true =>
    obtain ⟨handle, hhandle⟩ := h.handle_of_active hview
    let asking : RunView := ⟨{ s.view.state with closeRequested := true }, s.view.sequence⟩
    have hasking : asking.state.active = true := hview
    obtain ⟨hactive, hbound, -, -, houtcome⟩ := requestCancellation_state hasking
    exact sound_cancelRun h hhandle hactive hbound (houtcome.trans (h.outcome hview))

/-- **What happens to a window that is open** keeps it sound. -/
theorem sound_act (h : Sound tables isAbsolute s) (hopened : s.closed = false) (next : Act parseF64) :
    KeepsSound tables isAbsolute (act tables profiles isAbsolute byteSize next) s := by
  cases next with
  | selectsProfile name reading => exact sound_selectProfile h name
  | togglesDebugLog reading =>
    exact Prog.spec_bind.mpr ((sound_save h).mono (fun _ _ hsaved => hsaved.1) (fun _ _ h => h) fun _ h => h)
  | clicksRun reading redirected started => exact sound_runClicked h hopened redirected started
  | delivers event reading => exact sound_deliver h event
  | asksToClose reading => exact sound_askToClose h

theorem sound_step (h : Sound tables isAbsolute s) (next : Act parseF64) :
    KeepsSound tables isAbsolute (step tables profiles isAbsolute byteSize next) s := by
  refine Prog.spec_bind.mpr (Prog.spec_get.mpr ?_)
  by_cases hclosed : s.closed = true
  · rw [if_pos hclosed]
    exact h
  · rw [if_neg hclosed]
    exact sound_act h (eq_false_of_ne_true hclosed) next

omit [DecidableEq D] in
theorem sound_new {process : Process D} {common : CommonSettings} {current : Text}
    (hsteady : ∀ directory, Ini.Steady tables ((process.files.contents (directory, "profile.ini".toList)).getD [])) :
    Sound tables isAbsolute (Session.new profiles process common current : Session D parseF64) :=
  ⟨hsteady, fun handle hhandle => absurd hhandle (Option.some_ne_none handle).symm,
    fun _ => ⟨rfl, rfl, fun _ => ⟨rfl, rfl, rfl, rfl⟩⟩, fun hactive => absurd hactive Bool.false_ne_true⟩

/-- From its startup on, a window is sound. -/
theorem sound_session {process : Process D} {common : CommonSettings} {current : Text} (acts : List (Act parseF64))
    (hsteady : ∀ directory, Ini.Steady tables ((process.files.contents (directory, "profile.ini".toList)).getD [])) :
    KeepsSound tables isAbsolute (session tables profiles isAbsolute byteSize current acts)
      (Session.new profiles process common current) := by
  have hnew : Sound tables isAbsolute (Session.new profiles process common current : Session D parseF64) := sound_new hsteady
  refine Prog.spec_bind.mpr ((moves_loadProfile current _).mono (fun _ s₁ h₁ => ?_) (fun _ _ h => h) fun _ h => h)
  have hloaded := hnew.of_standing rfl h₁.standing (hnew.steady.of_eq h₁.profileIni)
  refine Prog.spec_bind.mpr ((moves_firstStart s₁).mono (fun _ s₂ h₂ => ?_) (fun _ _ h => h) fun _ h => h)
  have hstarted := hloaded.of_steadfast h₂
  exact Prog.Spec.forEach (I := fun _ _ s => Sound tables isAbsolute s) (fun _ next _ s h => sound_step h next) [] acts hstarted

omit [DecidableEq D] in
/-- **What a run reads of its Profile** is what the window showed when it was started. -/
theorem Running.loaded (h : Running tables isAbsolute s handle) {settings : ProfileSettings parseF64}
    (hsettings : s.loaded.settings = some settings) (hnodup : settings.texturesUnwantedFormats.Nodup) :
    (s.loaded.profile.loadSettings tables parseF64 { s.process with fates := [] }).1 = .done settings := by
  obtain ⟨data, hdata, hcontents⟩ := h.written settings (h.settings.symm.trans hsettings)
  rw [← h.profile] at hcontents
  let beside : Profiles D := ⟨s.loaded.profile.directory, fun _ => s.loaded.profile.directory⟩
  exact Profile.loaded_of_rewritten beside (.settings s.loaded.profile.name settings) hdata
    (s := { s.process with fates := [] }) rfl hcontents hnodup s.loaded.profile.name rfl

/-- **A run goes on with what the window showed when it was started, whatever is done meanwhile**: no Profile is selected and
nothing but the common settings is saved, what it reads of `profile.ini` and the work it was asked for are still those of the
controls, and no other run is waited for. Without a run the window is open for one, unless it is closed. -/
theorem session_sound (tables : CaseTables) (profiles : Profiles D) (isAbsolute : Text → Bool) (byteSize : Nat → Text)
    (common : CommonSettings) (current : Text) (acts : List (Act parseF64)) {process : Process D} {s : Session D parseF64}
    (hsteady : ∀ directory, Ini.Steady tables ((process.files.contents (directory, "profile.ini".toList)).getD []))
    (hrun : session tables profiles isAbsolute byteSize current acts (Session.new profiles process common current) = (.done (), s)) :
    (∀ handle, s.active = some handle → Running tables isAbsolute s handle ∧
      ∀ settings, s.loaded.settings = some settings → settings.texturesUnwantedFormats.Nodup →
        (s.loaded.profile.loadSettings tables parseF64 { s.process with fates := [] }).1 = .done settings) ∧
    (s.active = none → Idle s) := by
  have hspec : KeepsSound tables isAbsolute (session tables profiles isAbsolute byteSize current acts)
      (Session.new profiles process common current) := sound_session acts hsteady
  unfold KeepsSound Prog.Spec at hspec
  rw [hrun] at hspec
  exact ⟨fun handle hhandle => ⟨hspec.run handle hhandle, fun settings hsettings hnodup =>
    (hspec.run handle hhandle).loaded hsettings hnodup⟩, hspec.idle⟩

/-- A process beside a Profile that does loose assets only. -/
def besideLoose : Process Unit where
  files := AtomicFile.Files.empty.set ((), "profile.ini".toList) (some (Ini.rewriteWith .ascii Setup.looseOnly.edits []))
  fates := []
  pid := 1
  counter := 0

theorem steady_besideLoose (directory : Unit) :
    Ini.Steady .ascii ((besideLoose.files.contents (directory, "profile.ini".toList)).getD []) := by
  have hempty : Ini.Steady .ascii [] := by
    unfold Ini.Steady
    rw [Ini.entries_parse_nil]
    exact List.forall_mem_nil _
  have hcontents : besideLoose.files.contents (directory, "profile.ini".toList) =
      some (Ini.rewriteWith .ascii Setup.looseOnly.edits []) := by
    unfold besideLoose
    rw [AtomicFile.Files.contents_set]
    exact Function.update_self _ _ _
  rw [hcontents, Option.getD_some]
  exact Ini.steady_rewrite Setup.looseOnly.steady hempty

/-- The controls as they were loaded. -/
def asLoaded : Reading fun _ => none := ⟨false, false, true, fun options _ => options, id⟩

/-- A run is started, and another Profile is selected while it is in flight. -/
def startsAndSelects : List (Act fun _ => none) :=
  [.clicksRun asLoaded (.ok ()) fun _ => .ok "run-1".toList, .selectsProfile "FO4".toList asLoaded]

/-- The window that does so, after its first start. -/
def started : Outcome Empty Unit × Session Unit fun _ => none :=
  session .ascii Profile.oneDirectory (fun _ => true) Ini.natText "SSE".toList startsAndSelects
    (Session.new Profile.oneDirectory besideLoose ⟨"SSE".toList, false, false, true, false⟩ "SSE".toList)

theorem session_sound_started : started.2.active.isSome = true ∧ started.2.loaded.profile.name = "SSE".toList ∧
    started.2.loaded.settings.isSome = true ∧ ∀ settings, started.2.loaded.settings = some settings →
      settings.texturesUnwantedFormats.Nodup →
        (started.2.loaded.profile.loadSettings .ascii (fun _ => none) { started.2.process with fates := [] }).1 =
          .done settings := by
  have hran : started.1 = .done () ∧ started.2.active.isSome = true ∧ started.2.loaded.profile.name = "SSE".toList ∧
      started.2.loaded.settings.isSome = true := by decide +kernel
  obtain ⟨hdone, hactive, hname, hsettings⟩ := hran
  have hrun : started = (.done (), started.2) := (Prod.eta started).symm.trans (congrArg (·, started.2) hdone)
  obtain ⟨handle, hhandle⟩ := Option.isSome_iff_exists.mp hactive
  have hsound := session_sound .ascii Profile.oneDirectory (fun _ => true) Ini.natText ⟨"SSE".toList, false, false, true, false⟩
    "SSE".toList startsAndSelects steady_besideLoose hrun
  exact ⟨hactive, hname, hsettings, (hsound.1 handle hhandle).2⟩

end

end Cao.Gui
