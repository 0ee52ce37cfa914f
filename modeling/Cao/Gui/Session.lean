import Cao.Gui.RunView
import Cao.Profile.Store
import Cao.Run.Request
import Cao.Service.Protocol

/-!
# A session of the window

The window over the files of the Profiles (`app.rs`) and over the Optimization Runs that it starts (`app/run.rs`),
from its startup until it closes: a Profile is selected, the window is saved, a run is started, cancelled and reported.

* `Session`, `Handle`: the window with what it last loaded, and the run in flight;
* `Act`, `act`, `session`: what the user, the service and the events do, one after another;
* `Quiet`, `Steadfast`, `Moves`: what of a window its programs leave;
* **`spec_save`**: a save writes what the controls hold, and while a run is in flight the common settings only.
-/

namespace Cao.Gui

open Profile (ProfileSettings CommonSettings Profiles Process StoreError)
open Routing (ProfileCapabilities)
open Service (StartError)
open Setup (RunRequest RunSetupError runRequest profileCapabilities)
open Executor (RunOutcome)

/-! ## The window -/

/-- What the controls read back as, over what was loaded: the menu's three, `read_options` and `read_settings`. -/
structure Reading (parseF64 : Text → Option Binary64) where
  showAdvancedSettings : Bool
  darkMode : Bool
  showTutorial : Bool
  options : Profile.Options → Bool → Profile.Options
  settings : ProfileSettings parseF64 → ProfileSettings parseF64

/-- `Loaded`. -/
structure Loaded (D : Type) (parseF64 : Text → Option Binary64) where
  profile : Profile.Profile D
  common : CommonSettings
  options : Profile.Options
  settings : Option (ProfileSettings parseF64)

/-- `Loaded::capabilities`. -/
def Loaded.capabilities {D : Type} {parseF64 : Text → Option Binary64} (loaded : Loaded D parseF64) :
    Option ProfileCapabilities := loaded.settings.map profileCapabilities

/-- A message box over the window, or the welcome. -/
inductive Message (D : Type)
  | commonNotSaved (error : StoreError D)
  | optionsNotSaved (error : StoreError D)
  | settingsNotSaved (error : StoreError D)
  | profileNotRemembered (error : StoreError D)
  | optionsNotRead (error : StoreError D)
  | profileNotRead (name : Text) (error : StoreError D)
  | logNotOpened (error : Text)
  | setupRefused (error : RunSetupError)
  | startRefused (text : String)
  | ended (outcome : Option RunOutcome)
  | welcome

/-- `start_error_message`. -/
def startErrorMessage (error : StartError) : String :=
  let reason := match error with
    | .missingProfileIdentity => "no profile is selected"
    | .missingModSelectionDirectory => "no mod folder is selected"
    | .activeRun => "another run is still active"
  "The run could not start: " ++ reason ++ "."

/-- A run in flight: `RunHandle`, with what the window showed when it was started. -/
structure Handle (D : Type) (parseF64 : Text → Option Binary64) where
  runId : Text
  request : RunRequest
  cancellationRequested : Bool
  shown : Loaded D parseF64

/-- `App`, with the files beside it. -/
structure Session (D : Type) (parseF64 : Text → Option Binary64) where
  process : Process D
  loaded : Loaded D parseF64
  /-- While a run holds the controls, neither options nor settings are saved. -/
  locked : Bool
  running : Bool
  cancelling : Bool
  view : RunView
  active : Option (Handle D parseF64)
  /-- `RUN_WINDOWS`: the runs whose events the window waits for. -/
  waiting : List Text
  closed : Bool
  messages : List (Message D)

/-- A program of the window, which may die with the process. -/
abbrev Windowed (D : Type) (parseF64 : Text → Option Binary64) (α : Type) := Prog (Session D parseF64) Empty α

/-- What happens to the window. -/
inductive Act (parseF64 : Text → Option Binary64)
  | selectsProfile (name : Text) (reading : Reading parseF64)
  | togglesDebugLog (reading : Reading parseF64)
  /-- The Run button, with what becomes of the log's redirection and of the start. -/
  | clicksRun (reading : Reading parseF64) (redirected : Except Text Unit) (started : RunRequest → Except StartError Text)
  | delivers (event : RunEvent) (reading : Reading parseF64)
  | asksToClose (reading : Reading parseF64)

section

variable {D : Type} {parseF64 : Text → Option Binary64} {α ε : Type}

/-- A program over the files, for the window. -/
def onFiles (x : Prog (Process D) ε α) : Windowed D parseF64 (Except ε α) := fun s =>
  match x s.process with
  | (.done a, process) => (.done (.ok a), { s with process })
  | (.fail e, process) => (.done (.error e), { s with process })
  | (.crash, process) => (.crash, { s with process })

/-- A message box. -/
def message (message : Message D) : Windowed D parseF64 Unit :=
  Prog.modify fun s => { s with messages := s.messages ++ [message] }

/-- Whether a save succeeded; its failure is only shown. -/
def orShow (failure : ε → Message D) : Except ε Unit → Windowed D parseF64 Bool
  | .ok () => return true
  | .error error => do
    message (failure error)
    return false

variable [DecidableEq D]

section

variable (tables : CaseTables) (profiles : Profiles D)

/-- `save`: the common settings. -/
def saveCommon (reading : Reading parseF64) : Windowed D parseF64 Unit := do
  Prog.modify fun s =>
    { s with loaded.common :=
      { s.loaded.common with
        showAdvancedSettings := reading.showAdvancedSettings
        darkMode := reading.darkMode
        showTutorial := reading.showTutorial } }
  let s ← Prog.get
  let answer ← onFiles (profiles.saveCommon tables s.loaded.common)
  let _ ← orShow .commonNotSaved answer

/-- `save`: the options. -/
def saveOptions (reading : Reading parseF64) : Windowed D parseF64 Unit := do
  let s ← Prog.get
  let options := reading.options s.loaded.options s.loaded.settings.isSome
  let answer ← onFiles (s.loaded.profile.saveOptions tables options)
  let _ ← orShow .optionsNotSaved answer
  Prog.modify fun s => { s with loaded.options := options }

/-- `save`: the settings, of a Profile that could be read. -/
def saveSettings (reading : Reading parseF64) : Windowed D parseF64 Bool := do
  let s ← Prog.get
  match s.loaded.settings with
  | none => return true
  | some current =>
    let settings := reading.settings current
    let answer ← onFiles (s.loaded.profile.saveSettings tables settings)
    let saved ← orShow .settingsNotSaved answer
    Prog.modify fun s => { s with loaded.settings := some settings }
    return saved

/-- `save`: whether `profile.ini` holds what the window shows. -/
def save (reading : Reading parseF64) : Windowed D parseF64 Bool := do
  saveCommon tables profiles reading
  let s ← Prog.get
  if s.locked then return true
  else
    saveOptions tables reading
    saveSettings tables reading

/-- `load_profile`: the options, which stay as they were where they cannot be read. -/
def loadOptions (profile : Profile.Profile D) : Windowed D parseF64 Unit := do
  let s ← Prog.get
  match ← onFiles (profile.loadOptions tables s.loaded.options) with
  | .ok options => Prog.modify fun s => { s with loaded.options := options }
  | .error error => message (.optionsNotRead error)

/-- `load_profile`: the settings, without which nothing of the Profile is admitted. -/
def loadSettings (name : Text) (profile : Profile.Profile D) : Windowed D parseF64 Unit := do
  match ← onFiles (profile.loadSettings tables parseF64) with
  | .ok settings => Prog.modify fun s => { s with loaded.settings := some settings }
  | .error error =>
    message (.profileNotRead name error)
    Prog.modify fun s => { s with loaded.settings := none }

/-- `load_profile`, but for what it shows. -/
def loadProfile (name : Text) : Windowed D parseF64 Unit := do
  Prog.modify fun s => { s with loaded.common.profile := name }
  let s ← Prog.get
  let remembered ← onFiles (profiles.saveCommon tables s.loaded.common)
  let _ ← orShow .profileNotRemembered remembered
  let profile := profiles.opened name
  loadOptions tables profile
  loadSettings tables name profile
  Prog.modify fun s => { s with loaded.profile := profile }

/-- `first_start`. -/
def firstStart : Windowed D parseF64 Unit := do
  let s ← Prog.get
  if s.loaded.common.notFirstStart then return ()
  else
    Prog.modify fun s => { s with loaded.common.notFirstStart := true }
    let s ← Prog.get
    let answer ← onFiles (profiles.saveCommon tables s.loaded.common)
    let _ ← orShow .commonNotSaved answer
    message .welcome

/-- `select_profile`; the controls for it are enabled while no run is in flight. -/
def selectProfile (name : Text) (reading : Reading parseF64) : Windowed D parseF64 Unit := do
  let s ← Prog.get
  if s.running then return ()
  else
    let _ ← save tables profiles reading
    loadProfile tables profiles name

/-! ## Runs -/

/-- `cancel_run`. -/
def cancelRun : Windowed D parseF64 Unit :=
  Prog.modify fun s =>
    match s.active with
    | none => s
    | some handle =>
      if s.view.state.active then
        { s with
          active := some { handle with cancellationRequested := true }
          view := s.view.requestCancellation
          cancelling := true }
      else s

variable (isAbsolute : Text → Bool) (byteSize : Nat → Text)

/-- `start_run`. -/
def startRun (reading : Reading parseF64) (redirected : Except Text Unit)
    (started : RunRequest → Except StartError Text) : Windowed D parseF64 Unit := do
  if ← save tables profiles reading then
    let s ← Prog.get
    match redirected with
    | .error error => message (.logNotOpened error)
    | .ok () =>
      match runRequest isAbsolute s.loaded.profile.name s.loaded.options s.loaded.capabilities with
      | .error error => message (.setupRefused error)
      | .ok request =>
        match started request with
        | .error error => message (.startRefused (startErrorMessage error))
        | .ok runId =>
          Prog.modify fun s =>
            { s with
              waiting := runId :: s.waiting
              view := RunView.begin runId
              active := some ⟨runId, request, false, s.loaded⟩
              locked := true
              cancelling := false
              running := true }
  else return ()

/-- `run_clicked`. -/
def runClicked (reading : Reading parseF64) (redirected : Except Text Unit)
    (started : RunRequest → Except StartError Text) : Windowed D parseF64 Unit := do
  let s ← Prog.get
  if s.view.state.active then cancelRun
  else if s.view.canStart then startRun tables profiles isAbsolute reading redirected started
  else return ()

/-- `close_window`. -/
def closeWindow (reading : Reading parseF64) : Windowed D parseF64 Unit := do
  let _ ← save tables profiles reading
  Prog.modify fun s => { s with closed := true }

/-- `end_run`. -/
def endRun (reading : Reading parseF64) : Windowed D parseF64 Unit := do
  Prog.modify fun s =>
    match s.active with
    | none => s
    | some handle => { s with active := none, waiting := s.waiting.filter fun runId => runId ≠ handle.runId }
  let s ← Prog.get
  if s.view.state.closeRequested then closeWindow tables profiles reading
  else
    Prog.modify fun s => { s with running := false, cancelling := false, locked := false }
    let _ ← save tables profiles reading
    message (.ended s.view.state.outcome)

/-- `on_run_event`. -/
def onRunEvent (event : RunEvent) (reading : Reading parseF64) : Windowed D parseF64 Unit := do
  let s ← Prog.get
  let consumed := s.view.consume byteSize event
  if consumed.1 then
    Prog.modify fun s => { s with view := consumed.2 }
    if s.view.state.active && consumed.2.state.outcome.isSome then endRun tables profiles reading else return ()
  else return ()

/-- `deliver`. -/
def deliver (event : RunEvent) (reading : Reading parseF64) : Windowed D parseF64 Unit := do
  let s ← Prog.get
  if event.runId ∈ s.waiting then onRunEvent tables profiles byteSize event reading else return ()

/-- The window is asked to close: during a run it is only once the run is over. -/
def askToClose (reading : Reading parseF64) : Windowed D parseF64 Unit := do
  let s ← Prog.get
  let asked := s.view.requestClose
  Prog.modify fun s => { s with view := asked.2 }
  if asked.1 then closeWindow tables profiles reading else cancelRun

/-- What happens to a window that is open. -/
def act : Act parseF64 → Windowed D parseF64 Unit
  | .selectsProfile name reading => selectProfile tables profiles name reading
  | .togglesDebugLog reading => do let _ ← save tables profiles reading
  | .clicksRun reading redirected started => runClicked tables profiles isAbsolute reading redirected started
  | .delivers event reading => deliver tables profiles byteSize event reading
  | .asksToClose reading => askToClose tables profiles reading

/-- A step of the session. -/
def step (next : Act parseF64) : Windowed D parseF64 Unit := do
  let s ← Prog.get
  if s.closed then return () else act tables profiles isAbsolute byteSize next

/-- `App::new` on the Profile that is resolved, and then what happens. -/
def session (current : Text) (acts : List (Act parseF64)) : Windowed D parseF64 Unit := do
  loadProfile tables profiles current
  firstStart tables profiles
  Prog.forEach acts (step tables profiles isAbsolute byteSize)

end

end

/-- The window before its Profile is loaded. -/
def Session.new {D : Type} {parseF64 : Text → Option Binary64} (profiles : Profiles D) (process : Process D)
    (common : CommonSettings) (current : Text) : Session D parseF64 where
  process
  loaded := ⟨profiles.opened current, common, .default, none⟩
  locked := false
  running := false
  cancelling := false
  view := { }
  active := none
  waiting := []
  closed := false
  messages := []

/-! ## What a program leaves -/

section

variable {D : Type} {parseF64 : Text → Option Binary64} {tables : CaseTables}

/-- What of a window its saves and loads leave. -/
structure Standing (D : Type) (parseF64 : Text → Option Binary64) where
  locked : Bool
  running : Bool
  cancelling : Bool
  view : RunView
  active : Option (Handle D parseF64)
  waiting : List Text
  closed : Bool

def Session.standing (s : Session D parseF64) : Standing D parseF64 :=
  ⟨s.locked, s.running, s.cancelling, s.view, s.active, s.waiting, s.closed⟩

/-- The `profile.ini` of a directory. -/
def Session.profileIni (s : Session D parseF64) (directory : D) : Option Bytes :=
  s.process.files.contents (directory, "profile.ini".toList)

/-- The window stands as it did, and so does every `profile.ini`. -/
structure Quiet (s s' : Session D parseF64) : Prop where
  standing : s'.standing = s.standing
  profileIni : s'.profileIni = s.profileIni

/-- And so does what was loaded of the Profile. -/
structure Steadfast (s s' : Session D parseF64) : Prop extends Quiet s s' where
  profile : s'.loaded.profile = s.loaded.profile
  options : s'.loaded.options = s.loaded.options
  settings : s'.loaded.settings = s.loaded.settings

instance : IsPreorder (Session D parseF64) Quiet where
  refl _ := ⟨rfl, rfl⟩
  trans _ _ _ h h' := ⟨h'.standing.trans h.standing, h'.profileIni.trans h.profileIni⟩

instance : IsPreorder (Session D parseF64) Steadfast where
  refl _ := ⟨⟨rfl, rfl⟩, rfl, rfl, rfl⟩
  trans _ _ _ h h' := ⟨⟨h'.standing.trans h.standing, h'.profileIni.trans h.profileIni⟩, h'.profile.trans h.profile,
    h'.options.trans h.options, h'.settings.trans h.settings⟩

/-- The keys of every `profile.ini` survive a rewrite. -/
def SteadyFiles (tables : CaseTables) (s : Session D parseF64) : Prop :=
  ∀ directory, Ini.Steady tables ((s.profileIni directory).getD [])

/-- The `profile.ini` of a Profile was written with the settings loaded. -/
def Written (tables : CaseTables) (s : Session D parseF64) (loaded : Loaded D parseF64) : Prop :=
  ∀ settings, loaded.settings = some settings → ∃ data, Ini.Steady tables data ∧
    s.profileIni loaded.profile.directory = some (Ini.rewriteWith tables settings.edits data)

variable {s s' : Session D parseF64} {loaded : Loaded D parseF64}

theorem SteadyFiles.of_eq (h : SteadyFiles tables s) (hfiles : s'.profileIni = s.profileIni) : SteadyFiles tables s' := by
  intro directory
  rw [hfiles]
  exact h directory

theorem Written.of_eq (h : Written tables s loaded) (hfiles : s'.profileIni = s.profileIni) : Written tables s' loaded := by
  intro settings hsettings
  rw [hfiles]
  exact h settings hsettings

end

/-! ## Programs over the files -/

section

variable {D : Type} {parseF64 : Text → Option Binary64} {tables : CaseTables} {α β ε : Type}
  {s : Session D parseF64} {rel : Session D parseF64 → Session D parseF64 → Prop}

/-- A program of the window moves it along `rel`, unless the process dies. -/
def Moves (rel : Session D parseF64 → Session D parseF64 → Prop) (x : Windowed D parseF64 α) : Prop :=
  ∀ s, Prog.Spec x s (fun _ s' => rel s s') (fun _ _ => True) fun _ => True

section

variable [IsPreorder (Session D parseF64) rel]

theorem moves_pure (a : α) : Moves rel (pure a : Windowed D parseF64 α) := fun s => refl s

theorem moves_get : Moves rel (Prog.get : Windowed D parseF64 _) := fun s => refl s

theorem Moves.bind {x : Windowed D parseF64 α} {f : α → Windowed D parseF64 β} (hx : Moves rel x)
    (hf : ∀ a, Moves rel (f a)) : Moves rel (x >>= f) := fun s =>
  Prog.spec_bind.mpr ((hx s).mono (fun a s' h => (hf a s').mono (fun _ _ h' => IsTrans.trans _ _ _ h h') (fun _ _ h => h)
    fun _ h => h) (fun _ _ h => h) fun _ h => h)

end

theorem moves_modify {f : Session D parseF64 → Session D parseF64} (h : ∀ s, rel s (f s)) :
    Moves rel (Prog.modify f : Windowed D parseF64 Unit) := fun s => h s

theorem Moves.imp {rel' : Session D parseF64 → Session D parseF64 → Prop} {x : Windowed D parseF64 α} (hx : Moves rel x)
    (h : ∀ s s', rel s s' → rel' s s') : Moves rel' x := fun s => (hx s).mono (fun _ s' => h s s') (fun _ _ h => h) fun _ h => h

theorem Moves.quiet {x : Windowed D parseF64 α} (hx : Moves Steadfast x) : Moves Quiet x := hx.imp fun _ _ h => h.toQuiet

theorem spec_onFiles {x : Prog (Process D) ε α} {Q : Except ε α → Session D parseF64 → Prop}
    (h : Prog.Spec x s.process (fun a process => Q (.ok a) { s with process }) (fun e process => Q (.error e) { s with process })
      fun _ => True) : Prog.Spec (onFiles x : Windowed D parseF64 _) s Q (fun _ _ => True) fun _ => True := by
  unfold Prog.Spec onFiles at *
  split at h <;> rename_i hrun <;> rw [hrun]
  · exact h
  · exact h
  · trivial

theorem steadfast_process {process : Process D}
    (h : ∀ directory, process.files.contents (directory, "profile.ini".toList) = s.profileIni directory) :
    Steadfast s { s with process } := ⟨⟨rfl, funext h⟩, rfl, rfl, rfl⟩

/-- A program that reads files only. -/
theorem moves_reads {x : Prog (Process D) ε α} (h : ∀ files, Prog.Keeps (fun s => s.files = files) x) :
    Moves Steadfast (onFiles x : Windowed D parseF64 _) := fun s => by
  have hsame : ∀ process : Process D, process.files = s.process.files → Steadfast s { s with process } :=
    fun process hfiles => steadfast_process fun directory => by
      rw [hfiles]
      rfl
  exact spec_onFiles ((h s.process.files s.process rfl).mono (fun _ process => hsame process) (fun _ process => hsame process)
    fun _ _ => trivial)

theorem moves_message (given : Message D) : Moves Steadfast (message given : Windowed D parseF64 Unit) := fun _ =>
  ⟨⟨rfl, rfl⟩, rfl, rfl, rfl⟩

theorem moves_orShow (failure : ε → Message D) (answer : Except ε Unit) :
    Moves Steadfast (orShow failure answer : Windowed D parseF64 Bool) := by
  cases answer with
  | ok u => exact moves_pure true
  | error error => exact (moves_message _).bind fun _ => moves_pure false

/-- A change of one file leaves every other that is not temporary. -/
theorem contents_of_leaves {target path : Profile.File D} {rewrite : Option Bytes → Bytes} {ended : AtomicFile.Ended}
    {before after : Profile.File D → Option Bytes} (h : AtomicFile.Leaves Profile.temporaries target rewrite ended before after)
    (hne : path ≠ target) (hpath : ¬ Profile.temporaries.Has path) : after path = before path :=
  (h.others path hne).elim id fun hleft => absurd hleft.2.1 hpath

theorem not_temporary_profileIni (directory : D) : ¬ Profile.temporaries.Has ((directory, "profile.ini".toList) : Profile.File D) :=
  have hname : "profile.ini".toList.getLast? ≠ some 'p' := by decide
  Profile.not_temporary hname

/-- A change of one `profile.ini`, however it ends, keeps every one steady. -/
theorem SteadyFiles.of_leaves {settings : ProfileSettings parseF64} {directory : D} {ended : AtomicFile.Ended}
    {process : Process D} (h : SteadyFiles tables s)
    (hleaves : AtomicFile.Leaves Profile.temporaries (directory, "profile.ini".toList)
      (fun contents => Ini.rewriteWith tables settings.edits (contents.getD [])) ended s.process.files.contents
      process.files.contents) : SteadyFiles tables { s with process } := by
  intro other
  show Ini.Steady tables ((process.files.contents (other, "profile.ini".toList)).getD [])
  by_cases hother : other = directory
  · subst hother
    -- However it ended, the file holds what it held or what it was rewritten with.
    have hended : process.files.contents (other, "profile.ini".toList) = s.profileIni other ∨
        process.files.contents (other, "profile.ini".toList) =
          some (Ini.rewriteWith tables settings.edits ((s.profileIni other).getD [])) := by
      cases ended with
      | done => exact .inr (hleaves.done rfl)
      | failed => exact .inl (hleaves.failed rfl)
      | died => exact hleaves.died rfl
    obtain hsame | hwritten := hended
    · rw [hsame]
      exact h other
    · rw [hwritten]
      exact Ini.steady_rewrite settings.steady (h other)
  · rw [contents_of_leaves hleaves (fun heq => hother (congrArg Prod.fst heq)) (not_temporary_profileIni other)]
    exact h other

/-- A save of another file leaves every `profile.ini`. -/
theorem moves_changes {x : Prog (Process D) ε α} {path : Profile.File D} {rewrite : Option Bytes → Bytes}
    (h : AtomicFile.Changes Profile.temporaries path rewrite x) (hpath : path.2 ≠ "profile.ini".toList) :
    Moves Steadfast (onFiles x : Windowed D parseF64 _) := fun s => by
  have hsame : ∀ ended (process : Process D),
      AtomicFile.Leaves Profile.temporaries path rewrite ended s.process.files.contents process.files.contents →
      Steadfast s { s with process } := fun ended process hleaves => steadfast_process fun directory =>
    contents_of_leaves hleaves (fun heq => hpath (by rw [← heq])) (not_temporary_profileIni directory)
  exact spec_onFiles ((h s.process).mono (fun _ process => hsame _ process) (fun _ process => hsame _ process)
    fun _ _ => trivial)

end

/-! ## Saves and loads -/

section

variable {D : Type} [DecidableEq D] {parseF64 : Text → Option Binary64} {tables : CaseTables} {profiles : Profiles D}
  {s : Session D parseF64} {reading : Reading parseF64}

theorem moves_filesCommon (settings : CommonSettings) :
    Moves Steadfast (onFiles (profiles.saveCommon tables settings) : Windowed D parseF64 _) := by
  have hne : "common.ini".toList ≠ "profile.ini".toList := by decide
  exact moves_changes (Profile.changes_perform tables profiles (.common settings : Profile.Save parseF64)) hne

theorem moves_filesOptions (profile : Profile.Profile D) (options : Profile.Options) :
    Moves Steadfast (onFiles (profile.saveOptions tables options) : Windowed D parseF64 _) := by
  have hname : "settings.ini".toList.getLast? ≠ some 'p' := by decide
  have hpath : ¬ Profile.temporaries.Has profile.settingsIni := Profile.not_temporary hname
  have hne : "settings.ini".toList ≠ "profile.ini".toList := by decide
  have hwrite : ∀ ini : Ini.IniFile tables, options.write ini = ini.edit options.edits := fun _ => rfl
  exact moves_changes (Profile.changes_update hpath hwrite) hne

/-- A save of the common settings moves nothing else. -/
theorem moves_saveCommon : Moves Steadfast (saveCommon tables profiles reading) := by
  unfold saveCommon
  refine Moves.bind (moves_modify fun s => ⟨⟨rfl, rfl⟩, rfl, rfl, rfl⟩) fun _ => moves_get.bind fun s => ?_
  exact Moves.bind (moves_filesCommon _) fun answer => (moves_orShow _ answer).bind fun _ => moves_pure ()

theorem moves_saveOptions : Moves Quiet (saveOptions tables reading : Windowed D parseF64 Unit) := by
  refine moves_get.bind fun s => Moves.bind (moves_filesOptions _ _).quiet fun answer => ?_
  exact (moves_orShow _ answer).quiet.bind fun _ => moves_modify fun s => ⟨rfl, rfl⟩

/-- **A save of the settings** leaves the window as it stands, and where it succeeds, `profile.ini` holds what was loaded. -/
theorem spec_saveSettings (hsteady : SteadyFiles tables s) : Prog.Spec (saveSettings tables reading) s
    (fun saved s' => s'.standing = s.standing ∧ SteadyFiles tables s' ∧ (saved = true → Written tables s' s'.loaded))
    (fun _ _ => True) fun _ => True := by
  refine Prog.spec_bind.mpr (Prog.spec_get.mpr ?_)
  cases hloaded : s.loaded.settings with
  | none =>
    refine ⟨rfl, hsteady, fun _ settings hsettings => ?_⟩
    rw [hloaded] at hsettings
    cases hsettings
  | some current =>
    have hwrite : ∀ ini : Ini.IniFile tables, (reading.settings current).write ini = ini.edit (reading.settings current).edits :=
      (reading.settings current).write_eq_edit
    have hchanges := Profile.changes_update (not_temporary_profileIni s.loaded.profile.directory) hwrite
    refine Prog.spec_bind.mpr (spec_onFiles ((hchanges s.process).mono (fun _ process hleaves => ?_)
      (fun error process hleaves => ⟨rfl, hsteady.of_leaves hleaves, nofun⟩) fun _ _ => trivial))
    refine ⟨rfl, hsteady.of_leaves hleaves, fun _ settings hsettings => ?_⟩
    cases hsettings
    exact ⟨_, hsteady s.loaded.profile.directory, hleaves.done rfl⟩

/-- What a save leaves of the window. -/
structure SaveLeaves (tables : CaseTables) (s : Session D parseF64) (saved : Bool) (s' : Session D parseF64) : Prop where
  standing : s'.standing = s.standing
  steady : SteadyFiles tables s'
  /-- While a run holds the controls, the save is of the common settings. -/
  locked : s.locked = true → Steadfast s s'
  written : s.locked = false → saved = true → Written tables s' s'.loaded

/-- **A save** writes what the controls hold, and while a run is in flight the common settings only. -/
theorem spec_save (hsteady : SteadyFiles tables s) :
    Prog.Spec (save tables profiles reading) s (SaveLeaves tables s) (fun _ _ => True) fun _ => True := by
  refine Prog.spec_bind.mpr ((moves_saveCommon s).mono (fun _ s₁ h₁ => ?_) (fun _ _ h => h) fun _ h => h)
  refine Prog.spec_bind.mpr (Prog.spec_get.mpr ?_)
  have hlocked : s₁.locked = s.locked := congrArg Standing.locked h₁.standing
  have hsteady₁ := hsteady.of_eq h₁.profileIni
  cases hlock : s.locked with
  | true =>
    rw [if_pos (hlocked.trans hlock)]
    exact ⟨h₁.standing, hsteady₁, fun _ => h₁, fun h => absurd (hlock.symm.trans h) (by decide)⟩
  | false =>
    rw [if_neg (by rw [hlocked, hlock]; decide)]
    refine Prog.spec_bind.mpr ((moves_saveOptions s₁).mono (fun _ s₂ h₂ => ?_) (fun _ _ h => h) fun _ h => h)
    refine (spec_saveSettings (hsteady₁.of_eq h₂.profileIni)).mono (fun saved s₃ h₃ => ?_) (fun _ _ h => h) fun _ h => h
    refine ⟨(h₃.1.trans h₂.standing).trans h₁.standing, h₃.2.1, fun h => absurd (hlock.symm.trans h) (by decide), fun _ => h₃.2.2⟩

omit [DecidableEq D] in
theorem moves_loadOptions (profile : Profile.Profile D) :
    Moves Quiet (loadOptions tables profile : Windowed D parseF64 Unit) := by
  refine moves_get.bind fun s => ?_
  refine Moves.bind (moves_reads fun files => Profile.keeps_loadOptions tables files _ _).quiet fun answer => ?_
  cases answer with
  | ok options => exact moves_modify fun s => ⟨rfl, rfl⟩
  | error error => exact (moves_message _).quiet

omit [DecidableEq D] in
theorem moves_loadSettings (name : Text) (profile : Profile.Profile D) :
    Moves Quiet (loadSettings tables name profile : Windowed D parseF64 Unit) := by
  refine Moves.bind (moves_reads fun files => Profile.keeps_loadSettings tables files _).quiet fun answer => ?_
  cases answer with
  | ok settings => exact moves_modify fun s => ⟨rfl, rfl⟩
  | error error => exact (moves_message _).quiet.bind fun _ => moves_modify fun s => ⟨rfl, rfl⟩

/-- A Profile is loaded into the window as it stands. -/
theorem moves_loadProfile (name : Text) : Moves Quiet (loadProfile tables profiles name : Windowed D parseF64 Unit) := by
  refine Moves.bind (moves_modify fun s => ⟨rfl, rfl⟩) fun _ => moves_get.bind fun s => ?_
  refine Moves.bind (moves_filesCommon _).quiet fun remembered => Moves.bind (moves_orShow _ remembered).quiet fun _ => ?_
  refine (moves_loadOptions _).bind fun _ => (moves_loadSettings name _).bind fun _ => ?_
  exact moves_modify fun s => ⟨rfl, rfl⟩

theorem moves_firstStart : Moves Steadfast (firstStart tables profiles : Windowed D parseF64 Unit) := by
  unfold firstStart
  refine moves_get.bind fun s => ?_
  split
  · exact moves_pure ()
  · refine Moves.bind (moves_modify fun s => ⟨⟨rfl, rfl⟩, rfl, rfl, rfl⟩) fun _ => moves_get.bind fun s => ?_
    exact Moves.bind (moves_filesCommon _) fun answer => (moves_orShow _ answer).bind fun _ => moves_message _

end

end Cao.Gui
