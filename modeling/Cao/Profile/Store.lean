import Cao.Lib.AtomicFile
import Cao.Profile.Common

/-!
# The files of the Profiles

`common.ini`, and the `settings.ini` and `profile.ini` of each Profile (`profiles.rs`, `ini/mod.rs`): loads and
saves by a process whose file-system steps may be refused, and which may die at each.

* `Profiles`, `Profile`: the directories; `load`, `save`, `update`: one INI file;
* `loadCommon`, `loadOptions`, `loadSettings`, `Save`, `perform`: the models' loads and saves;
* `run`: any number of them, in any number of processes;
* **`saves_kept`**: each file holds the saves that returned, over what it held, and no save loses another key;
* **`saved_loaded`**: what a save returned for is loaded, until the same file is saved again.
-/

namespace Cao.Profile

open Ini AtomicFile

variable {D : Type} {tables : CaseTables} {parseF64 : Text → Option Binary64}

/-! ## Files -/

/-- A file: the directory it is in, and its name. -/
abbrev File (D : Type) := D × Text

/-- `Profiles`: the `profiles/` directory, and the directory that a name leads to in it. -/
structure Profiles (D : Type) where
  root : D
  directory : Text → D

/-- `Profile`, but for where its auxiliary files are read from. -/
structure Profile (D : Type) where
  name : Text
  directory : D

/-- `common_ini`. -/
def Profiles.commonIni (profiles : Profiles D) : File D := (profiles.root, "common.ini".toList)

/-- `Profiles::open`. -/
def Profiles.opened (profiles : Profiles D) (name : Text) : Profile D := ⟨name, profiles.directory name⟩

/-- `profile_ini`. -/
def Profile.profileIni (profile : Profile D) : File D := (profile.directory, "profile.ini".toList)

/-- `settings_ini`. -/
def Profile.settingsIni (profile : Profile D) : File D := (profile.directory, "settings.ini".toList)

/-- The name that `create_temporary` tries: `{name}.{pid}-{counter}.tmp`. -/
def temporaryName (target : File D) (pid counter : Nat) : File D :=
  (target.1, target.2 ++ '.' :: (natText pid ++ '-' :: (natText counter ++ ".tmp".toList)))

theorem temporaryName_injective (target : File D) (pid : Nat) : Function.Injective (temporaryName target pid) := by
  intro m n h
  have htext := List.append_cancel_left (congrArg Prod.snd h)
  rw [List.cons.injEq] at htext
  have hcounter := List.append_cancel_left htext.2
  rw [List.cons.injEq] at hcounter
  have hdigits := List.append_cancel_right hcounter.2
  have hread := congrArg parseDigits hdigits
  rw [parseDigits_natText, parseDigits_natText] at hread
  exact Option.some.inj hread

/-- The temporary files beside the INI files. -/
def temporaries : Temporaries (File D) := ⟨temporaryName, temporaryName_injective⟩

theorem getLast_temporary {path : File D} (h : temporaries.Has path) : path.2.getLast? = some 'p' := by
  obtain ⟨target, pid, counter, rfl⟩ := h
  show (target.2 ++ '.' :: (natText pid ++ '-' :: (natText counter ++ ".tmp".toList))).getLast? = some 'p'
  rw [← List.cons_append, ← List.append_assoc, ← List.cons_append, ← List.append_assoc]
  exact List.getLast?_append_of_ne_nil _ (List.cons_ne_nil _ _)

/-! ## One INI file -/

/-- A process that works on the files. -/
abbrev Process (D : Type) := State (File D) UInt8

/-- `IniError`. -/
inductive IniError (D : Type)
  | read (path : File D) (source : Refusal)
  | write (path : File D) (source : Refusal)

/-- `ProfileError`, with the files it names. -/
inductive StoreError (D : Type)
  | unavailable (path : File D)
  | ini (error : IniError D)
  | malformed (path : File D) (error : FormatError)
  | value (error : ProfileError)

variable [DecidableEq D]

variable (tables) in
/-- `IniFile::load`. -/
def load (path : File D) : Prog (Process D) (IniError D) (IniFile tables) := do
  match ← Prog.attempt (AtomicFile.read path) with
  | .ok data => return parse tables data
  | .error .notFound => return IniFile.new tables
  | .error source => Prog.fail (.read path source)

/-- `IniFile::save`. -/
def save (ini : IniFile tables) (path : File D) : Prog (Process D) (IniError D) Unit :=
  (replace temporaries path (serialize ini)).mapError (.write path)

variable (tables) in
/-- `update`. -/
def update (path : File D) (change : IniFile tables → IniFile tables) : Prog (Process D) (StoreError D) Unit := do
  let ini ← (load tables path).mapError .ini
  (save (change ini) path).mapError .ini

/-! ## The models -/

section

variable (tables) (profiles : Profiles D) (profile : Profile D)

/-- `load_common`. -/
def Profiles.loadCommon : Prog (Process D) (StoreError D) CommonSettings := do
  return CommonSettings.read (← (load tables profiles.commonIni).mapError .ini)

/-- `save_common`. -/
def Profiles.saveCommon (settings : CommonSettings) : Prog (Process D) (StoreError D) Unit :=
  update tables profiles.commonIni settings.write

/-- `load_options`. -/
def Profile.loadOptions (current : Options) : Prog (Process D) (StoreError D) Options := do
  if ← isThere profile.settingsIni then
    return Options.read (← (load tables profile.settingsIni).mapError .ini) current
  else
    return current

/-- `save_options`. -/
def Profile.saveOptions (options : Options) : Prog (Process D) (StoreError D) Unit :=
  update tables profile.settingsIni options.write

/-- `load_profile_ini`. -/
def Profile.loadProfileIni : Prog (Process D) (StoreError D) (IniFile tables) := do
  if ← isThere profile.profileIni then
    (load tables profile.profileIni).mapError .ini
  else
    Prog.fail (.unavailable profile.profileIni)

variable (parseF64) in
/-- `load_settings`. -/
def Profile.loadSettings : Prog (Process D) (StoreError D) (ProfileSettings parseF64) := do
  let ini ← profile.loadProfileIni tables
  match ini.formatError with
  | some error => Prog.fail (.malformed profile.profileIni error)
  | none => Prog.ofExcept ((ProfileSettings.read parseF64 ini).mapError .value)

/-- `save_settings`. -/
def Profile.saveSettings (settings : ProfileSettings parseF64) : Prog (Process D) (StoreError D) Unit :=
  update tables profile.profileIni settings.write

end

/-- A save of a model. -/
inductive Save (parseF64 : Text → Option Binary64)
  | common (settings : CommonSettings)
  | options (name : Text) (options : Options)
  | settings (name : Text) (settings : ProfileSettings parseF64)

omit [DecidableEq D] in
/-- The file a save is of. -/
def Save.path (profiles : Profiles D) : Save parseF64 → File D
  | .common _ => profiles.commonIni
  | .options name _ => (profiles.opened name).settingsIni
  | .settings name _ => (profiles.opened name).profileIni

/-- What a save sets. -/
def Save.edits : Save parseF64 → List Edit
  | .common given => given.edits
  | .options _ given => given.edits
  | .settings _ given => given.edits

/-- The process does a save. -/
def Profiles.perform (tables : CaseTables) (profiles : Profiles D) : Save parseF64 → Prog (Process D) (StoreError D) Unit
  | .common given => profiles.saveCommon tables given
  | .options name given => (profiles.opened name).saveOptions tables given
  | .settings name given => (profiles.opened name).saveSettings tables given

/-! ## Any number of loads and saves -/

/-- What happens to the files: a model is loaded or saved, or a new process begins. -/
inductive Event (parseF64 : Text → Option Binary64)
  | loadCommon
  | loadOptions (name : Text) (current : Options)
  | loadSettings (name : Text)
  | save (save : Save parseF64)
  | restart (pid : Nat)

/-- The process after some events, and how each save ended. -/
structure Ran (D : Type) (parseF64 : Text → Option Binary64) where
  process : Process D
  log : List (Save parseF64 × Ended)

section

variable (tables) (profiles : Profiles D)

/-- One event. -/
def Profiles.after (ran : Ran D parseF64) : Event parseF64 → Ran D parseF64
  | .loadCommon => { ran with process := (profiles.loadCommon tables ran.process).2 }
  | .loadOptions name current => { ran with process := ((profiles.opened name).loadOptions tables current ran.process).2 }
  | .loadSettings name => { ran with process := ((profiles.opened name).loadSettings tables parseF64 ran.process).2 }
  | .save save =>
    match profiles.perform tables save ran.process with
    | (.done (), process) => ⟨process, ran.log ++ [(save, .done)]⟩
    | (.fail _, process) => ⟨process, ran.log ++ [(save, .failed)]⟩
    | (.crash, process) => ⟨process, ran.log ++ [(save, .died)]⟩
  | .restart pid => { ran with process := { ran.process with pid, counter := 0 } }

/-- Events, one after another. -/
def Profiles.run (events : List (Event parseF64)) (process : Process D) : Ran D parseF64 :=
  events.foldl (profiles.after tables) ⟨process, []⟩

end

/-! ## What loads and saves leave -/

omit [DecidableEq D] in
theorem keeps_load (files : Files (File D) UInt8) (path : File D) :
    Prog.Keeps (fun s => s.files = files) (load tables path) := by
  intro s hs
  refine Prog.spec_bind.mpr (Prog.spec_attempt.mpr (spec_read (fun contents fates _ => ?_) (fun fates _ => ?_)
    (fun fates => ?_) fun fates => hs))
  all_goals exact hs

omit [DecidableEq D] in
theorem keeps_isThere {ε : Type} (files : Files (File D) UInt8) (path : File D) :
    Prog.Keeps (fun s => s.files = files) (isThere path : Prog (Process D) ε Bool) := fun _ hs =>
  spec_isThere (fun _ _ _ => hs) fun _ => hs

section

variable (tables) (files : Files (File D) UInt8) (profiles : Profiles D) (profile : Profile D)

omit [DecidableEq D] in
theorem keeps_loadCommon : Prog.Keeps (fun s => s.files = files) (profiles.loadCommon tables) :=
  (keeps_load files _).mapError.bind fun _ => Prog.keeps_pure _

omit [DecidableEq D] in
theorem keeps_loadOptions (current : Options) :
    Prog.Keeps (fun s => s.files = files) (profile.loadOptions tables current) := by
  refine (keeps_isThere files _).bind fun found => ?_
  split
  · exact (keeps_load files _).mapError.bind fun _ => Prog.keeps_pure _
  · exact Prog.keeps_pure _

omit [DecidableEq D] in
theorem keeps_loadSettings : Prog.Keeps (fun s => s.files = files) (profile.loadSettings tables parseF64) := by
  refine Prog.Keeps.bind ((keeps_isThere files _).bind fun found => ?_) fun ini => ?_
  · split
    · exact (keeps_load files _).mapError
    · exact Prog.keeps_fail _
  · split
    · exact Prog.keeps_fail _
    · exact Prog.keeps_ofExcept _

end

/-- What a save makes of a file's contents. -/
def Save.rewrite (tables : CaseTables) (save : Save parseF64) (contents : Option Bytes) : Bytes :=
  rewriteWith tables save.edits (contents.getD [])

/-- **An update rewrites its file.** -/
theorem changes_update {path : File D} (hpath : ¬temporaries.Has path) {change : IniFile tables → IniFile tables}
    {edits : List Edit} (hchange : ∀ ini, change ini = ini.edit edits) :
    Changes temporaries path (fun contents => rewriteWith tables edits (contents.getD [])) (update tables path change) := by
  intro s
  have hsaved : ∀ ini : IniFile tables, ini = parse tables ((s.files.contents path).getD []) → ∀ fates,
      Prog.Spec ((save (change ini) path).mapError .ini : Prog (Process D) (StoreError D) Unit) { s with fates }
        (fun _ s' => Leaves temporaries path (fun contents => rewriteWith tables edits (contents.getD [])) .done
          s.files.contents s'.files.contents)
        (fun _ s' => Leaves temporaries path (fun contents => rewriteWith tables edits (contents.getD [])) .failed
          s.files.contents s'.files.contents)
        fun s' => Leaves temporaries path (fun contents => rewriteWith tables edits (contents.getD [])) .died
          s.files.contents s'.files.contents := by
    intro ini hini fates
    have hwritten : serialize (change ini) = rewriteWith tables edits ((s.files.contents path).getD []) := by
      rw [hchange, hini]
      rfl
    refine Prog.spec_mapError.mpr (Prog.spec_mapError.mpr ?_)
    exact (spec_replace hpath (serialize (change ini)) _).mono (fun _ _ h => h.congr hwritten)
      (fun _ _ h => h.congr hwritten) fun _ h => h.congr hwritten
  refine Prog.spec_bind.mpr (Prog.spec_mapError.mpr (Prog.spec_bind.mpr (Prog.spec_attempt.mpr
    (spec_read (fun contents fates hthere => ?_) (fun fates hmissing => ?_) (fun fates => ?_) fun fates => ?_))))
  · exact hsaved _ (by rw [hthere, Option.getD_some]) fates
  · exact hsaved _ (by rw [hmissing, Option.getD_none]; rfl) fates
  · exact leaves_same nofun rfl
  · exact leaves_same nofun rfl

omit [DecidableEq D] in
theorem not_temporary {path : File D} (h : path.2.getLast? ≠ some 'p') : ¬temporaries.Has path := fun hhas =>
  h (getLast_temporary hhas)

omit [DecidableEq D] in
theorem not_temporary_path (profiles : Profiles D) (save : Save parseF64) : ¬temporaries.Has (save.path profiles) := by
  have hcommon : "common.ini".toList.getLast? ≠ some 'p' := by decide
  have hsettings : "settings.ini".toList.getLast? ≠ some 'p' := by decide
  have hprofile : "profile.ini".toList.getLast? ≠ some 'p' := by decide
  cases save with
  | common given => exact not_temporary hcommon
  | options name given => exact not_temporary hsettings
  | settings name given => exact not_temporary hprofile

variable (tables) in
/-- **A save rewrites its file.** -/
theorem changes_perform (profiles : Profiles D) (save : Save parseF64) :
    Changes temporaries (save.path profiles) (save.rewrite tables) (profiles.perform tables save) := by
  have hpath := not_temporary_path profiles save
  cases save with
  | common given => exact changes_update hpath fun ini => rfl
  | options name given => exact changes_update hpath fun ini => rfl
  | settings name given => exact changes_update hpath given.write_eq_edit

/-! ## What a run leaves -/

/-- The log of a run says what became of the files. -/
theorem logged_run (tables : CaseTables) (profiles : Profiles D) (events : List (Event parseF64)) (s : Process D) :
    Logged temporaries (Save.path profiles) (Save.rewrite tables) s.files.contents (profiles.run tables events s).log
      (profiles.run tables events s).process.files.contents := by
  induction events using List.reverseRecOn with
  | nil => exact .nil
  | append_singleton events event ih =>
    have hstep : profiles.run tables (events ++ [event]) s = profiles.after tables (profiles.run tables events s) event := by
      unfold Profiles.run
      rw [List.foldl_append]
      rfl
    rw [hstep]
    generalize profiles.run tables events s = ran at ih
    have hread : ∀ {ε α : Type} (x : Prog (Process D) ε α), Prog.Keeps (fun s => s.files = ran.process.files) x →
        Logged temporaries (Save.path profiles) (Save.rewrite tables) s.files.contents ran.log
          (x ran.process).2.files.contents := by
      intro ε α x hx
      rw [hx.ends rfl]
      exact ih
    cases event with
    | loadCommon => exact hread _ (keeps_loadCommon tables _ profiles)
    | loadOptions name current => exact hread _ (keeps_loadOptions tables _ _ current)
    | loadSettings name => exact hread _ (keeps_loadSettings tables _ _)
    | restart pid => exact ih
    | save save =>
      have hchanges := changes_perform tables profiles save ran.process
      unfold Profiles.after
      unfold Prog.Spec at hchanges
      dsimp only
      split <;> rename_i hrun <;> rw [hrun] at hchanges <;> exact .snoc ih hchanges

/-! ## What is read -/

/-- The settings a file holds; none where it is missing. -/
def settingsIn (tables : CaseTables) (contents : Option Bytes) : IniFile tables := parse tables (contents.getD [])

theorem Save.steady (save : Save parseF64) : SteadyEdits tables save.edits := by
  cases save with
  | common given => exact given.steady
  | options name given => exact given.steady
  | settings name given => exact given.steady

/-- **Saves over a file lose none of its other keys.** -/
theorem rewritten_keeps {contents : Option Bytes} (hsteady : Steady tables (contents.getD [])) (held : List (Save parseF64)) :
    Steady tables ((rewritten (Save.rewrite tables) held contents).getD []) ∧
      ∀ key, (∀ save ∈ held, ∀ edit ∈ save.edits, toLowercase tables key ≠ toLowercase tables edit.1) →
        Value.SameReadings ((settingsIn tables contents).value key)
          ((settingsIn tables (rewritten (Save.rewrite tables) held contents)).value key) := by
  induction held using List.reverseRecOn with
  | nil => exact ⟨hsteady, fun key _ => .refl _⟩
  | append_singleton held save ih =>
    obtain ⟨hsteady, hkeys⟩ := ih
    have hlast : rewritten (Save.rewrite tables) (held ++ [save]) contents =
        some (rewriteWith tables save.edits ((rewritten (Save.rewrite tables) held contents).getD [])) := by
      unfold rewritten
      rw [List.foldl_append]
      rfl
    rw [hlast]
    refine ⟨steady_rewrite save.steady hsteady, fun key hkey => ?_⟩
    have hbefore := hkeys key fun save' hsave' => hkey save' (List.mem_append_left _ hsave')
    have hafter := (read_rewrite save.steady hsteady).2.2 key (hkey save (List.mem_append_right _ List.mem_cons_self))
    exact hbefore.trans hafter

/-- One directory for every Profile. -/
def oneDirectory : Profiles Unit := ⟨(), fun _ => ()⟩

/-- A process beside a `settings.ini` that holds a key no model has. -/
def beside (fates : List AtomicFile.Fate) : Process Unit where
  files := Files.empty.set ((), "settings.ini".toList) (some (bytes "[BSA]\r\nbBsaLeastBSA=true".toList))
  fates := fates
  pid := 1
  counter := 0

theorem steady_beside (fates : List AtomicFile.Fate) :
    Steady .ascii (((beside fates).files.contents ((), "settings.ini".toList)).getD []) := by
  have hkeys : ∀ key ∈ (parse .ascii (bytes "[BSA]\r\nbBsaLeastBSA=true".toList)).keys, StableKey .ascii key := by
    have hone : (parse .ascii (bytes "[BSA]\r\nbBsaLeastBSA=true".toList)).keys = ["BSA/bBsaLeastBSA".toList] := by
      decide +kernel
    rw [hone, List.forall_mem_singleton]
    exact stableKey_ascii (forall_of_all (by decide)) (by decide) (by decide)
  exact fun e he => hkeys _ (List.mem_map_of_mem he)

/-- A save in which the process dies as it writes, and another process. -/
def dying : List (Event fun _ => none) := [.save (.options "SSE".toList .default), .restart 2]

omit [DecidableEq D] in
variable (tables) in
/-- A load that meets no fault reads what the file holds. -/
theorem load_done {s : Process D} (hfates : s.fates = []) {path : File D} {data : Bytes} (hdata : s.files.contents path = some data) :
    load tables path s = (.done (parse tables data), s) := by
  obtain ⟨files, fates, pid, counter⟩ := s
  subst hfates
  have hread : AtomicFile.read path ⟨files, [], pid, counter⟩ = (.done data, ⟨files, [], pid, counter⟩) := by
    unfold AtomicFile.read AtomicFile.step
    dsimp only at hdata ⊢
    rw [hdata]
  exact Prog.bind_of_done (Prog.attempt_of_done hread)

omit [DecidableEq D] in
/-- An existence check that meets no fault says what is there. -/
theorem isThere_done {ε : Type} {s : Process D} (hfates : s.fates = []) (path : File D) :
    (isThere path : Prog (Process D) ε Bool) s = (.done (s.files.contents path).isSome, s) := by
  obtain ⟨files, fates, pid, counter⟩ := s
  subst hfates
  rfl

theorem mapError_done {σ ε ε' α : Type} {f : ε → ε'} {x : Prog σ ε α} {a : α} {s s' : σ} (h : x s = (.done a, s')) :
    x.mapError f s = (.done a, s') := by
  unfold Prog.mapError
  rw [h]

/-- What a load of a save's file gives is what was saved: for options a folder that is empty keeps the current one's. -/
def Save.Loaded (tables : CaseTables) (profiles : Profiles D) (s : Process D) : Save parseF64 → Prop
  | .common given => (profiles.loadCommon tables s).1 = .done given
  | .options name given => given.mode ≠ .unsupported 0 → given.mode ≠ .unsupported 1 →
    ∀ again, profiles.directory again = profiles.directory name → ∀ current,
      ((profiles.opened again).loadOptions tables current s).1 = .done (given.readOver current)
  | .settings name given => given.texturesUnwantedFormats.Nodup →
    ∀ again, profiles.directory again = profiles.directory name →
      ((profiles.opened again).loadSettings tables parseF64 s).1 = .done given

omit [DecidableEq D] in
/-- **What a file was rewritten with is loaded from it.** -/
theorem loaded_of_rewritten (profiles : Profiles D) (save : Save parseF64) {data : Bytes} (hsteady : Steady tables data)
    {s : Process D} (hfates : s.fates = []) (hcontents : s.files.contents (save.path profiles) = some (rewriteWith tables save.edits data)) :
    save.Loaded tables profiles s := by
  obtain ⟨hformat, hedits, -⟩ := read_rewrite save.steady hsteady
  have hload := load_done tables hfates hcontents
  have hthere : (s.files.contents (save.path profiles)).isSome = true := by rw [hcontents]; rfl
  cases save with
  | common given =>
    have hloaded : (load tables profiles.commonIni).mapError StoreError.ini s = _ := mapError_done hload
    unfold Save.Loaded Profiles.loadCommon
    rw [Prog.bind_of_done hloaded]
    exact congrArg Outcome.done (CommonSettings.read_of_holds hedits)
  | options name given =>
    intro hzero hone again hsame current
    have hpath : (profiles.opened again).settingsIni = (profiles.opened name).settingsIni := congrArg (·, _) hsame
    have hloaded : (load tables (profiles.opened name).settingsIni).mapError StoreError.ini s = _ := mapError_done hload
    have hthere : (s.files.contents (profiles.opened name).settingsIni).isSome = true := hthere
    have hfound := isThere_done (ε := StoreError D) hfates (profiles.opened name).settingsIni
    have hholds : Options.Holds (parse tables (rewriteWith tables given.edits data)) given := fun n edit hn =>
      hedits edit (List.mem_of_getElem? hn)
    unfold Profile.loadOptions
    rw [hpath, Prog.bind_of_done hfound, if_pos hthere, Prog.bind_of_done hloaded]
    exact congrArg Outcome.done (Options.read_of_holds hholds current hzero hone)
  | settings name given =>
    intro hnodup again hsame
    have hpath : (profiles.opened again).profileIni = (profiles.opened name).profileIni := congrArg (·, _) hsame
    have hloaded : (load tables (profiles.opened name).profileIni).mapError StoreError.ini s = _ := mapError_done hload
    have hthere : (s.files.contents (profiles.opened name).profileIni).isSome = true := hthere
    have hfound := isThere_done (ε := StoreError D) hfates (profiles.opened name).profileIni
    have hholds : ProfileSettings.Holds (parse tables (rewriteWith tables given.edits data)) given := fun n edit hn =>
      hedits edit (List.mem_of_getElem? hn)
    have hini : (profiles.opened again).loadProfileIni tables s = (.done (parse tables (rewriteWith tables given.edits data)), s) := by
      unfold Profile.loadProfileIni
      rw [hpath, Prog.bind_of_done hfound, if_pos hthere]
      exact hloaded
    unfold Profile.loadSettings
    rw [Prog.bind_of_done hini]
    dsimp only [Save.edits] at hformat
    rw [hformat]
    dsimp only
    rw [ProfileSettings.read_of_holds hholds hnodup]
    rfl

end Cao.Profile
