import Cao.Lib.Repeats
import Cao.Routing.Compile
import Cao.Profile.Settings
import Cao.Executor.Run
import Cao.Texture.Plan

/-!
# Run Requests

How the options form becomes a Run Request (`run_request.rs`), what its Admission Rules let it carry (`admission.rs`,
`lifecycle.rs`), and how the Profile read at Preparing judges it (`profile.rs`, `preparation.rs`).

* `WorkChoices`, `Admission`, `RunRequest`: a request, which carries no choice that its rules hold back;
* `WorkGroup`, `runRequest`: the request of an options form;
* `capabilitiesWith`: what a Profile's settings declare;
* **`runRequest_ok_iff`**: when a form starts a run, and with what;
* **`request_judged`**: what Preparing's Profile has against a request, which is nothing where it is the Profile the
  form was read under.
-/

namespace Cao.Setup

open Routing
open Finalize (ArchiveFinalizationChoices)
open Texture (TextureResizeChoice ResizeOptions resizeChoice)
open Profile (Options OptimizationMode ProfileSettings)

/-! ## Work Choices -/

/-- `MeshLevel`: 0 to 3. -/
abbrev MeshLevel := Fin 4

/-- `MeshLevel::NECESSARY`. -/
def MeshLevel.necessary : MeshLevel := 1

/-- `MeshLevel::FULL`. -/
def MeshLevel.full : MeshLevel := 3

/-- `WorkChoiceError`: of the Mesh level, or of the resize choice. -/
inductive WorkChoiceError
  | meshLevel (level : Int32)
  | resize (error : Texture.WorkChoiceError)
  deriving DecidableEq, Repr

/-- `MeshLevel::new`. -/
def MeshLevel.new (level : Int32) : Except WorkChoiceError MeshLevel :=
  if h : 0 ≤ level.toInt ∧ level.toInt ≤ 3 then .ok ⟨level.toInt.toNat, by omega⟩ else .error (.meshLevel level)

/-- `TextureChoices`. -/
structure TextureChoices where
  necessary : Bool
  compress : Bool
  mipmaps : Bool
  resize : TextureResizeChoice

/-- `MeshChoices`. -/
structure MeshChoices where
  level : MeshLevel
  headparts : Bool
  resave : Bool
  deriving DecidableEq, Repr

/-- `WorkChoices`. -/
structure WorkChoices where
  textures : TextureChoices
  meshes : MeshChoices
  archiveExtraction : SourceCleanup
  archiveFinalization : ArchiveFinalizationChoices

/-- `WorkChoices::default`. -/
def WorkChoices.default : WorkChoices where
  textures := ⟨true, false, false, .none⟩
  meshes := ⟨0, true, false⟩
  archiveExtraction := .backup
  archiveFinalization := ⟨true, true, true, true, false⟩

/-! ## Admission Rules -/

/-- `work_bit`. -/
def workBit : RequestedWork → UInt8
  | .nativeTextureOptimization => (1 : UInt8) <<< 0
  | .standardMeshOptimization => (1 : UInt8) <<< 1
  | .terrainMeshOptimization => (1 : UInt8) <<< 2
  | .animationOptimization => (1 : UInt8) <<< 3
  | .archiveExtraction => (1 : UInt8) <<< 4
  | .archiveCreation => (1 : UInt8) <<< 5

/-- `Admission`. -/
structure Admission where
  work : UInt8
  highestMeshLevel : MeshLevel
  deriving DecidableEq, Repr

namespace Admission

/-- The work that no missing capability holds back. -/
def workUnder : Option ProfileCapabilities → UInt8
  | none => 0xFF
  | some capabilities => RequestedWork.all.foldl
      (fun work requested => if capabilities.supports requested.capability then work else work &&& ~~~workBit requested) 0xFF

/-- `Admission::new`. -/
def new (severalMods : Bool) (capabilities : Option ProfileCapabilities) : Admission where
  work := workUnder capabilities
  highestMeshLevel := if severalMods then MeshLevel.necessary else MeshLevel.full

/-- `Admission::admits`. -/
def admits (admission : Admission) (work : RequestedWork) : Bool := admission.work &&& workBit work != 0

/-- `Admission::admitted_work`. -/
def admittedWork (admission : Admission) (work : List RequestedWork) : List RequestedWork := work.filter admission.admits

/-- `Admission::admitted_work_choices`. -/
def admittedWorkChoices (admission : Admission) (choices : WorkChoices) : WorkChoices :=
  { choices with meshes := { choices.meshes with level := min choices.meshes.level admission.highestMeshLevel } }

variable {severalMods : Bool} {capabilities : Option ProfileCapabilities}

/-- The work that a Profile's capabilities support, whole where they are not known. -/
def supportedBy (capabilities : Option ProfileCapabilities) (work : RequestedWork) : Bool :=
  capabilities.all fun capabilities => capabilities.supports work.capability

/-- Clearing one work choice's bit leaves the others as they were. -/
theorem and_not_workBit (set : UInt8) (cleared work : RequestedWork) :
    set &&& ~~~workBit cleared &&& workBit work = if work = cleared then 0 else set &&& workBit work := by
  have hbit : ~~~workBit cleared &&& workBit work = if work = cleared then 0 else workBit work := by
    cases cleared <;> cases work <;> rfl
  rw [UInt8.and_assoc, hbit]
  split_ifs
  · exact UInt8.and_zero
  · rfl

theorem admits_foldl (supports : ProfileCapability → Bool) (work : RequestedWork) : ∀ (requests : List RequestedWork)
    (set : UInt8), requests.foldl
      (fun set requested => if supports requested.capability then set else set &&& ~~~workBit requested) set &&& workBit work =
      if work ∈ requests ∧ supports work.capability = false then 0 else set &&& workBit work
  | [], _ => by simp
  | requested :: requests, set => by
    rw [List.foldl_cons, admits_foldl supports work requests]
    by_cases hlater : work ∈ requests ∧ supports work.capability = false
    · rw [if_pos hlater, if_pos ⟨List.mem_cons_of_mem _ hlater.1, hlater.2⟩]
    · rw [if_neg hlater]
      by_cases hsame : work = requested
      · subst hsame
        cases hsupports : supports work.capability with
        | true => simp
        | false => simp [and_not_workBit]
      · have hmem : (work ∈ requested :: requests ∧ supports work.capability = false) ↔
            work ∈ requests ∧ supports work.capability = false := by simp [hsame]
        rw [if_neg (mt hmem.mp hlater)]
        cases supports requested.capability with
        | true => rfl
        | false => simp only [Bool.false_eq_true, if_false, and_not_workBit, if_neg hsame]

/-- **The bits of the set are the work that the Profile supports.** -/
theorem admits_new (work : RequestedWork) : (new severalMods capabilities).admits work = supportedBy capabilities work := by
  have hfull : (0xFF &&& workBit work != 0) = true := by cases work <;> rfl
  cases capabilities with
  | none => exact hfull
  | some capabilities =>
    show ((RequestedWork.all.foldl _ 0xFF) &&& workBit work != 0) = capabilities.supports work.capability
    rw [admits_foldl]
    cases hsupports : capabilities.supports work.capability with
    | true => simpa using hfull
    | false => simp

end Admission

/-! ## Run Requests -/

/-- `ModSelection`. -/
inductive ModSelection
  | singleModRoot (directory : Text)
  | childModRoots (directory : Text)
  deriving DecidableEq, Repr

/-- `ModSelection::is_several_mods`. -/
def ModSelection.isSeveralMods : ModSelection → Bool
  | singleModRoot _ => false
  | childModRoots _ => true

/-- `RunRequest`: each work choice once in enumeration order, and no Mesh level above the selection's highest. -/
structure RunRequest where
  profileIdentity : Text
  executionMode : ExecutionMode
  modSelection : ModSelection
  requestedWork : List RequestedWork
  archivePrecedence : ArchivePrecedence
  workChoices : WorkChoices
  listed : requestedWork = RequestedWork.all.filter fun work => work ∈ requestedWork
  capped : modSelection.isSeveralMods = true → workChoices.meshes.level ≤ MeshLevel.necessary

theorem index_injective (work work' : RequestedWork) (h : work.index = work'.index) : work = work' := by
  cases work <;> cases work' <;> first | rfl | cases h

/-- Requested work, sorted and without repeats. -/
def listing (work : List RequestedWork) : List RequestedWork :=
  dropRepeats (work.mergeSort fun first second => first.index ≤ second.index)

theorem listing_eq (work : List RequestedWork) : listing work = RequestedWork.all.filter fun choice => choice ∈ work :=
  dropRepeats_sort index_injective RequestedWork.all_ordered RequestedWork.mem_all work

theorem mem_listing {work : List RequestedWork} {choice : RequestedWork} : choice ∈ listing work ↔ choice ∈ work := by
  rw [listing_eq, List.mem_filter]
  simp

theorem listing_listed (work : List RequestedWork) :
    listing work = RequestedWork.all.filter fun choice => choice ∈ listing work := by
  simp only [mem_listing]
  exact listing_eq work

namespace RunRequest

/-- `RunRequest::new`. -/
def new (profileIdentity : Text) (executionMode : ExecutionMode) (modSelection : ModSelection)
    (requestedWork : List RequestedWork) : RunRequest where
  profileIdentity := profileIdentity
  executionMode := executionMode
  modSelection := modSelection
  requestedWork := listing requestedWork
  archivePrecedence := .default
  workChoices := WorkChoices.default
  listed := listing_listed requestedWork
  capped := fun _ => Fin.zero_le _

/-- `RunRequest::admission`. -/
def admission (request : RunRequest) : Admission := Admission.new request.modSelection.isSeveralMods none

/-- `RunRequest::with_archive_precedence`. -/
def withArchivePrecedence (request : RunRequest) (archivePrecedence : ArchivePrecedence) : RunRequest :=
  { request with archivePrecedence }

theorem admitted_level (request : RunRequest) (choices : WorkChoices) (h : request.modSelection.isSeveralMods = true) :
    (request.admission.admittedWorkChoices choices).meshes.level ≤ MeshLevel.necessary := by
  have hhighest : request.admission.highestMeshLevel = MeshLevel.necessary := if_pos h
  exact hhighest ▸ min_le_right _ _

/-- `RunRequest::with_work_choices`. -/
def withWorkChoices (request : RunRequest) (workChoices : WorkChoices) : RunRequest :=
  { request with
    workChoices := request.admission.admittedWorkChoices workChoices
    capped := request.admitted_level workChoices }

/-- `RunRequest::requests`. -/
def requests (request : RunRequest) (work : RequestedWork) : Bool := work ∈ request.requestedWork

end RunRequest

/-! ## The options form -/

/-- `RunSetupError`. -/
inductive RunSetupError
  | unsupportedMode (mode : Int32)
  | relativeSelection (selected : Text)
  | workChoice (error : WorkChoiceError)
  deriving DecidableEq, Repr

/-- `WorkGroup`. -/
inductive WorkGroup
  | textures
  | meshes
  | animations
  | archiveExtraction
  | archiveCreation
  deriving DecidableEq, Repr

/-- `requests_mesh_work`. -/
def requestsMeshWork (options : Options) : Bool := options.meshesOptimizationLevel > 0 || options.meshesResave

namespace WorkGroup

/-- `WorkGroup::ALL`. -/
def all : List WorkGroup := [.textures, .meshes, .animations, .archiveExtraction, .archiveCreation]

/-- `WorkGroup::chosen_by`. -/
def chosenBy (options : Options) : WorkGroup → Bool
  | textures => options.texturesNecessary || options.texturesCompress || options.texturesMipmaps ||
    options.texturesResizeSize || options.texturesResizeRatio
  | meshes => requestsMeshWork options
  | animations => options.animationsOptimization
  | archiveExtraction => options.bsaExtract
  | archiveCreation => options.bsaCreate

/-- `WorkGroup::work`. -/
def work : WorkGroup → List RequestedWork
  | textures => [.nativeTextureOptimization]
  | meshes => [.standardMeshOptimization, .terrainMeshOptimization]
  | animations => [.animationOptimization]
  | archiveExtraction => [.archiveExtraction]
  | archiveCreation => [.archiveCreation]

/-- `WorkGroup::held_back`. -/
def heldBack (admission : Admission) (group : WorkGroup) : Bool := !group.work.any admission.admits

@[simp] theorem mem_all (group : WorkGroup) : group ∈ all := by
  cases group <;> decide

end WorkGroup

/-- `admission`. -/
def admission (mode : OptimizationMode) (capabilities : Option ProfileCapabilities) : Admission :=
  Admission.new (match mode with | .severalMods => true | _ => false) capabilities

/-- The resize options of a form. -/
def resizeOptions (options : Options) : ResizeOptions where
  resizeRatio := options.texturesResizeRatio
  resizeSize := options.texturesResizeSize
  targetWidthRatio := options.texturesTargetWidthRatio
  targetHeightRatio := options.texturesTargetHeightRatio
  targetWidth := options.texturesTargetWidth
  targetHeight := options.texturesTargetHeight

/-- `work_choices`. -/
def workChoices (options : Options) : Except WorkChoiceError WorkChoices := do
  let resize ← (resizeChoice (resizeOptions options)).mapError .resize
  let level ← MeshLevel.new options.meshesOptimizationLevel
  return {
    textures := ⟨options.texturesNecessary, options.texturesCompress, options.texturesMipmaps, resize⟩
    meshes := ⟨level, options.meshesHeadparts, options.meshesResave⟩
    archiveExtraction := if options.bsaDeleteBackup then .remove else .backup
    archiveFinalization := ⟨options.bsaCompress, options.bsaDeleteSource, options.bsaCreateDummies,
      options.bsaMergeIncompressible, options.bsaMergeTextures⟩ }

/-- The selection of a form's mode. -/
def modSelection : OptimizationMode → Except RunSetupError (Text → ModSelection)
  | .singleMod => .ok .singleModRoot
  | .severalMods => .ok .childModRoots
  | .unsupported mode => .error (.unsupportedMode mode)

/-- The work that the options choose, group by group. -/
def chosenWork (options : Options) : List RequestedWork :=
  (WorkGroup.all.filter (WorkGroup.chosenBy options)).flatMap WorkGroup.work

/-- `ExecutionMode::from_dry_run`. -/
def fromDryRun (dryRun : Bool) : ExecutionMode := if dryRun then .dryRun else .apply

/-- `run_request`; `isAbsolute` is `Path::is_absolute`. -/
def runRequest (isAbsolute : Text → Bool) (profile : Text) (options : Options)
    (capabilities : Option ProfileCapabilities) : Except RunSetupError RunRequest := do
  let modSelection ← modSelection options.mode
  if !options.userPath.isEmpty && !isAbsolute options.userPath then throw (.relativeSelection options.userPath)
  let workChoices ← (workChoices options).mapError .workChoice
  let work := (admission options.mode capabilities).admittedWork (chosenWork options)
  return (RunRequest.new profile (fromDryRun options.dryRun) (modSelection options.userPath) work).withWorkChoices
    workChoices

/-! ## When a run starts -/

section Starting

variable {isAbsolute : Text → Bool} {profile : Text} {options : Options} {capabilities : Option ProfileCapabilities}

/-- What a form needs for a run to start. -/
structure Startable (isAbsolute : Text → Bool) (options : Options) : Prop where
  mode : ∀ number, options.mode ≠ .unsupported number
  folder : options.userPath ≠ [] → isAbsolute options.userPath = true
  ratio : options.texturesResizeRatio = true →
    options.texturesTargetWidthRatio ≠ 0 ∧ options.texturesTargetHeightRatio ≠ 0
  /-- Only where a ratio does not win. -/
  size : options.texturesResizeRatio = false → options.texturesResizeSize = true →
    (options.texturesTargetWidth ≠ 0 ∧ options.texturesTargetWidth % 2 = 0) ∧
      (options.texturesTargetHeight ≠ 0 ∧ options.texturesTargetHeight % 2 = 0)
  level : 0 ≤ options.meshesOptimizationLevel.toInt ∧ options.meshesOptimizationLevel.toInt ≤ 3

/-- What the request of a form carries. -/
structure Carries (profile : Text) (options : Options) (capabilities : Option ProfileCapabilities)
    (request : RunRequest) : Prop where
  profileIdentity : request.profileIdentity = profile
  executionMode : request.executionMode = fromDryRun options.dryRun
  modSelection : modSelection options.mode = .ok (if request.modSelection.isSeveralMods then .childModRoots else .singleModRoot)
  work : ∀ work, request.requests work = true ↔
    (∃ group : WorkGroup, group.chosenBy options = true ∧ work ∈ group.work) ∧ Admission.supportedBy capabilities work = true
  /-- The Mesh level is the chosen one, capped under Several Mods; every other choice is the form's. -/
  choices : ∃ choices, workChoices options = .ok choices ∧ request.workChoices = { choices with
    meshes := { choices.meshes with
      level := if request.modSelection.isSeveralMods then min choices.meshes.level MeshLevel.necessary
        else choices.meshes.level } }

theorem level_new_ok_iff {level : Int32} {admitted : MeshLevel} :
    MeshLevel.new level = .ok admitted ↔ (admitted.val : Int) = level.toInt := by
  unfold MeshLevel.new
  split_ifs with h
  · rw [Except.ok.injEq, Fin.ext_iff]
    constructor
    · intro heq
      rw [← heq]
      dsimp only
      omega
    · intro heq
      dsimp only
      omega
  · constructor
    · intro hfail
      cases hfail
    · intro heq
      have := admitted.isLt
      omega

theorem exists_level_iff {level : Int32} :
    (∃ admitted, MeshLevel.new level = .ok admitted) ↔ 0 ≤ level.toInt ∧ level.toInt ≤ 3 := by
  constructor
  · rintro ⟨admitted, h⟩
    have heq := level_new_ok_iff.mp h
    have := admitted.isLt
    omega
  · intro h
    exact ⟨⟨level.toInt.toNat, by omega⟩, dif_pos h⟩

theorem exists_ratio_iff {width height : UInt32} :
    (∃ ratio, Texture.ResizeRatio.new width height = .ok ratio) ↔ width ≠ 0 ∧ height ≠ 0 := by
  unfold Texture.ResizeRatio.new
  split_ifs with hwidth hheight
  · simp [hwidth]
  · simp [hheight]
  · simp [hwidth, hheight]

theorem exists_size_iff {width height : UInt32} :
    (∃ size, Texture.ResizeSize.new width height = .ok size) ↔
      (width ≠ 0 ∧ width % 2 = 0) ∧ (height ≠ 0 ∧ height % 2 = 0) := by
  unfold Texture.ResizeSize.new
  split_ifs with heven heven' hwidth hheight
  · simp [hwidth]
  · simp [hheight]
  · simp [hwidth, hheight, heven, heven']
  · simp [heven']
  · simp [heven]

theorem exists_map_iff {α β ε : Type} {f : α → β} {x : Except ε α} :
    (∃ b, Except.map f x = .ok b) ↔ ∃ a, x = .ok a := by
  cases x with
  | error => simp [Except.map]
  | ok a => simp [Except.map]

/-- The resize choice that a run uses is the only one checked. -/
theorem exists_resizeChoice_iff : (∃ resize, resizeChoice (resizeOptions options) = .ok resize) ↔
    (options.texturesResizeRatio = true → options.texturesTargetWidthRatio ≠ 0 ∧ options.texturesTargetHeightRatio ≠ 0) ∧
    (options.texturesResizeRatio = false → options.texturesResizeSize = true →
      (options.texturesTargetWidth ≠ 0 ∧ options.texturesTargetWidth % 2 = 0) ∧
        (options.texturesTargetHeight ≠ 0 ∧ options.texturesTargetHeight % 2 = 0)) := by
  unfold resizeChoice
  show (∃ resize, (if options.texturesResizeRatio = true then _ else if options.texturesResizeSize = true then _ else _) = _) ↔ _
  cases hratio : options.texturesResizeRatio with
  | true =>
    simp only [if_true]
    rw [exists_map_iff]
    exact exists_ratio_iff.trans (by simp [resizeOptions])
  | false =>
    cases hsize : options.texturesResizeSize with
    | true =>
      simp only [Bool.false_eq_true, if_false, if_true]
      rw [exists_map_iff]
      exact exists_size_iff.trans (by simp [resizeOptions])
    | false => simp

theorem exists_workChoices_iff : (∃ choices, workChoices options = .ok choices) ↔
    (∃ resize, resizeChoice (resizeOptions options) = .ok resize) ∧
      ∃ level, MeshLevel.new options.meshesOptimizationLevel = .ok level := by
  unfold workChoices
  cases resizeChoice (resizeOptions options) with
  | error => simp [Except.mapError, bind, Except.bind]
  | ok resize =>
    cases MeshLevel.new options.meshesOptimizationLevel with
    | error => simp [Except.mapError, bind, Except.bind]
    | ok level => simp [Except.mapError, bind, Except.bind, pure, Except.pure]

theorem workChoices_fields {choices : WorkChoices} (h : workChoices options = .ok choices) :
    choices.archiveExtraction = (if options.bsaDeleteBackup then .remove else .backup) ∧
      choices.archiveFinalization.mergeTextures = options.bsaMergeTextures ∧
      MeshLevel.new options.meshesOptimizationLevel = .ok choices.meshes.level := by
  unfold workChoices at h
  cases hresize : resizeChoice (resizeOptions options) with
  | error => simp [hresize, Except.mapError, bind, Except.bind] at h
  | ok resize =>
    cases hlevel : MeshLevel.new options.meshesOptimizationLevel with
    | error => simp [hresize, hlevel, Except.mapError, bind, Except.bind] at h
    | ok level =>
      simp only [hresize, hlevel, Except.mapError, bind, Except.bind, pure, Except.pure, Except.ok.injEq] at h
      rw [← h]
      exact ⟨rfl, rfl, rfl⟩

/-- The request that a startable form has. -/
theorem runRequest_eq {selection : Text → ModSelection} {choices : WorkChoices} (hmode : modSelection options.mode = .ok selection)
    (hfolder : options.userPath ≠ [] → isAbsolute options.userPath = true) (hchoices : workChoices options = .ok choices) :
    runRequest isAbsolute profile options capabilities = .ok
      ((RunRequest.new profile (fromDryRun options.dryRun) (selection options.userPath)
        ((admission options.mode capabilities).admittedWork (chosenWork options))).withWorkChoices choices) := by
  have hpath : (!options.userPath.isEmpty && !isAbsolute options.userPath) = false := by
    by_cases hempty : options.userPath = []
    · simp [hempty]
    · simp [hfolder hempty]
  simp [runRequest, hmode, hpath, hchoices, Except.mapError, bind, Except.bind, pure, Except.pure]

theorem ok_of_runRequest {request : RunRequest} (h : runRequest isAbsolute profile options capabilities = .ok request) :
    ∃ selection choices, modSelection options.mode = .ok selection ∧
      (options.userPath ≠ [] → isAbsolute options.userPath = true) ∧ workChoices options = .ok choices := by
  unfold runRequest at h
  cases hmode : modSelection options.mode with
  | error => simp [hmode, bind, Except.bind] at h
  | ok selection =>
    cases hpath : !options.userPath.isEmpty && !isAbsolute options.userPath with
    | true => simp [hmode, hpath, bind, Except.bind, throw, throwThe, MonadExceptOf.throw] at h
    | false =>
      cases hchoices : workChoices options with
      | error => simp [hmode, hpath, hchoices, Except.mapError, bind, Except.bind] at h
      | ok choices => exact ⟨selection, choices, rfl, by simpa [imp_iff_not_or] using hpath, rfl⟩

theorem mem_chosenWork {work : RequestedWork} :
    work ∈ chosenWork options ↔ ∃ group : WorkGroup, group.chosenBy options = true ∧ work ∈ group.work := by
  simp [chosenWork]

theorem modSelection_ok {selection : Text → ModSelection} (h : modSelection options.mode = .ok selection) :
    selection = if (selection options.userPath).isSeveralMods then .childModRoots else .singleModRoot := by
  cases hmode : options.mode with
  | unsupported number =>
    rw [hmode] at h
    cases h
  | singleMod | severalMods =>
    rw [hmode] at h
    cases h
    rfl

theorem admits_admission (mode : OptimizationMode) (work : RequestedWork) :
    (admission mode capabilities).admits work = Admission.supportedBy capabilities work :=
  Admission.admits_new work

theorem workChoices_withWorkChoices (request : RunRequest) (choices : WorkChoices) :
    (request.withWorkChoices choices).workChoices = { choices with
      meshes := { choices.meshes with
        level := if request.modSelection.isSeveralMods then min choices.meshes.level MeshLevel.necessary
          else choices.meshes.level } } := by
  have hlevel : min choices.meshes.level request.admission.highestMeshLevel =
      if request.modSelection.isSeveralMods then min choices.meshes.level MeshLevel.necessary
        else choices.meshes.level := by
    unfold RunRequest.admission Admission.new
    split_ifs
    · rfl
    · exact min_eq_left (Fin.le_last choices.meshes.level)
  rw [← hlevel]
  rfl

theorem carries_runRequest {request : RunRequest} (h : runRequest isAbsolute profile options capabilities = .ok request) :
    Carries profile options capabilities request := by
  obtain ⟨selection, choices, hmode, hfolder, hchoices⟩ := ok_of_runRequest h
  cases h.symm.trans (runRequest_eq hmode hfolder hchoices)
  refine ⟨rfl, rfl, hmode.trans (congrArg _ (modSelection_ok hmode)), fun work => ?_, choices, hchoices,
    workChoices_withWorkChoices _ choices⟩
  show decide (work ∈ listing _) = true ↔ _
  rw [decide_eq_true_eq, mem_listing, Admission.admittedWork, List.mem_filter, admits_admission, mem_chosenWork]

end Starting

/-! ## The Profile that judges it -/

section Judged

variable {parseF64 : Text → Option Binary64} (settings : ProfileSettings parseF64)

/-- `archive_rules`. -/
def archiveRules : Pack.Settings :=
  Pack.Settings.forProfile settings.bsaGame (settings.maxBsaUncompressedSize.requested.map UInt64.ofNat)

/-- `capabilities_with`. -/
def capabilitiesWith (archiveRules : Pack.Settings) : ProfileCapabilities :=
  let textures := settings.texturesEnabled
  let meshes := settings.meshesEnabled
  let archives := settings.bsaEnabled
  let supported : List (Bool × ProfileCapability) := [
    (textures, .nativeTextureOptimization),
    (textures, .convertibleTextureConversion),
    (meshes, .standardMeshOptimization),
    (meshes, .terrainMeshOptimization),
    (settings.animationsEnabled, .animationOptimization),
    (archives, .archiveExtraction),
    -- reference maintenance belongs to Texture conversion
    (textures, .meshReferenceMaintenance),
    (archives, .archiveCreation)]
  .define archiveRules.extension ((supported.filter Prod.fst).map Prod.snd)

/-- `profile_capabilities`. -/
def profileCapabilities : ProfileCapabilities := capabilitiesWith settings (archiveRules settings)

/-- Whether a Profile has the work of a kind of Asset done. -/
def enables : AssetKind → Bool
  | .texture => settings.texturesEnabled
  | .mesh => settings.meshesEnabled
  | .animation => settings.animationsEnabled
  | .archive => settings.bsaEnabled

/-- What a Profile's settings declare: the work of each Asset Kind it enables, and maintenance with Textures. -/
theorem supports_profileCapabilities (capability : ProfileCapability) :
    (profileCapabilities settings).supports capability =
      if capability = .meshReferenceMaintenance then settings.texturesEnabled else enables settings capability.kind := by
  have hmem : (profileCapabilities settings).supports capability = true ↔
      (if capability = .meshReferenceMaintenance then settings.texturesEnabled else enables settings capability.kind) =
        true := by
    show decide (capability ∈ _) = true ↔ _
    rw [decide_eq_true_eq, List.mem_map]
    simp only [List.mem_filter, List.mem_cons, List.not_mem_nil, or_false, Prod.exists, exists_and_right, exists_eq_right]
    cases capability <;> simp [enables, ProfileCapability.kind]
  exact Bool.eq_iff_iff.mpr hmem

/-- Every game's Archive extension is well formed, and no other Asset's. -/
theorem checkArchiveExtension_profile : checkArchiveExtension (profileCapabilities settings).archiveExtension =
    ((archiveRules settings).extension, []) := by
  show checkArchiveExtension (some (Pack.Settings.forProfile settings.bsaGame _).extension) =
    ((Pack.Settings.forProfile settings.bsaGame _).extension, [])
  cases settings.bsaGame <;> rfl

theorem supports_work (work : RequestedWork) :
    (profileCapabilities settings).supports work.capability = enables settings work.capability.kind := by
  rw [supports_profileCapabilities, if_neg (by cases work <;> decide)]

/-- The conflicts of a request under a Profile's settings: it can always maintain what conversion changes. -/
theorem conflicts_profile (request : RunRequest) (prefersConversion : Bool) :
    (RoutingPolicyRequest.forWork request.executionMode request.requestedWork).conflicts (profileCapabilities settings)
      prefersConversion =
    (request.requestedWork.filter fun work => !enables settings work.capability.kind).map
      (unsupportedWork (profileCapabilities settings)) := by
  have hunsupported : (RoutingPolicyRequest.forWork request.executionMode request.requestedWork).unsupported
      (profileCapabilities settings) = request.requestedWork.filter fun work => !enables settings work.capability.kind := by
    conv_rhs => rw [request.listed]
    rw [List.filter_filter]
    refine List.filter_congr fun work _ => ?_
    rw [supports_work, Bool.and_comm]
    rfl
  have hderived : ((RoutingPolicyRequest.forWork request.executionMode request.requestedWork).convertsTextures
      (profileCapabilities settings) prefersConversion &&
        !(profileCapabilities settings).supports .meshReferenceMaintenance) = false := by
    simp only [RoutingPolicyRequest.convertsTextures, supports_profileCapabilities, ProfileCapability.kind, enables]
    cases settings.texturesEnabled <;> simp
  unfold RoutingPolicyRequest.conflicts
  dsimp only
  rw [if_neg (by rw [hderived]; decide), hunsupported, checkArchiveExtension_profile, List.nil_append]

/-- **What the Profile read at Preparing has against a request** is the work it lacks, in enumeration order, and
nothing else: its extension is well formed, and it can maintain what conversion changes. -/
theorem request_judged (request : RunRequest) (prefersConversion : Bool) :
    RoutingPolicy.compile (.forWork request.executionMode request.requestedWork) (profileCapabilities settings)
      prefersConversion =
    if ∀ work ∈ request.requestedWork, enables settings work.capability.kind = true then
      .ok {
        executionMode := request.executionMode
        work := request.requestedWork
        convertsTextures := prefersConversion && request.requests .nativeTextureOptimization && settings.texturesEnabled
        archiveExtension := (archiveRules settings).extension }
    else
      .error ((request.requestedWork.filter fun work => !enables settings work.capability.kind).map
        (unsupportedWork (profileCapabilities settings))) := by
  have hnone : (request.requestedWork.filter fun work => !enables settings work.capability.kind).map
      (unsupportedWork (profileCapabilities settings)) ≠ [] ↔
      ¬∀ work ∈ request.requestedWork, enables settings work.capability.kind = true := by
    simp
  unfold RoutingPolicy.compile
  dsimp only
  rw [conflicts_profile]
  by_cases h : ∀ work ∈ request.requestedWork, enables settings work.capability.kind = true
  · rw [if_neg (mt hnone.mp (not_not_intro h)), if_pos h, checkArchiveExtension_profile]
    congr 2
    · exact request.listed.symm
    · unfold RoutingPolicyRequest.convertsTextures
      rw [supports_profileCapabilities]
      rfl
  · rw [if_pos (hnone.mpr h), if_neg h]

/-! ## From the form to the files -/

/-- What a form asks to be done to an Asset under a Profile's settings. -/
def asked (options : Options) (settings : ProfileSettings parseF64) (prefersConversion : Bool) :
    AssetIdentity → AssetOperation → Bool
  | .texture .native, .optimization => WorkGroup.textures.chosenBy options && settings.texturesEnabled
  | .texture .convertible, .conversion =>
    WorkGroup.textures.chosenBy options && settings.texturesEnabled && prefersConversion
  | .mesh _, .optimization => WorkGroup.meshes.chosenBy options && settings.meshesEnabled
  | .mesh _, .meshReferenceMaintenance =>
    WorkGroup.textures.chosenBy options && settings.texturesEnabled && prefersConversion
  | .animation, .optimization => WorkGroup.animations.chosenBy options && settings.animationsEnabled
  | .archive, .extraction => WorkGroup.archiveExtraction.chosenBy options && settings.bsaEnabled
  | _, _ => false

variable {settings}

theorem requests_iff {options : Options} {profile : Text} {request : RunRequest}
    (h : Carries profile options (some (profileCapabilities settings)) request) (work : RequestedWork) :
    work ∈ request.requestedWork ↔
      (∃ group ∈ WorkGroup.all, group.chosenBy options = true ∧ work ∈ group.work) ∧
        enables settings work.capability.kind = true := by
  have hwork := h.work work
  rw [RunRequest.requests, decide_eq_true_eq] at hwork
  rw [hwork, Admission.supportedBy, Option.all_some, supports_work]
  simp

/-- What the compiled policy does to an Asset is what the form asks for. -/
theorem performs_iff_asked {options : Options} {profile : Text} {request : RunRequest}
    (h : Carries profile options (some (profileCapabilities settings)) request) (prefersConversion : Bool)
    (identity : AssetIdentity) (operation : AssetOperation) :
    Performs (.forWork request.executionMode request.requestedWork) (profileCapabilities settings) prefersConversion
      identity operation ↔ asked options settings prefersConversion identity operation = true := by
  have hrequested : ∀ work, (RoutingPolicyRequest.forWork request.executionMode request.requestedWork).work work = true ↔
      (∃ group ∈ WorkGroup.all, group.chosenBy options = true ∧ work ∈ group.work) ∧
        enables settings work.capability.kind = true := fun work => by
    rw [RoutingPolicyRequest.forWork, decide_eq_true_eq]
    exact requests_iff h work
  have hnative : Performs (.forWork request.executionMode request.requestedWork) (profileCapabilities settings)
      prefersConversion (.texture .native) .optimization ↔
      WorkGroup.textures.chosenBy options = true ∧ settings.texturesEnabled = true := by
    rw [performs_iff]
    simp [RequestedWork.all, RequestedWork.performs, hrequested, WorkGroup.all, WorkGroup.work, enables,
      supports_profileCapabilities, RequestedWork.capability, ProfileCapability.kind]
  have hconvert : Performs (.forWork request.executionMode request.requestedWork) (profileCapabilities settings)
      prefersConversion (.texture .convertible) .conversion ↔
      (WorkGroup.textures.chosenBy options = true ∧ settings.texturesEnabled = true) ∧ prefersConversion = true := by
    rw [performs_iff, hnative]
    simp [RequestedWork.all, RequestedWork.performs, supports_profileCapabilities, enables, ProfileCapability.kind]
    tauto
  by_cases hfirst : (identity, operation) = (.texture .native, .optimization)
  · cases hfirst
    simp [hnative, asked]
  · by_cases hsecond : (identity, operation) = (.texture .convertible, .conversion)
    · cases hsecond
      simp [hconvert, asked]
    · rw [performs_iff, hconvert, hnative]
      rcases identity with ⟨_ | _⟩ | ⟨_ | _⟩ | _ | _ <;> cases operation <;>
        first
        | exact absurd rfl hfirst
        | exact absurd rfl hsecond
        | simp +contextual [RequestedWork.all, RequestedWork.performs, hrequested, WorkGroup.all, WorkGroup.work, enables,
            supports_profileCapabilities, RequestedWork.capability, ProfileCapability.kind, asked]

/-- What the decision of a path has to say of a form under a Profile's settings. -/
def DecidedByForm (options : Options) (settings : ProfileSettings parseF64) (prefersConversion : Bool) (path : Path) :
    RoutingDecision → Prop
  | .routed asset => Routing.Named (profileCapabilities settings) path asset.identity ∧
    asset.executionMode = fromDryRun options.dryRun ∧ ∀ operation,
      asset.operations.contains operation = asked options settings prefersConversion asset.identity operation
  | .skipped skipped => Routing.Named (profileCapabilities settings) path skipped.identity ∧ ∀ operation,
    asked options settings prefersConversion skipped.identity operation = false
  | .unsupported => ∀ identity, ¬Routing.Named (profileCapabilities settings) path identity

/-- **The form decides what is done to each file**: a request that is built with the capabilities of the Profile read
at Preparing always compiles, and each path is routed for the operations that the form asks for under that Profile. -/
theorem form_routes {isAbsolute : Text → Bool} {profile : Text} {options : Options} {request : RunRequest}
    (h : runRequest isAbsolute profile options (some (profileCapabilities settings)) = .ok request)
    (prefersConversion : Bool) :
    ∃ policy, RoutingPolicy.compile (.forWork request.executionMode request.requestedWork) (profileCapabilities settings)
        prefersConversion = .ok policy ∧
      ∀ path, DecidedByForm options settings prefersConversion path (route policy path) := by
  have hcarries := carries_runRequest h
  have hcompile := request_judged settings request prefersConversion
  rw [if_pos fun work hwork => ((requests_iff hcarries work).mp hwork).2] at hcompile
  refine ⟨_, hcompile, fun path => ?_⟩
  have hdecided := (compiled_of_ok hcompile).decided path
  cases hroute : route _ path with
  | routed asset =>
    rw [hroute] at hdecided
    obtain ⟨-, hnamed, -, -, hmode, -, hoperations⟩ := hdecided
    refine ⟨hnamed, hmode.trans hcarries.executionMode, fun operation => Bool.eq_iff_iff.mpr ?_⟩
    exact (hoperations operation).trans (performs_iff_asked hcarries prefersConversion _ operation)
  | skipped skipped =>
    rw [hroute] at hdecided
    obtain ⟨-, hnamed, hnone⟩ := hdecided
    refine ⟨hnamed, fun operation => Bool.eq_false_iff.mpr fun hasked => hnone operation ?_⟩
    exact (performs_iff_asked hcarries prefersConversion _ operation).mpr hasked
  | unsupported =>
    rw [hroute] at hdecided
    exact hdecided

/-- The settings of a new Skyrim SE Profile, without Archives. -/
def looseOnly : ProfileSettings fun _ => none :=
  ⟨false, none, .sse, true, .v20_2_0_7, .v100, .v12, true, true, .bc7Unorm, true, [], true⟩

theorem form_routes_default : ∃ request policy,
    runRequest (fun _ => true) "SSE".toList { Options.default with bsaExtract := true }
      (some (profileCapabilities looseOnly)) = .ok request ∧
    RoutingPolicy.compile (.forWork request.executionMode request.requestedWork) (profileCapabilities looseOnly) true =
      .ok policy ∧
    DecidedByForm { Options.default with bsaExtract := true } looseOnly true (nameOnly "a.bsa")
      (route policy (nameOnly "a.bsa")) := by
  obtain ⟨request, hrequest⟩ : ∃ request, runRequest (fun _ => true) "SSE".toList { Options.default with bsaExtract := true }
      (some (profileCapabilities looseOnly)) = .ok request := ⟨_, rfl⟩
  obtain ⟨policy, hpolicy, hroutes⟩ := form_routes hrequest true
  exact ⟨request, policy, hrequest, hpolicy, hroutes (nameOnly "a.bsa")⟩

end Judged

/-! ## Under the executor -/

section Executed

variable (capabilities : ProfileCapabilities) (prefersConversion : Bool) (packingExclusions : List Text)

/-- What the executor reads of a request. -/
def RunRequest.forExecutor (request : RunRequest) : Executor.RunRequest :=
  ⟨request.executionMode, request.requestedWork, request.workChoices.archiveExtraction⟩

/-- The Selected Profile of some capabilities, as the executor reads it. -/
def selectedProfile : Executor.SelectedProfile where
  packingExclusions := packingExclusions
  compiled := fun work =>
    match RoutingPolicy.compile (.forWork .apply work) capabilities prefersConversion with
    | .ok policy => some (policy.convertsTextures, policy.archiveExtension)
    | .error _ => none

/-- **The policy that the executor runs under is the compiled one.** -/
theorem compilePolicy_selectedProfile (request : RunRequest) :
    (selectedProfile capabilities prefersConversion packingExclusions).compilePolicy request.forExecutor =
      (RoutingPolicy.compile (.forWork request.executionMode request.requestedWork) capabilities
        prefersConversion).toOption := by
  have hlisted : (RequestedWork.all.filter fun work => work ∈ request.requestedWork) = request.requestedWork :=
    request.listed.symm
  -- the mode is no part of a conflict
  have hconflicts : (RoutingPolicyRequest.forWork .apply request.requestedWork).conflicts capabilities prefersConversion =
      (RoutingPolicyRequest.forWork request.executionMode request.requestedWork).conflicts capabilities
        prefersConversion := rfl
  unfold Executor.SelectedProfile.compilePolicy selectedProfile RunRequest.forExecutor RoutingPolicy.compile
  dsimp only
  rw [hconflicts]
  split_ifs with h
  · rfl
  · simp only [Option.map_some, Except.toOption]
    congr 2
    exact hlisted.symm

end Executed

end Cao.Setup
