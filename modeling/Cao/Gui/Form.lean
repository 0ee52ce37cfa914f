import Cao.Gui.CleanPath

/-!
# Options in the window

How `cao_gui::form` moves a profile's options into the window's controls (`show_options`) and back (`read_options`).

* `Options`, `MainWindow`: the options of `settings.ini`, and the controls that show them;
* `showOptions`, `readOptions`: out and back;
* `Saved`: the options that the window saves for a readable profile;
* **`readOptions_showOptions_iff`**: what the window saves reloads the same, exactly when a radio stands for its mesh
  level or no radio was checked.
-/

namespace Cao.Gui

/-! ## The options -/

/-- `OptimizationMode`. -/
inductive OptimizationMode
  | singleMod
  | severalMods
  | unsupported (number : Int)
  deriving DecidableEq, Repr

/-- `Options`. -/
@[ext]
structure Options where
  dryRun : Bool
  debugLog : Bool
  mode : OptimizationMode
  userPath : Text
  bsaExtract : Bool
  bsaCreate : Bool
  bsaDeleteBackup : Bool
  bsaMergeIncompressible : Bool
  bsaMergeTextures : Bool
  bsaProcessContent : Bool
  bsaCreateDummies : Bool
  bsaCompress : Bool
  bsaDeleteSource : Bool
  texturesNecessary : Bool
  texturesCompress : Bool
  texturesMipmaps : Bool
  texturesResizeSize : Bool
  texturesTargetWidth : Nat
  texturesTargetHeight : Nat
  texturesResizeRatio : Bool
  texturesTargetWidthRatio : Nat
  texturesTargetHeightRatio : Nat
  meshesOptimizationLevel : Int
  meshesHeadparts : Bool
  meshesResave : Bool
  animationsOptimization : Bool
  deriving DecidableEq, Repr

/-- `Options::default`. -/
def Options.default : Options where
  dryRun := false
  debugLog := false
  mode := .singleMod
  userPath := []
  bsaExtract := false
  bsaCreate := false
  bsaDeleteBackup := false
  bsaMergeIncompressible := true
  bsaMergeTextures := false
  bsaProcessContent := false
  bsaCreateDummies := true
  bsaCompress := true
  bsaDeleteSource := true
  texturesNecessary := true
  texturesCompress := false
  texturesMipmaps := false
  texturesResizeSize := false
  texturesTargetWidth := 2048
  texturesTargetHeight := 2048
  texturesResizeRatio := false
  texturesTargetWidthRatio := 1
  texturesTargetHeightRatio := 1
  meshesOptimizationLevel := 0
  meshesHeadparts := true
  meshesResave := false
  animationsOptimization := false

/-! ## The controls -/

/-- `BsaTab`, as far as the options go. -/
structure BsaTab where
  extract : Bool := false
  create : Bool := false
  deleteBackups : Bool := false
  separateIncompressible : Bool := false
  separateTextures : Bool := false
  createDummies : Bool := false
  compress : Bool := false
  deleteSource : Bool := false
  deriving DecidableEq, Repr

/-- `TexturesTab`, as far as the options go. -/
structure TexturesTab where
  process : Bool := true
  necessary : Bool := true
  compress : Bool := false
  mipmaps : Bool := false
  resize : Bool := true
  resizeMode : Int := -1
  ratioHeight : Int := 2
  ratioWidth : Int := 2
  sizeHeight : Int := 2048
  sizeWidth : Int := 2048
  deriving DecidableEq, Repr

/-- `MeshesTab`, as far as the options go. -/
structure MeshesTab where
  process : Bool := true
  necessary : Bool := true
  medium : Bool := false
  full : Bool := false
  headparts : Bool := false
  resave : Bool := false
  deriving DecidableEq, Repr

/-- The window's controls that show options; `animations` is `AnimationsTab`'s `necessary`. -/
structure MainWindow where
  bsa : BsaTab := { }
  textures : TexturesTab := { }
  meshes : MeshesTab := { }
  animations : Bool := false
  debugLog : Bool := false
  dryRun : Bool := false
  modeIndex : Int := 0
  userPath : Text := []
  deriving DecidableEq, Repr

/-- `MODES`. -/
def modes : List OptimizationMode := [.singleMod, .severalMods]

/-- `RESIZE_BY_RATIO`. -/
def resizeByRatio : Int := 0

/-- `RESIZE_BY_SIZE`. -/
def resizeBySize : Int := 1

/-- `RATIO_RANGE`. -/
def ratioRange : Nat × Nat := (2, 10)

/-- `SIZE_RANGE`. -/
def sizeRange : Nat × Nat := (4, 4096)

/-- `index_of`, with no selection for what has no item. -/
def indexOf {α : Type} [DecidableEq α] (items : List α) (value : α) : Int :=
  match items.findIdx? (· = value) with
  | some index => index
  | none => -1

/-- `item`. -/
def item {α : Type} (items : List α) (index : Int) : Option α := if 0 ≤ index then items[index.toNat]? else none

/-- `clamp`. -/
def clamp (value : Nat) (range : Nat × Nat) : Int := (max range.1 (min value range.2) : Nat)

/-- `unsigned`. -/
def unsigned (value : Int) : Nat := value.toNat

/-- `chosen_mode`. -/
def chosenMode (ui : MainWindow) : OptimizationMode := (item modes ui.modeIndex).getD .singleMod

/-! ## Out -/

/-- The BSA tab that shows options. -/
def showBsa (options : Options) : BsaTab where
  extract := options.bsaExtract
  create := options.bsaCreate
  deleteBackups := options.bsaDeleteBackup
  separateIncompressible := !options.bsaMergeIncompressible
  separateTextures := !options.bsaMergeTextures
  createDummies := options.bsaCreateDummies
  compress := options.bsaCompress
  deleteSource := options.bsaDeleteSource

/-- The group box of the Textures tab: its three boxes stay as they were when it is unchecked. -/
def showTextureBoxes (textures : TexturesTab) (options : Options) : TexturesTab :=
  if options.texturesMipmaps || options.texturesCompress || options.texturesNecessary then
    { textures with
      process := true
      necessary := options.texturesNecessary
      compress := options.texturesCompress
      mipmaps := options.texturesMipmaps }
  else { textures with process := false }

/-- The Textures tab that shows options; the radios keep the previous choice when neither is set. -/
def showTextures (textures : TexturesTab) (options : Options) : TexturesTab :=
  { showTextureBoxes textures options with
    resize := options.texturesResizeSize || options.texturesResizeRatio
    resizeMode :=
      if options.texturesResizeRatio then resizeByRatio
      else if options.texturesResizeSize then resizeBySize
      else textures.resizeMode
    sizeWidth := clamp options.texturesTargetWidth sizeRange
    sizeHeight := clamp options.texturesTargetHeight sizeRange
    ratioWidth := clamp options.texturesTargetWidthRatio ratioRange
    ratioHeight := clamp options.texturesTargetHeightRatio ratioRange }

/-- The group box and the radios of the Meshes tab. -/
def showMeshLevel (meshes : MeshesTab) (level : Int) : MeshesTab :=
  if level = 0 then { meshes with process := false }
  else if 1 ≤ level ∧ level ≤ 3 then
    { meshes with process := true, necessary := level == 1, medium := level == 2, full := level == 3 }
  -- the group is checked and the radios are left for any other number
  else { meshes with process := true }

/-- `show_options`. -/
def showOptions (ui : MainWindow) (options : Options) : MainWindow where
  bsa := showBsa options
  textures := showTextures ui.textures options
  meshes :=
    { showMeshLevel ui.meshes options.meshesOptimizationLevel with
      resave := options.meshesResave
      headparts := options.meshesHeadparts }
  animations := options.animationsOptimization
  debugLog := options.debugLog
  dryRun := options.dryRun
  modeIndex := indexOf modes options.mode
  userPath := options.userPath

/-! ## Back -/

/-- The mesh level of the radios, over the one last loaded. -/
def readMeshLevel (meshes : MeshesTab) (current : Int) : Int :=
  let level := if meshes.necessary then 1 else if meshes.medium then 2 else if meshes.full then 3 else current
  if meshes.process then level else 0

/-- `read_options`. -/
def readOptions (ui : MainWindow) (current : Options) (settingsRead : Bool) : Options :=
  let options :=
    { current with
      dryRun := ui.dryRun
      userPath := cleanPath ui.userPath
      mode := chosenMode ui
      debugLog := ui.debugLog }
  -- an unreadable profile shows every asset tab disabled
  if !settingsRead then options
  else
    { options with
      bsaExtract := ui.bsa.extract
      bsaCreate := ui.bsa.create
      bsaDeleteBackup := ui.bsa.deleteBackups
      bsaMergeIncompressible := !ui.bsa.separateIncompressible
      bsaMergeTextures := !ui.bsa.separateTextures
      bsaCreateDummies := ui.bsa.createDummies
      bsaCompress := ui.bsa.compress
      bsaDeleteSource := ui.bsa.deleteSource
      texturesNecessary := ui.textures.process && ui.textures.necessary
      texturesMipmaps := ui.textures.process && ui.textures.mipmaps
      texturesCompress := ui.textures.process && ui.textures.compress
      texturesResizeSize := ui.textures.resize && ui.textures.resizeMode == resizeBySize
      texturesTargetWidth := unsigned ui.textures.sizeWidth
      texturesTargetHeight := unsigned ui.textures.sizeHeight
      texturesResizeRatio := ui.textures.resize && ui.textures.resizeMode == resizeByRatio
      texturesTargetWidthRatio := unsigned ui.textures.ratioWidth
      texturesTargetHeightRatio := unsigned ui.textures.ratioHeight
      meshesOptimizationLevel := readMeshLevel ui.meshes current.meshesOptimizationLevel
      meshesHeadparts := ui.meshes.headparts
      meshesResave := ui.meshes.resave
      animationsOptimization := ui.animations }

/-! ## What the window saves -/

/-- A spin box holds a number of its range. -/
def InRange (range : Nat × Nat) (value : Int) : Prop := range.1 ≤ value ∧ value ≤ range.2

instance (range : Nat × Nat) (value : Int) : Decidable (InRange range value) := inferInstanceAs (Decidable (_ ∧ _))

/-- The spin boxes are in their ranges. -/
structure MainWindow.InRange (ui : MainWindow) : Prop where
  sizeWidth : Gui.InRange sizeRange ui.textures.sizeWidth
  sizeHeight : Gui.InRange sizeRange ui.textures.sizeHeight
  ratioWidth : Gui.InRange ratioRange ui.textures.ratioWidth
  ratioHeight : Gui.InRange ratioRange ui.textures.ratioHeight

/-- The options that the window saves for a readable profile. -/
structure Saved (options : Options) : Prop where
  cleaned : cleanPath options.userPath = options.userPath
  supported : options.mode ∈ modes
  oneResize : ¬ (options.texturesResizeSize = true ∧ options.texturesResizeRatio = true)
  width : Gui.InRange sizeRange options.texturesTargetWidth
  height : Gui.InRange sizeRange options.texturesTargetHeight
  widthRatio : Gui.InRange ratioRange options.texturesTargetWidthRatio
  heightRatio : Gui.InRange ratioRange options.texturesTargetHeightRatio

section Saved

variable {ui : MainWindow} {current options : Options} {range : Nat × Nat} {value : Int}

theorem inRange_unsigned (h : InRange range value) : InRange range (unsigned value) := by
  unfold InRange unsigned at *
  omega

/-- What a spin box is set to in its range, it gives back. -/
theorem unsigned_clamp {value : Nat} (h : InRange range value) : unsigned (clamp value range) = value := by
  unfold InRange at h
  unfold unsigned clamp
  omega

theorem chosenMode_mem (ui : MainWindow) : chosenMode ui ∈ modes := by
  unfold chosenMode item
  split_ifs
  · cases hget : modes[ui.modeIndex.toNat]? with
    | none => simp [modes]
    | some mode => exact List.mem_of_getElem? hget
  · simp [modes]

/-- A mode of the combo is found again. -/
theorem item_indexOf {mode : OptimizationMode} (h : mode ∈ modes) : item modes (indexOf modes mode) = some mode := by
  unfold modes at *
  rcases List.mem_cons.mp h with rfl | h
  · rfl
  · rw [List.mem_singleton.mp h]
    rfl

/-- **Whatever the controls hold, the window saves such options.** -/
theorem saved_readOptions (h : ui.InRange) : Saved (readOptions ui current true) where
  cleaned := cleanPath_idem _
  supported := chosenMode_mem ui
  oneResize := by
    rintro ⟨hsize, hratio⟩
    simp only [readOptions, Bool.not_true, Bool.false_eq_true, if_false, Bool.and_eq_true, beq_iff_eq] at hsize hratio
    have := hsize.2.symm.trans hratio.2
    simp [resizeBySize, resizeByRatio] at this
  width := inRange_unsigned h.sizeWidth
  height := inRange_unsigned h.sizeHeight
  widthRatio := inRange_unsigned h.ratioWidth
  heightRatio := inRange_unsigned h.ratioHeight

end Saved

/-! ## Out and back -/

section RoundTrip

variable {ui : MainWindow} {options : Options}

/-- A group box hides no box that is set. -/
theorem showTextureBoxes_read (textures : TexturesTab) (options : Options) :
    let shown := showTextureBoxes textures options
    (shown.process && shown.necessary) = options.texturesNecessary ∧
      (shown.process && shown.mipmaps) = options.texturesMipmaps ∧
      (shown.process && shown.compress) = options.texturesCompress := by
  intro shown
  simp only [shown, showTextureBoxes]
  split_ifs with h
  · simp
  · have : (options.texturesMipmaps = false ∧ options.texturesCompress = false) ∧ options.texturesNecessary = false := by
      simpa using h
    simp [this]

/-- The radios hold one way of resizing. -/
theorem showTextures_resize (textures : TexturesTab)
    (h : ¬ (options.texturesResizeSize = true ∧ options.texturesResizeRatio = true)) :
    let shown := showTextures textures options
    (shown.resize && shown.resizeMode == resizeBySize) = options.texturesResizeSize ∧
      (shown.resize && shown.resizeMode == resizeByRatio) = options.texturesResizeRatio := by
  intro shown
  simp only [shown, showTextures]
  cases hsize : options.texturesResizeSize <;> cases hratio : options.texturesResizeRatio
  · simp
  · simp [resizeByRatio, resizeBySize]
  · simp [resizeByRatio, resizeBySize]
  · exact absurd ⟨hsize, hratio⟩ h

/-- **A mesh level is read back** when a radio stands for it, or none is checked. -/
theorem readMeshLevel_showMeshLevel (meshes : MeshesTab) (level : Int) :
    readMeshLevel (showMeshLevel meshes level) level = level ↔
      0 ≤ level ∧ level ≤ 3 ∨ meshes.necessary = false ∧ meshes.medium = false ∧ meshes.full = false := by
  unfold showMeshLevel
  split_ifs with hzero hradio
  · subst hzero
    simp [readMeshLevel]
  · obtain ⟨hone, hthree⟩ := hradio
    have hread : readMeshLevel
        { meshes with process := true, necessary := level == 1, medium := level == 2, full := level == 3 } level = level := by
      unfold readMeshLevel
      simp only [if_true, beq_iff_eq]
      split_ifs <;> omega
    simp only [hread, true_iff]
    exact .inl ⟨by omega, hthree⟩
  · unfold readMeshLevel
    simp only [if_true]
    split_ifs with hnecessary hmedium hfull
    · simp only [hnecessary, Bool.true_eq_false, false_and, or_false]
      omega
    · simp only [hmedium, Bool.true_eq_false, false_and, and_false, or_false]
      omega
    · simp only [hfull, Bool.true_eq_false, and_false, or_false]
      omega
    · simp [hnecessary, hmedium, hfull]

/-- What the window saves, shown and read back: all but the mesh level is the same. -/
theorem Saved.readOptions_eq (h : Saved options) : readOptions (showOptions ui options) options true =
    { options with
      meshesOptimizationLevel :=
        readMeshLevel (showMeshLevel ui.meshes options.meshesOptimizationLevel) options.meshesOptimizationLevel } := by
  have hmode : chosenMode (showOptions ui options) = options.mode := by
    simp [chosenMode, showOptions, item_indexOf h.supported]
  obtain ⟨hnecessary, hmipmaps, hcompress⟩ := showTextureBoxes_read ui.textures options
  obtain ⟨hsize, hratio⟩ := showTextures_resize ui.textures h.oneResize
  exact Options.ext rfl rfl hmode h.cleaned rfl rfl rfl (Bool.not_not _) (Bool.not_not _) rfl rfl rfl rfl hnecessary
    hcompress hmipmaps hsize (unsigned_clamp h.width) (unsigned_clamp h.height) hratio (unsigned_clamp h.widthRatio)
    (unsigned_clamp h.heightRatio) rfl rfl rfl rfl

end RoundTrip

/-- **What the window saves reloads the same** over whatever the controls held, exactly when a radio stands for its mesh
level or no radio was checked. -/
theorem readOptions_showOptions_iff {saving ui : MainWindow} (current : Options) (h : saving.InRange) :
    let options := readOptions saving current true
    readOptions (showOptions ui options) options true = options ↔
      0 ≤ options.meshesOptimizationLevel ∧ options.meshesOptimizationLevel ≤ 3 ∨
        ui.meshes.necessary = false ∧ ui.meshes.medium = false ∧ ui.meshes.full = false := by
  intro options
  rw [← readMeshLevel_showMeshLevel, (saved_readOptions h).readOptions_eq]
  constructor
  · intro heq
    exact congrArg Options.meshesOptimizationLevel heq
  · intro hlevel
    rw [hlevel]

/-- The controls as they are first shown. -/
theorem readOptions_showOptions_first :
    let options := readOptions { } Options.default true
    readOptions (showOptions { } options) options true = options :=
  (@readOptions_showOptions_iff { } { } Options.default
    ⟨by decide, by decide, by decide, by decide⟩).mpr (.inl (by decide))

/-- A mesh level written by hand, saved while no radio was checked. -/
theorem readOptions_hand_written :
    ¬ ∀ (saving ui : MainWindow) (current : Options), saving.InRange →
      let options := readOptions saving current true
      readOptions (showOptions ui options) options true = options := by
  intro h
  have := congrArg Options.meshesOptimizationLevel
    (h { meshes := { necessary := false } } { } { Options.default with meshesOptimizationLevel := 4 }
      ⟨by decide, by decide, by decide, by decide⟩)
  exact absurd this (by decide)

end Cao.Gui
