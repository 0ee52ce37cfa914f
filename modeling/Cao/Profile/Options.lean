import Cao.Profile.Closed

/-!
# The options of a Profile

The user's choices for a run in `settings.ini` (`options.rs`), read and written key by key.

* `ModelKeys`, **`edited_saved`**: what is read back of a model's keys, where a save keeps every key;
* `OptimizationMode`, `Options`, `read`, `write`: the model and its keys;
* **`read_of_holds`**: options are read of settings that hold what they set, an empty folder keeping the current one;
* **`holds_saved`**: written options that are saved and loaded are such settings.
-/

namespace Cao.Profile

open Ini

/-! ## The model -/

/-- `OptimizationMode`. -/
inductive OptimizationMode
  | singleMod
  | severalMods
  | unsupported (number : Int32)
  deriving DecidableEq, Repr

/-- `OptimizationMode::number`. -/
def OptimizationMode.number : OptimizationMode → Int32
  | .singleMod => 0
  | .severalMods => 1
  | .unsupported number => number

/-- `OptimizationMode::from_number`. -/
def OptimizationMode.fromNumber (number : Int32) : OptimizationMode :=
  if number = 0 then .singleMod else if number = 1 then .severalMods else .unsupported number

/-- `Options`. -/
@[ext]
structure Options where
  dryRun : Bool
  debugLog : Bool
  mode : OptimizationMode
  userPath : Text
  bsaExtract : Bool
  bsaCreate : Bool
  bsaDeleteBackup : Bool
  bsaMergeIncompressible : Bool
  bsaMergeTextures : Bool
  bsaProcessContent : Bool
  bsaCreateDummies : Bool
  bsaCompress : Bool
  bsaDeleteSource : Bool
  texturesNecessary : Bool
  texturesCompress : Bool
  texturesMipmaps : Bool
  texturesResizeSize : Bool
  texturesTargetWidth : UInt32
  texturesTargetHeight : UInt32
  texturesResizeRatio : Bool
  texturesTargetWidthRatio : UInt32
  texturesTargetHeightRatio : UInt32
  meshesOptimizationLevel : Int32
  meshesHeadparts : Bool
  meshesResave : Bool
  animationsOptimization : Bool

/-- `Options::default`. -/
def Options.default : Options where
  dryRun := false
  debugLog := false
  mode := .singleMod
  userPath := []
  bsaExtract := false
  bsaCreate := false
  bsaDeleteBackup := false
  bsaMergeIncompressible := true
  bsaMergeTextures := false
  bsaProcessContent := false
  bsaCreateDummies := true
  bsaCompress := true
  bsaDeleteSource := true
  texturesNecessary := true
  texturesCompress := false
  texturesMipmaps := false
  texturesResizeSize := false
  texturesTargetWidth := 2048
  texturesTargetHeight := 2048
  texturesResizeRatio := false
  texturesTargetWidthRatio := 1
  texturesTargetHeightRatio := 1
  meshesOptimizationLevel := 0
  meshesHeadparts := true
  meshesResave := false
  animationsOptimization := false

/-! ## Keys that are set and saved -/

instance (key : Text) : Decidable (KeptKey key) :=
  decidable_of_iff (key.head? ≠ some '/' ∧ ¬OpenName (nameOf key)) ⟨fun h => ⟨h.1, h.2⟩, fun h => ⟨h.lead, h.closed⟩⟩

/-- Keys of a model: of ASCII, no two the same in any case, each kept by a save. -/
structure ModelKeys (keys : List Text) : Prop where
  ascii : (keys.all fun key => key.all fun c => decide (c.toNat < 0x80)) = true
  distinct : (keys.map (·.map Char.toLower)).Nodup
  kept : ∀ key ∈ keys, KeptKey key

theorem modelKeys_iff {keys : List Text} : ModelKeys keys ↔
    (keys.all fun key => key.all fun c => decide (c.toNat < 0x80)) = true ∧ (keys.map (·.map Char.toLower)).Nodup ∧
      ∀ key ∈ keys, KeptKey key :=
  ⟨fun h => ⟨h.ascii, h.distinct, h.kept⟩, fun h => ⟨h.1, h.2.1, h.2.2⟩⟩

theorem ModelKeys.lower_distinct (tables : CaseTables) {keys : List Text} (h : ModelKeys keys) :
    (keys.map (toLowercase tables)).Nodup := by
  have hlower : keys.map (toLowercase tables) = keys.map (·.map Char.toLower) :=
    List.map_congr_left fun key hkey => toLowercase_ascii (forall_of_all (List.all_eq_true.mp h.ascii key hkey))
  rw [hlower]
  exact h.distinct

/-- **What is read back of a model's keys**, and of the others. -/
theorem edited_saved {tables : CaseTables} {ini : IniFile tables} (hini : ∀ e ∈ ini.entries, KeptKey e.key ∧ e.value.Written)
    {edits : List Edit} (hkeys : ModelKeys (edits.map Prod.fst))
    (hwritten : ∀ edit ∈ edits, ∀ v, edit.2 = some v → v.Written) :
    (∀ (n : Nat) edit, edits[n]? = some edit →
      Value.SameReadings (edit.2.getD .invalid) ((parse tables (serialize (ini.edit edits))).value edit.1)) ∧
      ∀ key, (∀ held ∈ edits.map Prod.fst, toLowercase tables key ≠ toLowercase tables held) →
        Value.SameReadings (ini.value key) ((parse tables (serialize (ini.edit edits))).value key) := by
  have hdistinct : (edits.map fun edit => toLowercase tables edit.1).Nodup := by
    have := hkeys.lower_distinct tables
    rwa [List.map_map] at this
  obtain ⟨hedited, hothers⟩ := edit_saved hini hdistinct fun edit he =>
    ⟨hkeys.kept _ (List.mem_map_of_mem he), hwritten edit he⟩
  exact ⟨fun n edit hn => hedited edit (List.mem_of_getElem? hn),
    fun key hkey => hothers key fun edit he => hkey edit.1 (List.mem_map_of_mem he)⟩

/-! ## Reading and writing -/

/-- Whether an edit gives text. -/
def isText : Option Value → Bool
  | some (.string _) => true
  | _ => false

theorem written_of_isText {edit : Option Value} (h : isText edit = true) {v : Value} (hv : edit = some v) : v.Written := by
  subst hv
  cases v with
  | string text => exact .scalar (.string text)
  | _ => cases h

theorem OptimizationMode.fromNumber_number {mode : OptimizationMode} (hzero : mode ≠ .unsupported 0)
    (hone : mode ≠ .unsupported 1) : fromNumber mode.number = mode := by
  cases mode with
  | unsupported number =>
    unfold fromNumber OptimizationMode.number
    rw [if_neg fun h => hzero (congrArg _ h), if_neg fun h => hone (congrArg _ h)]
  | _ => rfl

namespace Options

variable {tables : CaseTables}

/-- `Options::read`. -/
def read (ini : IniFile tables) (current : Options) : Options :=
  let flag := fun key => (ini.value key).toBool tables
  let number := fun key => (ini.value key).toU32
  let userPath := (ini.value "userPath".toList).toQstring
  {
    dryRun := flag "bDryRun".toList
    debugLog := flag "bDebugLog".toList
    mode := .fromNumber (ini.value "mode".toList).toI32
    userPath := if userPath = [] then current.userPath else userPath
    bsaExtract := flag "BSA/bBsaExtract".toList
    bsaCreate := flag "BSA/bBsaCreate".toList
    bsaDeleteBackup := flag "BSA/bBsaDeleteBackup".toList
    bsaMergeIncompressible := flag "BSA/bBsaMergeIncomp".toList
    bsaMergeTextures := flag "BSA/bBsaMergeTexture".toList
    bsaProcessContent := flag "BSA/bBsaProcessContent".toList
    bsaCreateDummies := flag "BSA/bBsaCreateDummies".toList
    bsaCompress := flag "BSA/bBsaCompress".toList
    bsaDeleteSource := flag "BSA/bBsaDeleteSource".toList
    texturesNecessary := flag "Textures/bTexturesNecessary".toList
    texturesCompress := flag "Textures/bTexturesCompress".toList
    texturesMipmaps := flag "Textures/bTexturesMipmaps".toList
    texturesResizeSize := flag "Textures/bTexturesResizeSize".toList
    texturesTargetWidth := number "Textures/iTexturesTargetWidth".toList
    texturesTargetHeight := number "Textures/iTexturesTargetHeight".toList
    texturesResizeRatio := flag "Textures/bTexturesResizeRatio".toList
    texturesTargetWidthRatio := number "Textures/iTexturesTargetWidthRatio".toList
    texturesTargetHeightRatio := number "Textures/iTexturesTargetHeightRatio".toList
    meshesOptimizationLevel := (ini.value "Meshes/iMeshesOptimizationLevel".toList).toI32
    meshesHeadparts := flag "Meshes/bMeshesHeadparts".toList
    meshesResave := flag "Meshes/bMeshesResave".toList
    animationsOptimization := flag "Animations/bAnimationsOptimization".toList
  }

/-- What `Options::write` sets, in order. -/
def edits (options : Options) : List Edit :=
  [("bDryRun".toList, some (.ofBool options.dryRun)),
    ("bDebugLog".toList, some (.ofBool options.debugLog)),
    ("mode".toList, some (.ofInt options.mode.number.toInt)),
    ("userPath".toList, some (.string options.userPath)),
    ("BSA/bBsaExtract".toList, some (.ofBool options.bsaExtract)),
    ("BSA/bBsaCreate".toList, some (.ofBool options.bsaCreate)),
    ("BSA/bBsaDeleteBackup".toList, some (.ofBool options.bsaDeleteBackup)),
    ("BSA/bBsaMergeIncomp".toList, some (.ofBool options.bsaMergeIncompressible)),
    ("BSA/bBsaMergeTexture".toList, some (.ofBool options.bsaMergeTextures)),
    ("BSA/bBsaProcessContent".toList, some (.ofBool options.bsaProcessContent)),
    ("BSA/bBsaCreateDummies".toList, some (.ofBool options.bsaCreateDummies)),
    ("BSA/bBsaCompress".toList, some (.ofBool options.bsaCompress)),
    ("BSA/bBsaDeleteSource".toList, some (.ofBool options.bsaDeleteSource)),
    ("Textures/bTexturesNecessary".toList, some (.ofBool options.texturesNecessary)),
    ("Textures/bTexturesCompress".toList, some (.ofBool options.texturesCompress)),
    ("Textures/bTexturesMipmaps".toList, some (.ofBool options.texturesMipmaps)),
    ("Textures/bTexturesResizeSize".toList, some (.ofBool options.texturesResizeSize)),
    ("Textures/iTexturesTargetWidth".toList, some (.ofNat options.texturesTargetWidth.toNat)),
    ("Textures/iTexturesTargetHeight".toList, some (.ofNat options.texturesTargetHeight.toNat)),
    ("Textures/bTexturesResizeRatio".toList, some (.ofBool options.texturesResizeRatio)),
    ("Textures/iTexturesTargetHeightRatio".toList, some (.ofNat options.texturesTargetHeightRatio.toNat)),
    ("Textures/iTexturesTargetWidthRatio".toList, some (.ofNat options.texturesTargetWidthRatio.toNat)),
    ("Meshes/iMeshesOptimizationLevel".toList, some (.ofInt options.meshesOptimizationLevel.toInt)),
    ("Meshes/bMeshesHeadparts".toList, some (.ofBool options.meshesHeadparts)),
    ("Meshes/bMeshesResave".toList, some (.ofBool options.meshesResave)),
    ("Animations/bAnimationsOptimization".toList, some (.ofBool options.animationsOptimization))]

/-- `Options::write`. -/
def write (options : Options) (ini : IniFile tables) : IniFile tables := ini.edit options.edits

/-- The keys of the model. -/
def keys : List Text :=
  ["bDryRun".toList, "bDebugLog".toList, "mode".toList, "userPath".toList, "BSA/bBsaExtract".toList,
    "BSA/bBsaCreate".toList, "BSA/bBsaDeleteBackup".toList, "BSA/bBsaMergeIncomp".toList,
    "BSA/bBsaMergeTexture".toList, "BSA/bBsaProcessContent".toList, "BSA/bBsaCreateDummies".toList,
    "BSA/bBsaCompress".toList, "BSA/bBsaDeleteSource".toList, "Textures/bTexturesNecessary".toList,
    "Textures/bTexturesCompress".toList, "Textures/bTexturesMipmaps".toList, "Textures/bTexturesResizeSize".toList,
    "Textures/iTexturesTargetWidth".toList, "Textures/iTexturesTargetHeight".toList,
    "Textures/bTexturesResizeRatio".toList, "Textures/iTexturesTargetHeightRatio".toList,
    "Textures/iTexturesTargetWidthRatio".toList, "Meshes/iMeshesOptimizationLevel".toList,
    "Meshes/bMeshesHeadparts".toList, "Meshes/bMeshesResave".toList, "Animations/bAnimationsOptimization".toList]

theorem keys_edits (options : Options) : options.edits.map Prod.fst = keys := by
  simp only [edits, keys, List.map_cons, List.map_nil]

theorem modelKeys : ModelKeys keys := by
  rw [modelKeys_iff, keys]
  -- spelled out, so that nothing decodes a string
  repeat rw [String.toList_ofList]
  decide +kernel

/-- Options as they are read over others: an empty folder keeps the other's. -/
def readOver (options current : Options) : Options :=
  { options with userPath := if options.userPath = [] then current.userPath else options.userPath }

theorem written_edits (options : Options) : ∀ edit ∈ options.edits, ∀ v, edit.2 = some v → v.Written := by
  have htext : (options.edits.all fun edit => isText edit.2) = true := rfl
  exact fun edit he v hv => written_of_isText (List.all_eq_true.mp htext edit he) hv

/-- Settings that hold what a model sets, as every getter reads it. -/
def Holds (again : IniFile tables) (options : Options) : Prop := ∀ (n : Nat) edit, options.edits[n]? = some edit →
  Value.SameReadings (edit.2.getD .invalid) (again.value edit.1)

theorem mode_of_holds {again : IniFile tables} {options : Options} (h : Holds again options) (current : Options) :
    (read again current).mode = .fromNumber options.mode.number :=
  congrArg OptimizationMode.fromNumber ((h 2 _ rfl).toI32.symm.trans (toI32_ofInt _))

/-- **Options are read of settings that hold them.** -/
theorem read_of_holds {again : IniFile tables} {options : Options} (h : Holds again options) (current : Options)
    (hzero : options.mode ≠ .unsupported 0) (hone : options.mode ≠ .unsupported 1) :
    read again current = options.readOver current := by
  have hflag : ∀ (n : Nat) key b, options.edits[n]? = some (key, some (.ofBool b)) →
      (again.value key).toBool tables = b := fun n key b hn => (h n _ hn).toBool.symm.trans (toBool_ofBool b)
  have hnumber : ∀ (n : Nat) key (i : UInt32), options.edits[n]? = some (key, some (.ofNat i.toNat)) →
      (again.value key).toU32 = i := fun n key i hn => (h n _ hn).toU32.symm.trans (toU32_ofNat i)
  have hint : ∀ (n : Nat) key (i : Int32), options.edits[n]? = some (key, some (.ofInt i.toInt)) →
      (again.value key).toI32 = i := fun n key i hn => (h n _ hn).toI32.symm.trans (toI32_ofInt i)
  have hmode := (mode_of_holds h current).trans (OptimizationMode.fromNumber_number hzero hone)
  have hfolder : (again.value "userPath".toList).toQstring = options.userPath := (h 3 _ rfl).toQstring.symm
  have huser : (read again current).userPath = (options.readOver current).userPath := by
    show (if (again.value "userPath".toList).toQstring = [] then current.userPath
      else (again.value "userPath".toList).toQstring) = _
    rw [hfolder]
    rfl
  exact Options.ext
    (hflag 0 _ _ rfl) (hflag 1 _ _ rfl) hmode huser (hflag 4 _ _ rfl) (hflag 5 _ _ rfl) (hflag 6 _ _ rfl)
    (hflag 7 _ _ rfl) (hflag 8 _ _ rfl) (hflag 9 _ _ rfl) (hflag 10 _ _ rfl) (hflag 11 _ _ rfl) (hflag 12 _ _ rfl)
    (hflag 13 _ _ rfl) (hflag 14 _ _ rfl) (hflag 15 _ _ rfl) (hflag 16 _ _ rfl) (hnumber 17 _ _ rfl)
    (hnumber 18 _ _ rfl) (hflag 19 _ _ rfl) (hnumber 21 _ _ rfl) (hnumber 20 _ _ rfl) (hint 22 _ _ rfl)
    (hflag 23 _ _ rfl) (hflag 24 _ _ rfl) (hflag 25 _ _ rfl)

/-- **What is read back of written options.** -/
theorem holds_saved {ini : IniFile tables} (hini : ∀ e ∈ ini.entries, KeptKey e.key ∧ e.value.Written) (options : Options) :
    Holds (parse tables (serialize (options.write ini))) options ∧
      ∀ key, (∀ held ∈ keys, toLowercase tables key ≠ toLowercase tables held) →
        Value.SameReadings (ini.value key) ((parse tables (serialize (options.write ini))).value key) :=
  edited_saved hini (options.keys_edits ▸ modelKeys) options.written_edits

end Options

end Cao.Profile
