import Cao.Profile.Options

/-!
# The settings of a Profile

The game of a Profile and what each Asset Kind may do under it, in `profile.ini` (`settings.rs`).

* `ProfileSettings`, `read`, `write`: the model and its keys, the closed sets checked;
* **`read_of_holds`**, `holds_saved`: settings that are written, saved and loaded are read back;
* `NamedKey`, **`models_saved`**: so are options and settings, over any file whose keys have names, and its other keys stay.
-/

namespace Cao.Profile

open Ini

variable {tables : CaseTables} {parseF64 : Text → Option Binary64}

/-! ## The maximum size's key -/

theorem ArchiveSize.write_eq_edit (size : ArchiveSize parseF64) (ini : IniFile tables) (key : Text) :
    size.write ini key = ini.edit [(key, size.edit)] := by
  cases size <;> rfl

theorem ArchiveSize.written_edit (size : ArchiveSize parseF64) {v : Value} (h : size.edit = some v) : v.Written := by
  cases size with
  | none => cases h
  | some given =>
    cases h
    exact .scalar (.string _)

/-! ## The model -/

/-- `ProfileSettings`. -/
@[ext]
structure ProfileSettings (parseF64 : Text → Option Binary64) where
  bsaEnabled : Bool
  maxBsaUncompressedSize : ArchiveSize parseF64
  bsaGame : Pack.Game
  meshesEnabled : Bool
  meshesFileVersion : MeshFileVersion
  meshesStream : MeshStreamVersion
  meshesUser : MeshUserVersion
  animationsEnabled : Bool
  texturesEnabled : Bool
  texturesFormat : TextureFormat
  texturesConvertTga : Bool
  texturesUnwantedFormats : List UnwantedFormat
  texturesCompressInterface : Bool

/-- `read_game`. -/
def readGame (value : Value) : Except ProfileError Pack.Game :=
  if value.toI32 = 3 then .ok .tes5
  else if value.toI32 = 4 then .ok .sse
  else if value.toI32 = 5 then .ok .fo4
  else .error (.unsupportedBsaGame value.toQstring)

namespace ProfileSettings

variable (parseF64) in
/-- `ProfileSettings::read`. -/
def read (ini : IniFile tables) : Except ProfileError (ProfileSettings parseF64) := do
  let bsaEnabled := (ini.value "BSA/bsaEnabled".toList).toBool tables
  let maxBsaUncompressedSize ←
    (ArchiveSize.read parseF64 ini "BSA/maxBsaUncompressedSize".toList).mapError ProfileError.unsupportedValue
  let bsaGame ← readGame (ini.value "BSA/bsaGame".toList)
  let meshesEnabled := (ini.value "Meshes/meshesEnabled".toList).toBool tables
  let meshesFileVersion ← ClosedSet.read ini "Meshes/meshesFileVersion".toList
  let meshesStream ← ClosedSet.read ini "Meshes/meshesStream".toList
  let meshesUser ← ClosedSet.read ini "Meshes/meshesUser".toList
  let animationsEnabled := (ini.value "Animations/animationsEnabled".toList).toBool tables
  let texturesEnabled := (ini.value "Textures/texturesEnabled".toList).toBool tables
  let texturesFormat ← ClosedSet.read ini "Textures/texturesFormat".toList
  let texturesConvertTga := (ini.value "Textures/texturesConvertTga".toList).toBool tables
  let texturesUnwantedFormats ← ClosedSet.readList ini "Textures/texturesUnwantedFormats".toList
  let texturesCompressInterface := (ini.value "Textures/texturesCompressInterface".toList).toBool tables
  return {
    bsaEnabled, maxBsaUncompressedSize, bsaGame, meshesEnabled, meshesFileVersion, meshesStream, meshesUser
    animationsEnabled, texturesEnabled, texturesFormat, texturesConvertTga, texturesUnwantedFormats
    texturesCompressInterface }

/-- The list of unwanted formats as it is set: each number fits an `i32`. -/
def unwantedList (settings : ProfileSettings parseF64) : Value :=
  .intList (settings.texturesUnwantedFormats.map fun format => Int32.ofNat (ClosedSet.number format))

/-- What `ProfileSettings::write` sets or removes, in order. -/
def edits (settings : ProfileSettings parseF64) : List Edit :=
  [("BSA/bsaEnabled".toList, some (.ofBool settings.bsaEnabled)),
    ("BSA/maxBsaUncompressedSize".toList, settings.maxBsaUncompressedSize.edit),
    ("BSA/bsaGame".toList, some (.ofNat (ClosedSet.number settings.bsaGame))),
    ("Meshes/meshesEnabled".toList, some (.ofBool settings.meshesEnabled)),
    ("Meshes/meshesFileVersion".toList, some (.ofNat (ClosedSet.number settings.meshesFileVersion))),
    ("Meshes/meshesStream".toList, some (.ofNat (ClosedSet.number settings.meshesStream))),
    ("Meshes/meshesUser".toList, some (.ofNat (ClosedSet.number settings.meshesUser))),
    ("Animations/animationsEnabled".toList, some (.ofBool settings.animationsEnabled)),
    ("Textures/texturesEnabled".toList, some (.ofBool settings.texturesEnabled)),
    ("Textures/texturesFormat".toList, some (.ofNat (ClosedSet.number settings.texturesFormat))),
    ("Textures/texturesConvertTga".toList, some (.ofBool settings.texturesConvertTga)),
    ("Textures/texturesUnwantedFormats".toList, some settings.unwantedList),
    ("Textures/texturesCompressInterface".toList, some (.ofBool settings.texturesCompressInterface))]

/-- `ProfileSettings::write`. -/
def write (settings : ProfileSettings parseF64) (ini : IniFile tables) : IniFile tables :=
  let ini := ini.set "BSA/bsaEnabled".toList (.ofBool settings.bsaEnabled)
  let ini := settings.maxBsaUncompressedSize.write ini "BSA/maxBsaUncompressedSize".toList
  let ini := ini.set "BSA/bsaGame".toList (.ofNat (ClosedSet.number settings.bsaGame))
  let ini := ini.set "Meshes/meshesEnabled".toList (.ofBool settings.meshesEnabled)
  let ini := ini.set "Meshes/meshesFileVersion".toList (.ofNat (ClosedSet.number settings.meshesFileVersion))
  let ini := ini.set "Meshes/meshesStream".toList (.ofNat (ClosedSet.number settings.meshesStream))
  let ini := ini.set "Meshes/meshesUser".toList (.ofNat (ClosedSet.number settings.meshesUser))
  let ini := ini.set "Animations/animationsEnabled".toList (.ofBool settings.animationsEnabled)
  let ini := ini.set "Textures/texturesEnabled".toList (.ofBool settings.texturesEnabled)
  let ini := ini.set "Textures/texturesFormat".toList (.ofNat (ClosedSet.number settings.texturesFormat))
  let ini := ini.set "Textures/texturesConvertTga".toList (.ofBool settings.texturesConvertTga)
  let ini := ini.set "Textures/texturesUnwantedFormats".toList settings.unwantedList
  ini.set "Textures/texturesCompressInterface".toList (.ofBool settings.texturesCompressInterface)

theorem write_eq_edit (settings : ProfileSettings parseF64) (ini : IniFile tables) :
    settings.write ini = ini.edit settings.edits := by
  unfold write
  dsimp only
  rw [ArchiveSize.write_eq_edit]
  rfl

/-- The keys of the model. -/
def keys : List Text :=
  ["BSA/bsaEnabled".toList, "BSA/maxBsaUncompressedSize".toList, "BSA/bsaGame".toList, "Meshes/meshesEnabled".toList,
    "Meshes/meshesFileVersion".toList, "Meshes/meshesStream".toList, "Meshes/meshesUser".toList,
    "Animations/animationsEnabled".toList, "Textures/texturesEnabled".toList, "Textures/texturesFormat".toList,
    "Textures/texturesConvertTga".toList, "Textures/texturesUnwantedFormats".toList,
    "Textures/texturesCompressInterface".toList]

theorem keys_edits (settings : ProfileSettings parseF64) : settings.edits.map Prod.fst = keys := by
  simp only [edits, keys, List.map_cons, List.map_nil]

theorem modelKeys : ModelKeys keys := by
  rw [modelKeys_iff, keys]
  repeat rw [String.toList_ofList]
  decide +kernel

theorem written_edits (settings : ProfileSettings parseF64) :
    ∀ edit ∈ settings.edits, ∀ v, edit.2 = some v → v.Written := by
  have hforms : ∀ edit ∈ settings.edits, isText edit.2 = true ∨ edit.2 = settings.maxBsaUncompressedSize.edit ∨
      edit.2 = some settings.unwantedList := by
    simp only [edits, List.forall_mem_cons]
    exact ⟨.inl rfl, .inr (.inl trivial), .inl rfl, .inl rfl, .inl rfl, .inl rfl, .inl rfl, .inl rfl, .inl rfl, .inl rfl,
      .inl rfl, .inr (.inr trivial), .inl rfl, fun _ h => nomatch h⟩
  intro edit he v hv
  obtain htext | hsize | hlist := hforms edit he
  · exact written_of_isText htext hv
  · exact ArchiveSize.written_edit _ (hsize ▸ hv)
  · obtain rfl := Option.some.inj (hlist ▸ hv)
    exact Value.written_intList _

/-- Settings that hold what a model sets, as every getter reads it. -/
def Holds (again : IniFile tables) (settings : ProfileSettings parseF64) : Prop :=
  ∀ (n : Nat) edit, settings.edits[n]? = some edit → Value.SameReadings (edit.2.getD .invalid) (again.value edit.1)

theorem toInt_unwanted (format : UnwantedFormat) : (Int32.ofNat (ClosedSet.number format)).toInt = ClosedSet.number format := by
  have hle : ClosedSet.number format ≤ 115 := format.row_le
  exact Int32.toInt_ofNat_of_lt (by omega)

/-- **A list of unwanted formats is read of any value that no getter tells from it.** -/
theorem readList_unwanted {again : IniFile tables} {key : Text} {settings : ProfileSettings parseF64}
    (h : Value.SameReadings settings.unwantedList (again.value key)) (hnodup : settings.texturesUnwantedFormats.Nodup) :
    ClosedSet.readList again key = .ok settings.texturesUnwantedFormats := by
  have hentries := h.entries
  rw [unwantedList, listEntries_intList] at hentries
  obtain ⟨entries, hlist, hreadings⟩ := Option.map_eq_some_iff.mp hentries.symm
  have hsame : List.Forall₂ (fun (entry : Value) (format : UnwantedFormat) => entry.readings =
      (Value.ofInt (Int32.ofNat (ClosedSet.number format)).toInt).readings) entries settings.texturesUnwantedFormats := by
    dsimp only at hreadings
    rw [List.map_map, List.map_map] at hreadings
    have hrel := List.forall₂_eq_eq_eq.symm ▸ hreadings
    rwa [List.forall₂_map_left_iff, List.forall₂_map_right_iff] at hrel
  refine ClosedSet.readList_of_numbers hlist (hsame.imp fun entry format hentry => ?_) hnodup
  have hle : ClosedSet.number format ≤ 115 := format.row_le
  have htext : entry.toI64 = (Value.ofInt (Int32.ofNat (ClosedSet.number format)).toInt).toI64 :=
    Value.toI64_of_text (congrArg Prod.fst hentry)
  rw [htext, toInt_unwanted, toI64_ofInt (by unfold u64Size; omega) (by unfold u64Size; omega)]

theorem readGame_of_number {value : Value} {game : Pack.Game} (h : value.toI64 = ClosedSet.number game) :
    readGame value = .ok game := by
  unfold readGame Value.toI32
  rw [h]
  cases game <;> rfl

/-- **Settings are read of a file that holds them.** -/
theorem read_of_holds {again : IniFile tables} {settings : ProfileSettings parseF64} (h : Holds again settings)
    (hnodup : settings.texturesUnwantedFormats.Nodup) : read parseF64 again = .ok settings := by
  have hflag : ∀ (n : Nat) key b, settings.edits[n]? = some (key, some (.ofBool b)) →
      (again.value key).toBool tables = b := fun n key b hn => (h n _ hn).toBool.symm.trans (toBool_ofBool b)
  have hnumber : ∀ (n : Nat) key (i : Nat), i < 0x100000000 → settings.edits[n]? = some (key, some (.ofNat i)) →
      (again.value key).toI64 = i := fun n key i hi hn =>
    (h n _ hn).toI64.symm.trans (toI64_ofNat (by unfold u64Size; omega))
  have hsize : ArchiveSize.read parseF64 again "BSA/maxBsaUncompressedSize".toList = .ok settings.maxBsaUncompressedSize :=
    ArchiveSize.readValue_of_same _ (h 1 _ rfl)
  have hgame := readGame_of_number (hnumber 2 _ _ (ClosedSet.number_lt settings.bsaGame) rfl)
  have hversion := ClosedSet.read_of_number (hnumber 4 _ _ (ClosedSet.number_lt settings.meshesFileVersion) rfl)
  have hstream := ClosedSet.read_of_number (hnumber 5 _ _ (ClosedSet.number_lt settings.meshesStream) rfl)
  have huser := ClosedSet.read_of_number (hnumber 6 _ _ (ClosedSet.number_lt settings.meshesUser) rfl)
  have hformat := ClosedSet.read_of_number (hnumber 9 _ _ (ClosedSet.number_lt settings.texturesFormat) rfl)
  have hunwanted := readList_unwanted (h 11 _ rfl) hnodup
  unfold read
  rw [hsize, hgame, hversion, hstream, huser, hformat, hunwanted]
  exact congrArg Except.ok (ProfileSettings.ext (hflag 0 _ _ rfl) rfl rfl (hflag 3 _ _ rfl) rfl rfl rfl
    (hflag 7 _ _ rfl) (hflag 8 _ _ rfl) rfl (hflag 10 _ _ rfl) rfl (hflag 12 _ _ rfl))

/-- **What is read back of written settings.** -/
theorem holds_saved {ini : IniFile tables} (hini : ∀ e ∈ ini.entries, KeptKey e.key ∧ e.value.Written)
    (settings : ProfileSettings parseF64) : Holds (parse tables (serialize (settings.write ini))) settings ∧
      ∀ key, (∀ held ∈ keys, toLowercase tables key ≠ toLowercase tables held) →
        Value.SameReadings (ini.value key) ((parse tables (serialize (settings.write ini))).value key) := by
  rw [settings.write_eq_edit]
  exact edited_saved hini (settings.keys_edits ▸ modelKeys) settings.written_edits

end ProfileSettings

/-! ## A Profile that is saved and loaded -/

/-- A key whose last part is not empty, and that begins with no `/`. -/
structure NamedKey (key : Text) : Prop where
  lead : key.head? ≠ some '/'
  last : key.rtakeWhile (· ≠ '/') ≠ []

/-- **Such a key is kept by a save.** -/
theorem NamedKey.kept {key : Text} (h : NamedKey key) : KeptKey key := by
  obtain ⟨hlead, hlast⟩ := h
  refine ⟨hlead, ?_⟩
  -- Both the key and its name end in a character that is no `/`.
  obtain ⟨init, c, rfl, hc⟩ : ∃ init c, key = init ++ [c] ∧ c ≠ '/' := by
    cases key using List.reverseRecOn with
    | nil => exact absurd rfl hlast
    | append_singleton init c =>
      refine ⟨init, c, rfl, ?_⟩
      rintro rfl
      exact hlast (List.rtakeWhile_eq_nil_iff.mpr fun _ => by simp)
  unfold nameOf
  cases hsplit : splitOnce '/' (init ++ [c]) with
  | none =>
    unfold OpenName
    rw [endRun_concat, if_neg hc]
    decide
  | some parts =>
    obtain ⟨group, name⟩ := parts
    obtain ⟨heq, -⟩ := splitOnce_eq_some hsplit
    unfold OpenName
    cases name using List.reverseRecOn with
    | nil =>
      show ¬endRun '/' ([] : Text) % 2 = 1
      decide
    | append_singleton name d =>
      rw [← List.cons_append, ← List.append_assoc] at heq
      obtain ⟨-, hlast⟩ := List.append_inj' heq rfl
      obtain rfl : c = d := List.singleton_inj.mp hlast
      show ¬endRun '/' (name ++ [c]) % 2 = 1
      rw [endRun_concat, if_neg hc]
      decide

/-- **A Profile that is saved and loaded is the same**: options and settings that are written into any file whose keys have
names are read of what is saved, and every other key reads as it did. -/
theorem models_saved {tables : CaseTables} {parseF64 : Text → Option Binary64} {data : Bytes}
    (hkeys : ∀ key ∈ (parse tables data).keys, NamedKey key) :
    (∀ options : Options, options.mode ≠ .unsupported 0 → options.mode ≠ .unsupported 1 →
      (∀ current, Options.read (parse tables (serialize (options.write (parse tables data)))) current = options.readOver current) ∧
      ∀ key, (∀ held ∈ Options.keys, toLowercase tables key ≠ toLowercase tables held) →
        Value.SameReadings ((parse tables data).value key)
          ((parse tables (serialize (options.write (parse tables data)))).value key)) ∧
    ∀ settings : ProfileSettings parseF64, settings.texturesUnwantedFormats.Nodup →
      ProfileSettings.read parseF64 (parse tables (serialize (settings.write (parse tables data)))) = .ok settings ∧
      ∀ key, (∀ held ∈ ProfileSettings.keys, toLowercase tables key ≠ toLowercase tables held) →
        Value.SameReadings ((parse tables data).value key)
          ((parse tables (serialize (settings.write (parse tables data)))).value key) := by
  have hini : ∀ e ∈ (parse tables data).entries, KeptKey e.key ∧ e.value.Written := fun e he =>
    ⟨(hkeys e.key (List.mem_map_of_mem he)).kept, written_parse he⟩
  constructor
  · intro options hzero hone
    obtain ⟨hholds, hothers⟩ := Options.holds_saved hini options
    exact ⟨fun current => Options.read_of_holds hholds current hzero hone, hothers⟩
  · intro settings hnodup
    obtain ⟨hholds, hothers⟩ := ProfileSettings.holds_saved hini settings
    exact ⟨ProfileSettings.read_of_holds hholds hnodup, hothers⟩

/-- New options, and settings with two unwanted formats, over a file with another key. -/
theorem models_saved_sample :
    Options.read (parse .ascii (serialize (Options.default.write (parse .ascii (bytes "[BSA]\r\nbBsaLeastBSA=true".toList)))))
      Options.default = Options.default ∧
    ∃ settings : ProfileSettings fun _ => none, settings.texturesUnwantedFormats = [.bc2Unorm, .bc4Unorm] ∧
      ProfileSettings.read (fun _ => none) (parse .ascii (serialize (settings.write (parse .ascii
        (bytes "[BSA]\r\nbBsaLeastBSA=true".toList))))) = .ok settings := by
  have hkeys : ∀ key ∈ (parse .ascii (bytes "[BSA]\r\nbBsaLeastBSA=true".toList)).keys, NamedKey key := by
    have hone : (parse .ascii (bytes "[BSA]\r\nbBsaLeastBSA=true".toList)).keys = ["BSA/bBsaLeastBSA".toList] := by
      decide +kernel
    rw [hone, List.forall_mem_singleton]
    exact ⟨by decide, by decide⟩
  have hsaved := @models_saved .ascii (fun _ => none) _ hkeys
  refine ⟨(hsaved.1 Options.default (by decide) (by decide)).1 Options.default, ⟨true, none, .sse, true, .v20_2_0_7, .v100,
    .v12, true, true, .bc7Unorm, true, [.bc2Unorm, .bc4Unorm], true⟩, rfl, ?_⟩
  exact (hsaved.2 _ (by decide)).1

/-- **A mode of no name, of a number that has one, is read back as its name.** -/
theorem mode_renamed : ∃ options : Options, options.mode = .unsupported 0 ∧
    Options.read (parse .ascii (serialize (options.write (parse .ascii [])))) Options.default ≠
      options.readOver Options.default := by
  refine ⟨{ Options.default with mode := .unsupported 0 }, rfl, fun h => ?_⟩
  have hempty : ∀ e ∈ (parse CaseTables.ascii []).entries, KeptKey e.key ∧ e.value.Written := by
    rw [entries_parse_nil]
    exact List.forall_mem_nil _
  have hmode := Options.mode_of_holds (Options.holds_saved hempty { Options.default with mode := .unsupported 0 }).1
    Options.default
  rw [h] at hmode
  cases hmode

end Cao.Profile
