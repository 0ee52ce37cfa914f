import Cao.Ini.Again
import Cao.Profile.Settings

/-!
# The common settings

What every Profile shares in `common.ini` (`common.rs`): the selected Profile and the GUI's own preferences.

* `CommonSettings`, `read`, `write`: the model and its keys, two of which read as `true` where they are missing;
* **`CommonSettings.read_of_holds`**: common settings are read of settings that hold what they set;
* `StableNames`, **`ModelKeys.steady`**: the keys of the models are ones that no number of saves loses.
-/

namespace Cao.Profile

open Ini

variable {tables : CaseTables}

/-- `CommonSettings`. -/
@[ext]
structure CommonSettings where
  profile : Text
  showAdvancedSettings : Bool
  darkMode : Bool
  showTutorial : Bool
  notFirstStart : Bool

namespace CommonSettings

/-- `CommonSettings::read`. -/
def read (ini : IniFile tables) : CommonSettings where
  profile := (ini.value "profile".toList).toQstring
  showAdvancedSettings := (ini.value "bShowAdvancedSettings".toList).toBool tables
  darkMode := (ini.get "bDarkMode".toList).all (·.toBool tables)
  showTutorial := (ini.get "showTutorial".toList).all (·.toBool tables)
  notFirstStart := (ini.value "notFirstStart".toList).toBool tables

/-- What `CommonSettings::write` sets, in order. -/
def edits (settings : CommonSettings) : List Edit :=
  [("profile".toList, some (.string settings.profile)),
    ("bShowAdvancedSettings".toList, some (.ofBool settings.showAdvancedSettings)),
    ("bDarkMode".toList, some (.ofBool settings.darkMode)),
    ("showTutorial".toList, some (.ofBool settings.showTutorial)),
    ("notFirstStart".toList, some (.ofBool settings.notFirstStart))]

/-- `CommonSettings::write`. -/
def write (settings : CommonSettings) (ini : IniFile tables) : IniFile tables := ini.edit settings.edits

/-- The keys of the model. -/
def keys : List Text :=
  ["profile".toList, "bShowAdvancedSettings".toList, "bDarkMode".toList, "showTutorial".toList, "notFirstStart".toList]

theorem keys_edits (settings : CommonSettings) : settings.edits.map Prod.fst = keys := rfl

theorem modelKeys : ModelKeys keys := by
  rw [modelKeys_iff, keys]
  repeat rw [String.toList_ofList]
  decide +kernel

theorem written_edits (settings : CommonSettings) : ∀ edit ∈ settings.edits, ∀ v, edit.2 = some v → v.Written := by
  have htext : (settings.edits.all fun edit => isText edit.2) = true := rfl
  exact fun edit he v hv => written_of_isText (List.all_eq_true.mp htext edit he) hv

/-- A flag that is held is not missing. -/
theorem all_of_holds {ini : IniFile tables} {key : Text} {b : Bool} (h : Value.SameReadings (.ofBool b) (ini.value key)) :
    (ini.get key).all (·.toBool tables) = b := by
  have hflag : (ini.value key).toBool tables = b := h.toBool.symm.trans (toBool_ofBool b)
  unfold IniFile.value at h hflag
  cases hget : ini.get key with
  | none =>
    rw [hget] at h
    cases h.invalid.mpr rfl
  | some v =>
    rw [hget] at hflag
    exact hflag

/-- **Common settings are read of settings that hold them.** -/
theorem read_of_holds {again : IniFile tables} {settings : CommonSettings}
    (h : ∀ edit ∈ settings.edits, Value.SameReadings (edit.2.getD .invalid) (again.value edit.1)) : read again = settings := by
  have hholds : ∀ (n : Nat) edit, settings.edits[n]? = some edit →
      Value.SameReadings (edit.2.getD .invalid) (again.value edit.1) := fun n edit hn => h edit (List.mem_of_getElem? hn)
  have hflag : ∀ (n : Nat) key b, settings.edits[n]? = some (key, some (.ofBool b)) →
      (again.value key).toBool tables = b := fun n key b hn => (hholds n _ hn).toBool.symm.trans (toBool_ofBool b)
  have hprofile : (again.value "profile".toList).toQstring = settings.profile := (hholds 0 _ rfl).toQstring.symm
  exact CommonSettings.ext hprofile (hflag 1 _ _ rfl) (all_of_holds (hholds 2 _ rfl)) (all_of_holds (hholds 3 _ rfl))
    (hflag 4 _ _ rfl)

end CommonSettings

/-! ## Keys that no number of saves loses -/

/-- Names that begin and end in no `/` in lowercase. -/
def StableNames (keys : List Text) : Prop :=
  (keys.all fun key => (key.map Char.toLower).head? != some '/' && (key.map Char.toLower).getLast? != some '/') = true

instance (keys : List Text) : Decidable (StableNames keys) := inferInstanceAs (Decidable (_ = true))

/-- **The keys of a model are ones that no number of saves loses.** -/
theorem ModelKeys.steady {edits : List Edit} {keys : List Text} (hkeys : ModelKeys keys) (hstable : StableNames keys)
    (hedits : edits.map Prod.fst = keys) (hwritten : ∀ edit ∈ edits, ∀ v, edit.2 = some v → v.Written) :
    SteadyEdits tables edits where
  distinct := by
    have := hkeys.lower_distinct tables
    rwa [← hedits, List.map_map] at this
  stable := by
    intro edit he
    have hkey : edit.1 ∈ keys := hedits ▸ List.mem_map_of_mem he
    have hname := List.all_eq_true.mp hstable _ hkey
    rw [Bool.and_eq_true, bne_iff_ne, bne_iff_ne] at hname
    exact stableKey_ascii (forall_of_all (List.all_eq_true.mp hkeys.ascii _ hkey)) hname.1 hname.2
  written := hwritten

theorem stableNames_keys : StableNames CommonSettings.keys ∧ StableNames Options.keys ∧ StableNames ProfileSettings.keys := by
  unfold CommonSettings.keys Options.keys ProfileSettings.keys
  repeat rw [String.toList_ofList]
  decide +kernel

theorem CommonSettings.steady (settings : CommonSettings) : SteadyEdits tables settings.edits :=
  modelKeys.steady stableNames_keys.1 settings.keys_edits settings.written_edits

theorem Options.steady (options : Options) : SteadyEdits tables options.edits :=
  modelKeys.steady stableNames_keys.2.1 options.keys_edits options.written_edits

theorem ProfileSettings.steady {parseF64 : Text → Option Binary64} (settings : ProfileSettings parseF64) :
    SteadyEdits tables settings.edits :=
  modelKeys.steady stableNames_keys.2.2 settings.keys_edits settings.written_edits

end Cao.Profile
