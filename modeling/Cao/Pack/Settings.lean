import Cao.Archive.EntryPath
import Cao.Word

/-!
# Archive rules

The per-game tables and the classification of files (`settings.rs`), a Profile's Archive Rules, and the
split of a file name at its extension (`split_file_name` of `name.rs`).

* `AllowedPath.check`, `fileType`: which kind a path is;
* `Settings.get`, `Settings.forProfile`: a game's rules, with the Profile's Archive Limit;
* `Settings.versionFor`, `Settings.keepsTexturesSeparate`: the container of each kind of Archive;
* **`forProfile_sizeCap`**, **`forProfile_versionFor`**: what the rules of every Profile share.
-/

namespace Cao.Pack

/-! ## Names and extensions -/

/-- `str::rfind`, of one character. -/
def rfind (c : Char) (s : Text) : Option Nat :=
  let after := (s.reverse.takeWhile fun d => d ≠ c).length
  if after = s.length then none else some (s.length - after - 1)

/-- `split_file_name`: the stem and the extension with its dot. -/
def splitFileName (name : Text) : Text × Text :=
  if name = ".".toList ∨ name = "..".toList then (name, [])
  else
    match rfind '.' name with
    | some dot => if 0 < dot then (name.take dot, name.drop dot) else (name, [])
    | none => (name, [])

/-- A path of some components. -/
def pathOf (components : List String) : Path := components.map fun component => OsStr.ofText component.toList

/-- `Path::file_name`. -/
def fileName (path : Path) : OsStr := path.getLast?.getD []

/-- `extension_of`. -/
def extensionOf (path : Path) : Text :=
  match (fileName path).toStr with
  | some name => (splitFileName name).2
  | none => []

/-- `str::eq_ignore_ascii_case`. -/
def eqIgnoreAsciiCase (s t : Text) : Bool := s.map Char.toLower = t.map Char.toLower

/-! ## Games and containers -/

/-- `Game`. -/
inductive Game
  | tes5
  | sse
  | fo4
  deriving DecidableEq, Repr

/-- `ArchiveVersion`. -/
inductive ArchiveVersion
  | tes5
  | sse
  | fo4
  | fo4Dx
  deriving DecidableEq, Repr

/-- `ArchiveType`. -/
inductive ArchiveType
  | standard
  | incompressible
  | textures
  deriving DecidableEq, Repr

/-- `FileType`. -/
inductive FileType
  | standard
  | texture
  | incompressible
  | unpackable
  | plugin
  | archive
  deriving DecidableEq, Repr

/-- `AllowedPath`. -/
structure AllowedPath where
  extension : Text
  directories : List Text
  deriving DecidableEq, Repr

/-- `AllowedPath::check`. -/
def AllowedPath.check (rule : AllowedPath) (path root : Path) : Bool :=
  if !eqIgnoreAsciiCase (extensionOf path) rule.extension then false
  else
    match relativeTo root path with
    | none => false
    | some [] => rule.directories.contains "root".toList
    | some (first :: _) =>
      match first.toStr with
      | some first => rule.directories.any fun directory => eqIgnoreAsciiCase first directory
      | none => false

/-! ## The tables -/

/-- `STANDARD_SSE`. -/
def standardSse : List AllowedPath := [
  ⟨".bgem".toList, ["materials".toList]⟩,
  ⟨".bgsm".toList, ["materials".toList]⟩,
  ⟨".bto".toList, ["meshes".toList]⟩,
  ⟨".btr".toList, ["meshes".toList]⟩,
  ⟨".btt".toList, ["meshes".toList]⟩,
  ⟨".cgid".toList, ["grass".toList]⟩,
  ⟨".dlodsettings".toList, ["lodsettings".toList]⟩,
  ⟨".dtl".toList, ["meshes".toList]⟩,
  ⟨".egm".toList, ["meshes".toList]⟩,
  ⟨".jpg".toList, ["root".toList]⟩,
  ⟨".hkb".toList, ["meshes".toList]⟩,
  ⟨".hkb".toList, ["meshes".toList]⟩,
  ⟨".hkx".toList, ["meshes".toList]⟩,
  ⟨".lst".toList, ["meshes".toList]⟩,
  ⟨".nif".toList, ["meshes".toList]⟩,
  ⟨".psc".toList, ["scripts".toList, "source".toList]⟩,
  ⟨".tga".toList, ["textures".toList]⟩,
  ⟨".tri".toList, ["meshes".toList]⟩]

/-- `STANDARD_FO4`. -/
def standardFo4 : List AllowedPath := [
  ⟨".bgem".toList, ["materials".toList]⟩,
  ⟨".bgsm".toList, ["materials".toList]⟩,
  ⟨".bto".toList, ["meshes".toList]⟩,
  ⟨".btr".toList, ["meshes".toList]⟩,
  ⟨".btt".toList, ["meshes".toList]⟩,
  ⟨".cgid".toList, ["grass".toList]⟩,
  ⟨".dlodsettings".toList, ["lodsettings".toList]⟩,
  ⟨".dtl".toList, ["meshes".toList]⟩,
  ⟨".egm".toList, ["meshes".toList]⟩,
  ⟨".jpg".toList, ["root".toList]⟩,
  ⟨".hkb".toList, ["meshes".toList]⟩,
  ⟨".hkb".toList, ["meshes".toList]⟩,
  ⟨".hkx".toList, ["meshes".toList]⟩,
  ⟨".lst".toList, ["meshes".toList]⟩,
  ⟨".nif".toList, ["meshes".toList]⟩,
  ⟨".psc".toList, ["scripts".toList, "source".toList]⟩,
  ⟨".tga".toList, ["textures".toList]⟩,
  ⟨".tri".toList, ["meshes".toList]⟩,
  ⟨".png".toList, ["textures".toList]⟩,
  ⟨".uvd".toList, ["vis".toList]⟩]

/-- `TEXTURE_SSE`. -/
def textureSse : List AllowedPath := [
  ⟨".dds".toList, ["textures".toList, "interface".toList]⟩,
  ⟨".png".toList, ["textures".toList]⟩]

/-- `TEXTURE_FO4`. -/
def textureFo4 : List AllowedPath := [
  ⟨".dds".toList, ["textures".toList, "interface".toList]⟩]

/-- `INCOMPRESSIBLE`. -/
def incompressibleFiles : List AllowedPath := [
  ⟨".dlstrings".toList, ["strings".toList]⟩,
  ⟨".fuz".toList, ["sound".toList]⟩,
  ⟨".fxp".toList, ["shadersfx".toList]⟩,
  ⟨".gid".toList, ["grass".toList]⟩,
  ⟨".gfx".toList, ["interface".toList]⟩,
  ⟨".hkc".toList, ["meshes".toList]⟩,
  ⟨".hkt".toList, ["meshes".toList]⟩,
  ⟨".hkp".toList, ["meshes".toList]⟩,
  ⟨".ilstrings".toList, ["strings".toList]⟩,
  ⟨".ini".toList, ["meshes".toList]⟩,
  ⟨".lip".toList, ["sound".toList]⟩,
  ⟨".lnk".toList, ["grass".toList]⟩,
  ⟨".lod".toList, ["lodsettings".toList]⟩,
  ⟨".ogg".toList, ["sound".toList]⟩,
  ⟨".pex".toList, ["scripts".toList]⟩,
  ⟨".seq".toList, ["seq".toList]⟩,
  ⟨".strings".toList, ["strings".toList]⟩,
  ⟨".swf".toList, ["interface".toList]⟩,
  ⟨".txt".toList, ["interface".toList, "meshes".toList, "scripts".toList]⟩,
  ⟨".wav".toList, ["sound".toList]⟩,
  ⟨".xml".toList, ["dialogueviews".toList]⟩,
  ⟨".xwm".toList, ["music".toList, "sound".toList]⟩]

/-- `dummy::TES5`. -/
def dummyTes5 : Bytes := [
    0x54, 0x45, 0x53, 0x34, 0x19, 0x00, 0x00, 0x00, 0x00, 0x00, 0x00, 0x00, 0x00, 0x00, 0x00,
    0x00, 0x00, 0x00, 0x00, 0x00, 0x2B, 0x00, 0x00, 0x00, 0x48, 0x45, 0x44, 0x52, 0x0C, 0x00,
    0x9A, 0x99, 0xD9, 0x3F, 0x00, 0x00, 0x00, 0x00, 0x00, 0x08, 0x00, 0x00, 0x43, 0x4E, 0x41,
    0x4D, 0x01, 0x00, 0x00]

/-- `dummy::SSE`. -/
def dummySse : Bytes := [
    0x54, 0x45, 0x53, 0x34, 0x19, 0x00, 0x00, 0x00, 0x00, 0x02, 0x00, 0x00, 0x00, 0x00, 0x00,
    0x00, 0x00, 0x00, 0x00, 0x00, 0x2C, 0x00, 0x00, 0x00, 0x48, 0x45, 0x44, 0x52, 0x0C, 0x00,
    0x9A, 0x99, 0xD9, 0x3F, 0x00, 0x00, 0x00, 0x00, 0x00, 0x08, 0x00, 0x00, 0x43, 0x4E, 0x41,
    0x4D, 0x01, 0x00, 0x00]

/-- `dummy::FO4`. -/
def dummyFo4 : Bytes := [
    0x54, 0x45, 0x53, 0x34, 0x19, 0x00, 0x00, 0x00, 0x00, 0x02, 0x00, 0x00, 0x00, 0x00, 0x00,
    0x00, 0x00, 0x00, 0x00, 0x00, 0x83, 0x00, 0x00, 0x00, 0x48, 0x45, 0x44, 0x52, 0x0C, 0x00,
    0x33, 0x33, 0x73, 0x3F, 0x00, 0x00, 0x00, 0x00, 0x00, 0x08, 0x00, 0x00, 0x43, 0x4E, 0x41,
    0x4D, 0x01, 0x00, 0x00]

/-- `BSA_MAX_SIZE`. -/
def bsaMaxSize : Nat := 2000 * 1024 * 1024

/-- `BA2_MAX_SIZE`. -/
def ba2MaxSize : Nat := 4000 * 1024 * 1024

/-- `BSA_SIZE_CAP`. -/
def bsaSizeCap : Nat := 2 * 1024 * 1024 * 1024

/-! ## Settings -/

/-- `Settings`. -/
structure Settings where
  game : Game
  archiveLimit : Nat
  sizeCap : Option Nat
  format : ArchiveVersion
  textureFormat : Option ArchiveVersion
  suffix : Option Text
  textureSuffix : Option Text
  extension : Text
  pluginExtensions : List Text
  dummyPlugin : Bytes
  standardFiles : List AllowedPath
  textureFiles : List AllowedPath
  incompressibleFiles : List AllowedPath
  deriving DecidableEq, Repr

namespace Settings

/-- The rules of Skyrim SE, which the other games start from. -/
def sse : Settings where
  game := .sse
  archiveLimit := bsaMaxSize
  sizeCap := some bsaSizeCap
  format := .sse
  textureFormat := some .sse
  suffix := none
  textureSuffix := some "Textures".toList
  extension := ".bsa".toList
  pluginExtensions := [".esl".toList, ".esm".toList, ".esp".toList]
  dummyPlugin := dummySse
  standardFiles := standardSse
  textureFiles := textureSse
  incompressibleFiles := Pack.incompressibleFiles

/-- `Settings::get`. -/
def get : Game → Settings
  | .sse => sse
  | .tes5 => { sse with
      game := .tes5
      format := .tes5
      textureFormat := none
      suffix := none
      textureSuffix := none
      pluginExtensions := [".esm".toList, ".esp".toList]
      dummyPlugin := dummyTes5 }
  | .fo4 => { sse with
      game := .fo4
      format := .fo4
      textureFormat := some .fo4Dx
      archiveLimit := ba2MaxSize
      sizeCap := none
      extension := ".ba2".toList
      suffix := some "Main".toList
      textureFiles := textureFo4
      standardFiles := standardFo4
      dummyPlugin := dummyFo4 }

/-- `Settings::for_profile`. -/
def forProfile (game : Game) (requestedLimit : Option UInt64) : Settings :=
  let settings := get game
  let limit := (requestedLimit.map UInt64.toNat).getD settings.archiveLimit
  { settings with
    archiveLimit := match settings.sizeCap with
      | some cap => min limit cap
      | none => limit }

/-- `Settings::version_for`. -/
def versionFor (settings : Settings) : ArchiveType → ArchiveVersion
  | .textures => settings.textureFormat.getD settings.format
  | .standard => settings.format
  | .incompressible => settings.format

/-- `Settings::keeps_textures_separate`. -/
def keepsTexturesSeparate (settings : Settings) : Bool :=
  settings.versionFor .textures ≠ settings.versionFor .standard

end Settings

/-- `file_type`. -/
def fileType (path root : Path) (settings : Settings) : FileType :=
  if settings.standardFiles.any fun rule => rule.check path root then .standard
  else if settings.textureFiles.any fun rule => rule.check path root then .texture
  else if settings.incompressibleFiles.any fun rule => rule.check path root then .incompressible
  else if settings.pluginExtensions.any fun plugin => eqIgnoreAsciiCase (extensionOf path) plugin then .plugin
  else if eqIgnoreAsciiCase (extensionOf path) settings.extension then .archive
  else .unpackable

/-! ## What every Profile's rules share -/

variable {game : Game} {requestedLimit : Option UInt64}

/-- **The limit never passes the cap**, where there is one. -/
theorem forProfile_archiveLimit_le {cap : Nat} (h : (Settings.forProfile game requestedLimit).sizeCap = some cap) :
    (Settings.forProfile game requestedLimit).archiveLimit ≤ cap := by
  cases game <;> simp only [Settings.forProfile, Settings.get, Settings.sse, reduceCtorEq, Option.some.injEq] at h ⊢
  all_goals omega

theorem forProfile_archiveLimit_lt :
    (Settings.forProfile game requestedLimit).archiveLimit < u64Size := by
  have hdefault : ∀ n, n < u64Size → (requestedLimit.map UInt64.toNat).getD n < u64Size := by
    intro n hn
    cases requestedLimit with
    | none => exact hn
    | some limit => exact limit.toNat_lt
  cases game
  · exact lt_of_le_of_lt (min_le_right _ _) (by decide)
  · exact lt_of_le_of_lt (min_le_right _ _) (by decide)
  · exact hdefault _ (by decide)

/-- **A BSA is capped, and a BA2 is not**. -/
theorem forProfile_sizeCap : (Settings.forProfile game requestedLimit).sizeCap =
    match game with
    | .fo4 => none
    | _ => some bsaSizeCap := by
  cases game <;> rfl

/-- **Textures go into a container of their own in Fallout 4 only.** -/
theorem forProfile_versionFor (type : ArchiveType) :
    (Settings.forProfile game requestedLimit).versionFor type =
      match game, type with
      | .tes5, _ => .tes5
      | .sse, _ => .sse
      | .fo4, .textures => .fo4Dx
      | .fo4, _ => .fo4 := by
  cases game <;> cases type <;> rfl

end Cao.Pack
