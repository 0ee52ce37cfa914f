import Cao.Text
import Mathlib.Data.List.Infix

/-!
# The ownership manifest: records, names and the writer

The text half of `run/staging.rs`: what a manifest record is, which names the protocol admits, and
the v3 snapshot `publish_manifest` writes.

* `Artifact`, `artifactPath`: one record and the entry it names, relative to the Mod Root;
* `validRunId`, `isLowercaseNonce`, `safeRelativeName`, `safeSiblingAssetName`: the name grammar;
* `quoted`, `manifestText`, `publishedBytes`: the snapshot and the writer's format limits.
-/

namespace Cao

/-- A path below a Mod Root, as its component names. -/
abbrev Path := List OsStr

instance : LawfulBEq Path := inferInstance

/-- `STAGING_DIRECTORY`. -/
def stagingDirectory : Text := ".cao-staging".toList

/-- `OWNER_LOCK`. -/
def ownerLock : Text := "owner.lock".toList

/-- `MANIFEST`. -/
def manifestName : Text := "ownership.manifest".toList

/-- `MANIFEST_SCRATCH`. -/
def manifestScratch : Text := "ownership.manifest.next".toList

/-- `CONFLICT_CONTROL`. -/
def conflictControl : Text := "ownership.conflict".toList

/-- `MANIFEST_BYTE_LIMIT`. -/
@[irreducible] def manifestByteLimit : Nat := 8 * 1024 * 1024

/-- `REGISTRATION_LIMIT`. -/
@[irreducible] def registrationLimit : Nat := 100000

/-- One manifest record. `relative` is `/`-separated text, relative to the reserved directory, or to
the Mod Root for an `S` record. -/
structure Artifact where
  relative : Text
  directory : Bool
  /-- An `S` record: a generated Asset sibling. -/
  rootRelative : Bool
  deriving DecidableEq, Repr

/-- The components a `/`-separated text names. -/
def components (text : Text) : Path :=
  ((text.splitOn '/').filter fun part => part ≠ []).map OsStr.ofText

/-- `artifact_path`: the entry a record names, below the Mod Root. -/
def artifactPath (artifact : Artifact) : Path :=
  (if artifact.rootRelative then [] else [OsStr.ofText stagingDirectory]) ++
    components artifact.relative

/-- `has_staging_component`. -/
def hasStagingComponent (path : Path) : Bool := path.any isStagingName

/-! ## The name grammar -/

/-- A byte of a Run ID: an ASCII letter, a digit or a hyphen. -/
def isRunIdByte (b : UInt8) : Bool :=
  (48 ≤ b && b ≤ 57) || (65 ≤ b && b ≤ 90) || (97 ≤ b && b ≤ 122) || b == 45

/-- `valid_run_id`: 1 to 128 ASCII letters, digits or hyphens, as text. -/
def validRunId (bytes : Bytes) : Option Text :=
  if 1 ≤ bytes.length ∧ bytes.length ≤ 128 ∧ bytes.all isRunIdByte then fromUtf8 bytes else none

/-- `is_lowercase_nonce`: 32 lowercase hexadecimal characters. -/
def isLowercaseNonce (text : Bytes) : Bool :=
  text.length == 32 && text.all fun b => (48 ≤ b && b ≤ 57) || (97 ≤ b && b ≤ 102)

/-- `staging_prefix`: the sibling namespace of each canonical Asset output extension. -/
def stagingPrefix (extension : Text) : Option Text :=
  if extension = ".dds".toList then some ".cao-staging-texture-".toList
  else if extension = ".hkx".toList then some ".cao-staging-animation-".toList
  else if extension = ".nif".toList ∨ extension = ".btr".toList ∨ extension = ".bto".toList then
    some ".cao-staging-mesh-".toList
  else none

/-- The characters no portable Windows name holds. -/
def reservedCharacters : Text := "<>:\"\\|?*".toList

/-- One component of a safe name. -/
def safePart (part : Text) : Bool :=
  part ≠ [] && part ≠ ".".toList && part ≠ "..".toList &&
    !(part.getLast? == some '.' || part.getLast? == some ' ') &&
    !(part.any fun c => c ∈ reservedCharacters) && !(part.any fun c => c.val < 32)

/-- `safe_relative_name`: every component is a portable Windows name. -/
def safeRelativeName (name : Text) : Bool :=
  if name = [] ∨ name.head? = some '/' ∨ name.getLast? = some '/' ∨ ['/', '/'] <:+: name then false
  else (name.splitOn '/').all safePart

/-- `str::strip_prefix`. -/
def stripPrefix (pre s : Text) : Option Text :=
  if pre.isPrefixOf s then some (s.drop pre.length) else none

/-- `str::strip_suffix`. -/
def stripSuffix (suf s : Text) : Option Text :=
  if suf.isSuffixOf s then some (s.take (s.length - suf.length)) else none

/-- The part of a relative name after its last `/`. -/
def fileName (name : Text) : Text := ((rsplitOnce '/' name).map Prod.snd).getD name

/-- The part of a relative name before its last `/`. -/
def parentName (name : Text) : Text := ((rsplitOnce '/' name).map Prod.fst).getD []

/-- MSVC `path::extension`: from the last dot, unless the name starts there. -/
def extensionOf (filename : Text) : Text :=
  match rsplitOnce '.' filename with
  | none => []
  | some (stem, rest) => if stem = [] then [] else '.' :: rest

/-- `safe_sibling_asset_name`: the Asset namespace, the Run ID, a nonce and that namespace's
extension. -/
def safeSiblingAssetName (name runId : Text) : Bool :=
  let filename := fileName name
  let extension := extensionOf filename
  match stagingPrefix extension with
  | none => false
  | some assetPrefix =>
    ((stripPrefix (assetPrefix ++ runId ++ ['-']) filename).bind (stripSuffix extension)).any
      fun nonce => isLowercaseNonce (utf8 nonce)

/-! ## The writer -/

/-- A character inside `quoted`. -/
def escapeChar (c : Char) : Text := if c = '"' ∨ c = '\\' then ['\\', c] else [c]

/-- `quoted`: `"` and `\` escaped with `\`, wrapped in double quotes. -/
def quoted (text : Text) : Text := '"' :: (text.flatMap escapeChar ++ ['"'])

/-- Decimal digits, as `{}` formats an unsigned number. -/
def decimal (n : Nat) : Text := Nat.toDigits 10 n

/-- The record letter: `S`, `D` or `F`. -/
def recordKind (artifact : Artifact) : Char :=
  if artifact.rootRelative then 'S' else if artifact.directory then 'D' else 'F'

/-- One record line. -/
def recordText (artifact : Artifact) : Text :=
  recordKind artifact :: ' ' :: (quoted artifact.relative ++ ['\n'])

/-- The complete v3 snapshot `publish_manifest` formats. -/
def manifestText (root runId child : Text) (artifacts : List Artifact) : Text :=
  "CAO-STAGING 3\n".toList ++ quoted root ++ ['\n'] ++ quoted runId ++ [' '] ++ quoted child ++
    ['\n'] ++ decimal artifacts.length ++ ['\n'] ++ artifacts.flatMap recordText

/-- The snapshot's bytes. -/
def manifestBytes (root runId child : Text) (artifacts : List Artifact) : Bytes :=
  utf8 (manifestText root runId child artifacts)

/-- The bytes `publish_manifest` writes, or `none` when the snapshot exceeds the format limit. -/
def publishedBytes (root runId child : Text) (artifacts : List Artifact) : Option Bytes :=
  let bytes := manifestBytes root runId child artifacts
  if bytes.length > manifestByteLimit ∨ artifacts.length > registrationLimit then none
  else some bytes

/-! ## Lemmas -/

theorem stripPrefix_eq_some {pre s r : Text} : stripPrefix pre s = some r ↔ s = pre ++ r := by
  unfold stripPrefix
  constructor
  · intro h
    split_ifs at h with hp
    obtain ⟨t, rfl⟩ := List.isPrefixOf_iff_prefix.mp hp
    simpa using h
  · rintro rfl
    simp

theorem stripSuffix_eq_some {suf s r : Text} : stripSuffix suf s = some r ↔ s = r ++ suf := by
  unfold stripSuffix
  constructor
  · intro h
    split_ifs at h with hp
    obtain ⟨t, rfl⟩ := List.isSuffixOf_iff_suffix.mp hp
    simpa using h
  · rintro rfl
    simp

theorem stagingPrefix_eq_some {extension pre : Text} (h : stagingPrefix extension = some pre) :
    (extension, pre) ∈ [(".dds".toList, ".cao-staging-texture-".toList),
      (".hkx".toList, ".cao-staging-animation-".toList), (".nif".toList, ".cao-staging-mesh-".toList),
      (".btr".toList, ".cao-staging-mesh-".toList), (".bto".toList, ".cao-staging-mesh-".toList)] := by
  unfold stagingPrefix at h
  split_ifs at h with h1 h2 h3
  · cases h; simp [h1]
  · cases h; simp [h2]
  · cases h
    rcases h3 with h3 | h3 | h3 <;> simp [h3]

/-- A safe name has no empty component. -/
theorem safePart_of_mem_split {name part : Text} (h : safeRelativeName name = true)
    (hp : part ∈ name.splitOn '/') : safePart part = true := by
  unfold safeRelativeName at h
  split_ifs at h
  exact List.all_eq_true.mp h part hp

theorem safePart_ne_nil {part : Text} (h : safePart part = true) : part ≠ [] := by
  rintro rfl
  simp [safePart] at h

/-- **A safe name's components are its `/`-separated parts.** -/
theorem components_of_safe {name : Text} (h : safeRelativeName name = true) :
    components name = (name.splitOn '/').map OsStr.ofText := by
  unfold components
  rw [List.filter_eq_self.mpr fun part hp => ?_]
  exact decide_eq_true (safePart_ne_nil (safePart_of_mem_split h hp))

theorem fileName_append {parent file : Text} (h : '/' ∉ file) :
    fileName (parent ++ '/' :: file) = file := by
  unfold fileName
  rw [rsplitOnce_eq_some.mpr ⟨rfl, h⟩]
  rfl

theorem fileName_of_notMem {file : Text} (h : '/' ∉ file) : fileName file = file := by
  unfold fileName
  rw [rsplitOnce_eq_none.mpr h]
  rfl

theorem parentName_append {parent file : Text} (h : '/' ∉ file) :
    parentName (parent ++ '/' :: file) = parent := by
  unfold parentName
  rw [rsplitOnce_eq_some.mpr ⟨rfl, h⟩]
  rfl

end Cao
