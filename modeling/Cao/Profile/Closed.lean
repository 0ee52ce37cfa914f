import Cao.Profile.Integers
import Cao.Pack.Settings

/-!
# Closed sets

The values of `profile.ini` that are accepted from a fixed list only (`closed.rs`, `mesh.rs`, `texture.rs`, `settings.rs`).

* `ClosedSet`: the members of a set and their numbers, which find them; `member`, `read`, `readList`: a key's member, or members;
* `MeshFileVersion`, `TextureFormat`, `UnwantedFormat` and the others: the sets of a Profile;
* **`read_of_number`**, **`readList_of_numbers`**: what a member's number is read as.
-/

namespace Cao.Profile

open Ini

/-! ## Errors -/

/-- `ProfileError`, as reading `profile.ini` fails with it. -/
inductive ProfileError
  | unsupportedBsaGame (value : Text)
  | unsupportedValue (error : UnsupportedValue)

/-- `ProfileError::unsupported_value`. -/
def ProfileError.rejected (key : Text) (value : Value) (accepted : String) : ProfileError :=
  .unsupportedValue ⟨"profile.ini", key, match value with | .invalid => none | value => some (valueText value), accepted⟩

/-! ## Sets -/

/-- `ClosedSet`: the accepted members and their 32-bit numbers, by which each is found. -/
class ClosedSet (α : Type) where
  all : List α
  number : α → Nat
  describe : α → String
  found : ∀ member, (all.find? fun m => number m == number member) = some member
  number_lt : ∀ member, number member < 0x100000000

namespace ClosedSet

variable {α : Type} [ClosedSet α] {tables : CaseTables}

/-- `from_number`. -/
def fromNumber (n : Nat) : Option α := all.find? fun member => number member == n

variable (α) in
/-- `accepted`. -/
def accepted : String := "one of " ++ ", ".intercalate ((all : List α).map describe)

/-- `first_occurrences`. -/
def firstOccurrences [DecidableEq α] (members : List α) : List α :=
  members.foldl (fun kept member => if member ∈ kept then kept else kept ++ [member]) []

/-- `member`. -/
def member (value : Value) : Option α :=
  if 0 ≤ value.toI64 ∧ value.toI64 < 0x100000000 then fromNumber value.toI64.toNat else none

/-- `read`. -/
def read (ini : IniFile tables) (key : Text) : Except ProfileError α :=
  match member (ini.value key) with
  | some member => .ok member
  | none => .error (.rejected key (ini.value key) (accepted α))

/-- What `read_list` makes of an entry. -/
def readEntry (key : Text) (entry : Value) : Except ProfileError α :=
  match member entry with
  | some member => .ok member
  | none => .error (.rejected key entry ("each entry to be " ++ accepted α))

/-- `read_list`. -/
def readList [DecidableEq α] (ini : IniFile tables) (key : Text) : Except ProfileError (List α) :=
  match (ini.value key).listEntries with
  | none => .error (.rejected key (ini.value key) ("a list whose entries are each " ++ accepted α))
  | some entries => (entries.mapM (readEntry key)).map firstOccurrences

/-! ## Numbers -/

/-- **A number finds its member.** -/
theorem member_of_toI64 {value : Value} {m : α} (h : value.toI64 = number m) : member value = some m := by
  have hlt := number_lt m
  unfold member
  rw [h, if_pos ⟨by omega, by exact_mod_cast hlt⟩]
  exact found m

theorem read_of_number {ini : IniFile tables} {key : Text} {m : α} (h : (ini.value key).toI64 = number m) :
    read ini key = .ok m := by
  unfold read
  rw [member_of_toI64 h]

omit [ClosedSet α] in
/-- Members that are listed once are all kept. -/
theorem firstOccurrences_of_nodup [DecidableEq α] {members : List α} (h : members.Nodup) : firstOccurrences members = members := by
  unfold firstOccurrences
  induction members using List.reverseRecOn with
  | nil => rfl
  | append_singleton members m ih =>
    rw [List.nodup_append] at h
    have hnew : m ∉ members := fun hm => h.2.2 m hm m (List.mem_singleton_self m) rfl
    rw [List.foldl_append, ih h.1, List.foldl_cons, List.foldl_nil, if_neg hnew]

/-- **Entries that are read as numbers are their members.** -/
theorem readList_of_numbers [DecidableEq α] {ini : IniFile tables} {key : Text} {members : List α} {entries : List Value}
    (hentries : (ini.value key).listEntries = some entries)
    (hnumbers : List.Forall₂ (fun (entry : Value) (m : α) => entry.toI64 = (number m : Int)) entries members) (hnodup : members.Nodup) :
    readList ini key = .ok members := by
  have hmembers : entries.mapM (readEntry key) = .ok members := by
    clear hentries hnodup
    induction hnumbers with
    | nil => rfl
    | @cons entry m entries members h _ ih =>
      have hentry : readEntry key entry = .ok m := by
        unfold readEntry
        rw [member_of_toI64 h]
      rw [List.mapM_cons, ih, hentry]
      rfl
  unfold readList
  rw [hentries]
  dsimp only
  rw [hmembers]
  exact congrArg Except.ok (firstOccurrences_of_nodup hnodup)

end ClosedSet

/-! ## The sets of a Profile -/

/-- The numbers of the games. -/
instance : ClosedSet Pack.Game where
  all := [.tes5, .sse, .fo4]
  number
    | .tes5 => 3
    | .sse => 4
    | .fo4 => 5
  describe game := toString (match game with | .tes5 => 3 | .sse => 4 | .fo4 => 5 : Nat)
  found member := by cases member <;> rfl
  number_lt member := by cases member <;> decide

/-- `MeshFileVersion`. -/
inductive MeshFileVersion
  | v20_0_0_5 | v20_2_0_7
  deriving DecidableEq, Repr

/-- `MeshFileVersion::dotted`. -/
def MeshFileVersion.dotted : MeshFileVersion → String
  | .v20_0_0_5 => "20.0.0.5"
  | .v20_2_0_7 => "20.2.0.7"

/-- Its number. -/
def MeshFileVersion.number : MeshFileVersion → Nat
  | .v20_0_0_5 => 0x14000005
  | .v20_2_0_7 => 0x14020007

instance : ClosedSet MeshFileVersion where
  all := [.v20_0_0_5, .v20_2_0_7]
  number := MeshFileVersion.number
  describe version := toString version.number ++ " (" ++ version.dotted ++ ")"
  found member := by cases member <;> rfl
  number_lt member := by cases member <;> decide

/-- `MeshUserVersion`. -/
inductive MeshUserVersion
  | v11 | v12
  deriving DecidableEq, Repr

/-- Its number. -/
def MeshUserVersion.number : MeshUserVersion → Nat
  | .v11 => 11
  | .v12 => 12

instance : ClosedSet MeshUserVersion where
  all := [.v11, .v12]
  number := MeshUserVersion.number
  describe version := toString version.number
  found member := by cases member <;> rfl
  number_lt member := by cases member <;> decide

/-- `MeshStreamVersion`. -/
inductive MeshStreamVersion
  | v82 | v83 | v100 | v130
  deriving DecidableEq, Repr

/-- Its number. -/
def MeshStreamVersion.number : MeshStreamVersion → Nat
  | .v82 => 82
  | .v83 => 83
  | .v100 => 100
  | .v130 => 130

instance : ClosedSet MeshStreamVersion where
  all := [.v82, .v83, .v100, .v130]
  number := MeshStreamVersion.number
  describe version := toString version.number
  found member := by cases member <;> rfl
  number_lt member := by cases member <;> decide

/-- `TextureFormat`. -/
inductive TextureFormat
  | bc7Unorm | bc5Unorm | bc3Unorm | bc1Unorm | r8G8B8A8Unorm
  deriving DecidableEq, Repr

/-- Its number and its name. -/
def TextureFormat.row : TextureFormat → Nat × String
  | .bc7Unorm => (98, "BC7_UNORM")
  | .bc5Unorm => (83, "BC5_UNORM")
  | .bc3Unorm => (77, "BC3_UNORM")
  | .bc1Unorm => (71, "BC1_UNORM")
  | .r8G8B8A8Unorm => (28, "R8G8B8A8_UNORM")

instance : ClosedSet TextureFormat where
  all := [.bc7Unorm, .bc5Unorm, .bc3Unorm, .bc1Unorm, .r8G8B8A8Unorm]
  number format := format.row.1
  describe format := toString format.row.1 ++ " (" ++ format.row.2 ++ ")"
  found member := by cases member <;> rfl
  number_lt member := by cases member <;> decide

/-- `UnwantedFormat`. -/
inductive UnwantedFormat
  | r32G32B32A32Float | r32G32B32A32Uint | r32G32B32A32Sint | r32G32B32Float | r32G32B32Uint | r32G32B32Sint
  | r16G16B16A16Float | r16G16B16A16Unorm | r16G16B16A16Uint | r16G16B16A16Snorm | r16G16B16A16Sint | r32G32Float
  | r32G32Uint | r32G32Sint | r10G10B10A2Unorm | r10G10B10A2Uint | r11G11B10Float | r8G8B8A8Unorm | r8G8B8A8UnormSrgb
  | r8G8B8A8Uint | r8G8B8A8Snorm | r8G8B8A8Sint | r16G16Float | r16G16Unorm | r16G16Uint | r16G16Snorm | r16G16Sint
  | r32Float | r32Uint | r32Sint | r8G8Unorm | r8G8Uint | r8G8Snorm | r8G8Sint | r16Float | r16Unorm | r16Uint
  | r16Snorm | r16Sint | r8Unorm | r8Uint | r8Snorm | r8Sint | a8Unorm | r9G9B9E5Sharedexp | r8G8B8G8Unorm
  | g8R8G8B8Unorm | bc1Unorm | bc1UnormSrgb | bc2Unorm | bc2UnormSrgb | bc3Unorm | bc3UnormSrgb | bc4Unorm | bc4Snorm
  | bc5Unorm | bc5Snorm | b5G6R5Unorm | b5G5R5A1Unorm | b8G8R8A8Unorm | b8G8R8X8Unorm | r10G10B10XrBiasA2Unorm
  | b8G8R8A8UnormSrgb | b8G8R8X8UnormSrgb | bc6hUf16 | bc6hSf16 | bc7Unorm | bc7UnormSrgb | ayuv | y410 | y416 | yuy2
  | y210 | y216 | b4G4R4A4Unorm
  deriving DecidableEq, Repr

/-- Its number and its name. -/
def UnwantedFormat.row : UnwantedFormat → Nat × String
  | .r32G32B32A32Float => (2, "R32G32B32A32_FLOAT")
  | .r32G32B32A32Uint => (3, "R32G32B32A32_UINT")
  | .r32G32B32A32Sint => (4, "R32G32B32A32_SINT")
  | .r32G32B32Float => (6, "R32G32B32_FLOAT")
  | .r32G32B32Uint => (7, "R32G32B32_UINT")
  | .r32G32B32Sint => (8, "R32G32B32_SINT")
  | .r16G16B16A16Float => (10, "R16G16B16A16_FLOAT")
  | .r16G16B16A16Unorm => (11, "R16G16B16A16_UNORM")
  | .r16G16B16A16Uint => (12, "R16G16B16A16_UINT")
  | .r16G16B16A16Snorm => (13, "R16G16B16A16_SNORM")
  | .r16G16B16A16Sint => (14, "R16G16B16A16_SINT")
  | .r32G32Float => (16, "R32G32_FLOAT")
  | .r32G32Uint => (17, "R32G32_UINT")
  | .r32G32Sint => (18, "R32G32_SINT")
  | .r10G10B10A2Unorm => (24, "R10G10B10A2_UNORM")
  | .r10G10B10A2Uint => (25, "R10G10B10A2_UINT")
  | .r11G11B10Float => (26, "R11G11B10_FLOAT")
  | .r8G8B8A8Unorm => (28, "R8G8B8A8_UNORM")
  | .r8G8B8A8UnormSrgb => (29, "R8G8B8A8_UNORM_SRGB")
  | .r8G8B8A8Uint => (30, "R8G8B8A8_UINT")
  | .r8G8B8A8Snorm => (31, "R8G8B8A8_SNORM")
  | .r8G8B8A8Sint => (32, "R8G8B8A8_SINT")
  | .r16G16Float => (34, "R16G16_FLOAT")
  | .r16G16Unorm => (35, "R16G16_UNORM")
  | .r16G16Uint => (36, "R16G16_UINT")
  | .r16G16Snorm => (37, "R16G16_SNORM")
  | .r16G16Sint => (38, "R16G16_SINT")
  | .r32Float => (41, "R32_FLOAT")
  | .r32Uint => (42, "R32_UINT")
  | .r32Sint => (43, "R32_SINT")
  | .r8G8Unorm => (49, "R8G8_UNORM")
  | .r8G8Uint => (50, "R8G8_UINT")
  | .r8G8Snorm => (51, "R8G8_SNORM")
  | .r8G8Sint => (52, "R8G8_SINT")
  | .r16Float => (54, "R16_FLOAT")
  | .r16Unorm => (56, "R16_UNORM")
  | .r16Uint => (57, "R16_UINT")
  | .r16Snorm => (58, "R16_SNORM")
  | .r16Sint => (59, "R16_SINT")
  | .r8Unorm => (61, "R8_UNORM")
  | .r8Uint => (62, "R8_UINT")
  | .r8Snorm => (63, "R8_SNORM")
  | .r8Sint => (64, "R8_SINT")
  | .a8Unorm => (65, "A8_UNORM")
  | .r9G9B9E5Sharedexp => (67, "R9G9B9E5_SHAREDEXP")
  | .r8G8B8G8Unorm => (68, "R8G8_B8G8_UNORM")
  | .g8R8G8B8Unorm => (69, "G8R8_G8B8_UNORM")
  | .bc1Unorm => (71, "BC1_UNORM")
  | .bc1UnormSrgb => (72, "BC1_UNORM_SRGB")
  | .bc2Unorm => (74, "BC2_UNORM")
  | .bc2UnormSrgb => (75, "BC2_UNORM_SRGB")
  | .bc3Unorm => (77, "BC3_UNORM")
  | .bc3UnormSrgb => (78, "BC3_UNORM_SRGB")
  | .bc4Unorm => (80, "BC4_UNORM")
  | .bc4Snorm => (81, "BC4_SNORM")
  | .bc5Unorm => (83, "BC5_UNORM")
  | .bc5Snorm => (84, "BC5_SNORM")
  | .b5G6R5Unorm => (85, "B5G6R5_UNORM")
  | .b5G5R5A1Unorm => (86, "B5G5R5A1_UNORM")
  | .b8G8R8A8Unorm => (87, "B8G8R8A8_UNORM")
  | .b8G8R8X8Unorm => (88, "B8G8R8X8_UNORM")
  | .r10G10B10XrBiasA2Unorm => (89, "R10G10B10_XR_BIAS_A2_UNORM")
  | .b8G8R8A8UnormSrgb => (91, "B8G8R8A8_UNORM_SRGB")
  | .b8G8R8X8UnormSrgb => (93, "B8G8R8X8_UNORM_SRGB")
  | .bc6hUf16 => (95, "BC6H_UF16")
  | .bc6hSf16 => (96, "BC6H_SF16")
  | .bc7Unorm => (98, "BC7_UNORM")
  | .bc7UnormSrgb => (99, "BC7_UNORM_SRGB")
  | .ayuv => (100, "AYUV")
  | .y410 => (101, "Y410")
  | .y416 => (102, "Y416")
  | .yuy2 => (107, "YUY2")
  | .y210 => (108, "Y210")
  | .y216 => (109, "Y216")
  | .b4G4R4A4Unorm => (115, "B4G4R4A4_UNORM")

/-- `UnwantedFormat::ALL`. -/
def UnwantedFormat.all : List UnwantedFormat :=
  [.r32G32B32A32Float, .r32G32B32A32Uint, .r32G32B32A32Sint, .r32G32B32Float, .r32G32B32Uint, .r32G32B32Sint,
    .r16G16B16A16Float, .r16G16B16A16Unorm, .r16G16B16A16Uint, .r16G16B16A16Snorm, .r16G16B16A16Sint, .r32G32Float,
    .r32G32Uint, .r32G32Sint, .r10G10B10A2Unorm, .r10G10B10A2Uint, .r11G11B10Float, .r8G8B8A8Unorm,
    .r8G8B8A8UnormSrgb, .r8G8B8A8Uint, .r8G8B8A8Snorm, .r8G8B8A8Sint, .r16G16Float, .r16G16Unorm, .r16G16Uint,
    .r16G16Snorm, .r16G16Sint, .r32Float, .r32Uint, .r32Sint, .r8G8Unorm, .r8G8Uint, .r8G8Snorm, .r8G8Sint, .r16Float,
    .r16Unorm, .r16Uint, .r16Snorm, .r16Sint, .r8Unorm, .r8Uint, .r8Snorm, .r8Sint, .a8Unorm, .r9G9B9E5Sharedexp,
    .r8G8B8G8Unorm, .g8R8G8B8Unorm, .bc1Unorm, .bc1UnormSrgb, .bc2Unorm, .bc2UnormSrgb, .bc3Unorm, .bc3UnormSrgb,
    .bc4Unorm, .bc4Snorm, .bc5Unorm, .bc5Snorm, .b5G6R5Unorm, .b5G5R5A1Unorm, .b8G8R8A8Unorm, .b8G8R8X8Unorm,
    .r10G10B10XrBiasA2Unorm, .b8G8R8A8UnormSrgb, .b8G8R8X8UnormSrgb, .bc6hUf16, .bc6hSf16, .bc7Unorm, .bc7UnormSrgb,
    .ayuv, .y410, .y416, .yuy2, .y210, .y216, .b4G4R4A4Unorm]

instance : ClosedSet UnwantedFormat where
  all := UnwantedFormat.all
  number format := format.row.1
  describe format := toString format.row.1 ++ " (" ++ format.row.2 ++ ")"
  found member := by cases member <;> rfl
  number_lt member := by cases member <;> decide

theorem UnwantedFormat.row_le (format : UnwantedFormat) : format.row.1 ≤ 115 := by
  cases format <;> decide

end Cao.Profile
