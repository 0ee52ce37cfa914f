import Cao.Lib.Loop
import Cao.Lib.Slice
import Cao.Plugin.Path
import Cao.Word

/-!
# The head-part reader

`headparts` of `cao_optimizers::plugins`: the models that a plugin's HDPT records name.

* `Buffer`, `Stop`: byte slices, and how a read stops short; arithmetic out of range and an index out of bounds
  are panics;
* `fieldPass`, `groupPass`, `topPass`: a pass of each level's loop, and **`FieldStep`**, **`GroupStep`**,
  **`TopStep`**: all that one can come to;
* `recordHeadparts`, `decompress`, `groupHeadparts`, `headparts`: the levels of the reader;
* `Sound`, **`sound_headparts`**: no plugin makes the reader panic.
-/

namespace Cao.Plugin

open Slice

/-! ## Reading -/

/-- A byte slice, as long as one can be. -/
abbrev Buffer := { bytes : Bytes // bytes.length < 2 ^ 63 }

/-- `PluginError`. -/
inductive PluginError
  | io
  | truncated (what : String)
  | corrupt (detail : Text)
  deriving DecidableEq, Repr

/-- How a read stops short. -/
inductive Stop
  | failed (error : PluginError)
  | panicked
  deriving DecidableEq, Repr

/-- `HEADER`. -/
def headerSize : Nat := 24

/-- `FIELD_HEADER`. -/
def fieldHeaderSize : Nat := 6

/-- `COMPRESSED`. -/
def compressed : Nat := 0x00040000

/-- `MAX_DECOMPRESSED`. -/
def maxDecompressed : Nat := 16 * 1024 * 1024

/-- A part of a slice is a slice. -/
def Buffer.part (bytes : Buffer) (start count : Nat) : Option Buffer :=
  match h : Slice.part bytes.1 start count with
  | some middle => some ⟨middle, by
      have hcount := part_length h
      have hle := part_le h
      have hbytes := bytes.2
      omega⟩
  | none => none

/-- `slice`: the bytes, or `none` when they run past the end. -/
def slice (bytes : Buffer) (start length : Nat) : Option Buffer :=
  match checkedAdd start length with
  | some _ => bytes.part start length
  | none => none

/-- `bytes[start..start + count]`. -/
def index (bytes : Buffer) (start count : Nat) : Except Stop Buffer :=
  match bytes.part start count with
  | some middle => .ok middle
  | none => .error .panicked

/-- `ok_or(PluginError::Truncated(what))`. -/
def orTruncated (what : String) : Option Buffer → Except Stop Buffer
  | some bytes => .ok bytes
  | none => .error (.failed (.truncated what))

/-- `a + b` of two sizes. -/
def add (checks : OverflowChecks) (a b : Nat) : Except Stop Nat :=
  match addU64 checks a b with
  | some sum => .ok sum
  | none => .error .panicked

/-- `a - b` of two sizes. -/
def sub (checks : OverflowChecks) (a b : Nat) : Except Stop Nat :=
  match subU64 checks a b with
  | some difference => .ok difference
  | none => .error .panicked

/-- The little-endian number of `width` bytes at `start`. -/
def numberAt (width : Nat) (bytes : Buffer) (start : Nat) : Except Stop Nat := do
  return littleEndian (← index bytes start width).1

/-- `u32_at`. -/
def u32At (bytes : Buffer) (start : Nat) : Except Stop Nat := numberAt 4 bytes start

/-- Whether the four bytes at `start` are those of a name. -/
def named (bytes : Buffer) (start : Nat) (name : String) : Except Stop Bool := do
  return (← index bytes start 4).1 == utf8 name.toList

theorem ok_bind {α β : Type} (a : α) (f : α → Except Stop β) : (Except.ok a >>= f) = f a := rfl

theorem error_bind {α β : Type} (stop : Stop) (f : α → Except Stop β) : (Except.error stop >>= f) = .error stop := rfl

variable {checks : OverflowChecks} {bytes found : Buffer} {start count width a b : Nat} {what name : String}

theorem Buffer.part_eq (h : bytes.part start count = some found) : Slice.part bytes.1 start count = some found.1 := by
  unfold Buffer.part at h
  split at h
  · next m hm =>
    cases h
    exact hm
  · cases h

theorem Buffer.part_of_le (h : start + count ≤ bytes.1.length) :
    ∃ found, bytes.part start count = some found ∧ found.1 = (bytes.1.drop start).take count := by
  have hpart : Slice.part bytes.1 start count = some ((bytes.1.drop start).take count) := if_pos h
  unfold Buffer.part
  split
  · next m hm => exact ⟨_, rfl, Option.some.inj (hm.symm.trans hpart)⟩
  · next hnone =>
    rw [hpart] at hnone
    cases hnone

theorem slice_eq_part (h : start + count ≤ bytes.1.length) : slice bytes start count = bytes.part start count := by
  have hbytes := bytes.2
  unfold slice checkedAdd u64Size
  rw [if_pos (by omega)]

theorem slice_some (h : slice bytes start count = some found) :
    start + count ≤ bytes.1.length ∧ found.1 = (bytes.1.drop start).take count := by
  unfold slice at h
  split at h
  · have hpart := Buffer.part_eq h
    have hle := part_le hpart
    obtain ⟨found', hfound', heq⟩ := Buffer.part_of_le hle
    rw [h, Option.some.injEq] at hfound'
    exact ⟨hle, hfound' ▸ heq⟩
  · cases h

theorem index_of_le (h : start + count ≤ bytes.1.length) :
    ∃ found, index bytes start count = .ok found ∧ found.1 = (bytes.1.drop start).take count := by
  obtain ⟨found, hfound, heq⟩ := Buffer.part_of_le h
  refine ⟨found, ?_, heq⟩
  unfold index
  rw [hfound]

theorem numberAt_of_le (h : start + width ≤ bytes.1.length) :
    numberAt width bytes start = .ok (littleEndian ((bytes.1.drop start).take width)) := by
  obtain ⟨found, hfound, heq⟩ := index_of_le h
  unfold numberAt
  rw [hfound, ← heq]
  rfl

theorem named_of_le (h : start + 4 ≤ bytes.1.length) :
    named bytes start name = .ok ((bytes.1.drop start).take 4 == utf8 name.toList) := by
  obtain ⟨found, hfound, heq⟩ := index_of_le h
  unfold named
  rw [hfound, ← heq]
  rfl

theorem add_of_lt (h : a + b < u64Size) : add checks a b = .ok (a + b) := by
  unfold add
  rw [addU64_of_lt h]

theorem sub_of_le (h : b ≤ a) : sub checks a b = .ok (a - b) := by
  unfold sub
  rw [subU64_of_le h]

/-- A number of four bytes or fewer. -/
theorem littleEndian_take_lt {bytes : Bytes} (h : width ≤ 4) : littleEndian (bytes.take width) < 2 ^ 32 := by
  have hlt := littleEndian_lt (bytes.take width)
  have hlength : (bytes.take width).length ≤ 4 := by
    rw [List.length_take]
    omega
  exact hlt.trans_le (Nat.pow_le_pow_right (by decide) hlength)

/-- The size a header gives at its fourth byte. -/
def sizeIn (width : Nat) (header : Bytes) : Nat := littleEndian ((header.drop 4).take width)

theorem sizeIn_lt {header : Bytes} (h : width ≤ 4) : sizeIn width header < 2 ^ 32 := littleEndian_take_lt h

/-! ## Fields -/

/-- One field of `record_headparts`. -/
def fieldPass (checks : OverflowChecks) (fields : Buffer) (state : Nat × List Text) :
    Except Stop (Pass (Nat × List Text) (List Text)) := do
  let (start, headparts) := state
  if start < fields.1.length then
    let header ← orTruncated "field header" (slice fields start fieldHeaderSize)
    let size ← numberAt 2 header 4
    let data ← orTruncated "field" (slice fields (← add checks start fieldHeaderSize) size)
    let headparts := if ← named header 0 "MODL" then headparts ++ [modlPath data.1] else headparts
    return .next (← add checks start (← add checks fieldHeaderSize size), headparts)
  else return .done headparts

/-- What a pass over one field comes to. -/
inductive FieldStep (fields : Buffer) (start : Nat) (headparts : List Text) :
    Except Stop (Pass (Nat × List Text) (List Text)) → Prop
  | done (h : fields.1.length ≤ start) : FieldStep fields start headparts (.ok (.done headparts))
  | noHeader (h : slice fields start fieldHeaderSize = none) :
    FieldStep fields start headparts (.error (.failed (.truncated "field header")))
  | noData {header : Buffer} (hheader : slice fields start fieldHeaderSize = some header)
    (h : slice fields (start + fieldHeaderSize) (sizeIn 2 header.1) = none) :
    FieldStep fields start headparts (.error (.failed (.truncated "field")))
  | next {header data : Buffer} (h : start < fields.1.length)
    (hheader : slice fields start fieldHeaderSize = some header)
    (hdata : slice fields (start + fieldHeaderSize) (sizeIn 2 header.1) = some data) :
    FieldStep fields start headparts (.ok (.next (start + (fieldHeaderSize + sizeIn 2 header.1),
      if header.1.take 4 == utf8 "MODL".toList then headparts ++ [modlPath data.1] else headparts)))

theorem fieldPass_step (checks : OverflowChecks) (fields : Buffer) (start : Nat) (headparts : List Text) :
    FieldStep fields start headparts (fieldPass checks fields (start, headparts)) := by
  have hfields := fields.2
  unfold fieldPass
  dsimp only
  split_ifs with hstart
  · cases hheader : slice fields start fieldHeaderSize with
    | none => exact .noHeader hheader
    | some header =>
      obtain ⟨hle, heq⟩ := slice_some hheader
      have hlength : header.1.length = 6 := by
        rw [heq, List.length_take, List.length_drop]
        unfold fieldHeaderSize at hle ⊢
        omega
      have hsize : sizeIn 2 header.1 < 2 ^ 32 := sizeIn_lt (by decide)
      have hnumber : numberAt 2 header 4 = .ok (sizeIn 2 header.1) := numberAt_of_le (by omega)
      have hadd : add checks start fieldHeaderSize = .ok (start + fieldHeaderSize) := add_of_lt (by
        unfold fieldHeaderSize u64Size
        omega)
      simp only [orTruncated, hnumber, hadd, ok_bind]
      cases hdata : slice fields (start + fieldHeaderSize) (sizeIn 2 header.1) with
      | none => exact .noData hheader hdata
      | some data =>
        have hname : named header 0 "MODL" = .ok (header.1.take 4 == utf8 "MODL".toList) := named_of_le (by omega)
        have hsum : add checks fieldHeaderSize (sizeIn 2 header.1) = .ok (fieldHeaderSize + sizeIn 2 header.1) :=
          add_of_lt (by
            unfold fieldHeaderSize u64Size
            omega)
        have hnext : add checks start (fieldHeaderSize + sizeIn 2 header.1) =
            .ok (start + (fieldHeaderSize + sizeIn 2 header.1)) := add_of_lt (by
          unfold fieldHeaderSize u64Size
          omega)
        simp only [hname, hsum, hnext, ok_bind]
        exact .next hstart hheader hdata
  · exact .done (Nat.le_of_not_lt hstart)

theorem fieldPass_shrinks {fields : Buffer} {s s' : Nat × List Text} (h : fieldPass checks fields s = .ok (.next s')) :
    fields.1.length - s'.1 < fields.1.length - s.1 := by
  obtain ⟨start, headparts⟩ := s
  have hstep := fieldPass_step checks fields start headparts
  rw [h] at hstep
  cases hstep with
  | next hstart =>
    unfold fieldHeaderSize
    dsimp only
    omega

/-- `record_headparts`. -/
def recordHeadparts (checks : OverflowChecks) (fields : Buffer) (headparts : List Text) : Except Stop (List Text) :=
  (Loop.fallible (fieldPass checks fields) (fun s => fields.1.length - s.1) fieldPass_shrinks).run (0, headparts)

/-! ## Records -/

/-- What a zlib decoder reads of a stream: the first bytes it inflates to, at most as many as asked for, or the
error it meets before. -/
abbrev Inflate := Bytes → Nat → Except Text Bytes

variable {inflate : Inflate}

/-- `PluginError::Corrupt`. -/
def corrupt (detail : Text) : Except Stop Buffer := .error (.failed (.corrupt detail))

theorem decompressed_lt {fields : Bytes} {size : Nat} (hsize : ¬ maxDecompressed < size) (h : fields.length = size) :
    fields.length < 2 ^ 63 := by
  unfold maxDecompressed at hsize
  omega

/-- `decompress`. -/
def decompress (inflate : Inflate) (data : Buffer) : Except Stop Buffer := do
  let size ← u32At (← orTruncated "compressed record" (slice data 0 4)) 0
  if hsize : maxDecompressed < size then
    corrupt ("a compressed HDPT record declares ".toList ++ Nat.toDigits 10 size ++ " bytes".toList)
  else
    let stream ← index data 4 (data.1.length - 4)
    match inflate stream.1 size with
    | .error error => corrupt ("a compressed HDPT record: ".toList ++ error)
    | .ok fields =>
      if h : fields.length = size then return ⟨fields, decompressed_lt hsize h⟩
      else
        corrupt ("a compressed HDPT record holds ".toList ++ Nat.toDigits 10 fields.length ++ " of its ".toList ++
          Nat.toDigits 10 size ++ " bytes".toList)

/-- One record of `group_headparts`. -/
def groupPass (checks : OverflowChecks) (inflate : Inflate) (group : Buffer) (state : Nat × List Text) :
    Except Stop (Pass (Nat × List Text) (List Text)) := do
  let (start, headparts) := state
  if start < group.1.length then
    let header ← orTruncated "record header" (slice group start headerSize)
    let size ← u32At header 4
    let data ← orTruncated "record" (slice group (← add checks start headerSize) size)
    let headparts ←
      if (← u32At header 8) &&& compressed ≠ 0 then do
        recordHeadparts checks (← decompress inflate data) headparts
      else recordHeadparts checks data headparts
    return .next (← add checks start (← add checks headerSize size), headparts)
  else return .done headparts

/-- The fields of a record. -/
def fieldsOf (inflate : Inflate) (header : Bytes) (data : Buffer) : Except Stop Buffer :=
  if littleEndian ((header.drop 8).take 4) &&& compressed ≠ 0 then decompress inflate data else .ok data

/-- What a pass over one record comes to. -/
inductive GroupStep (checks : OverflowChecks) (inflate : Inflate) (group : Buffer) (start : Nat) (headparts : List Text) :
    Except Stop (Pass (Nat × List Text) (List Text)) → Prop
  | done (h : group.1.length ≤ start) : GroupStep checks inflate group start headparts (.ok (.done headparts))
  | noHeader (h : slice group start headerSize = none) :
    GroupStep checks inflate group start headparts (.error (.failed (.truncated "record header")))
  | noData {header : Buffer} (hheader : slice group start headerSize = some header)
    (h : slice group (start + headerSize) (sizeIn 4 header.1) = none) :
    GroupStep checks inflate group start headparts (.error (.failed (.truncated "record")))
  | fails {header data : Buffer} {stop : Stop} (hheader : slice group start headerSize = some header)
    (hdata : slice group (start + headerSize) (sizeIn 4 header.1) = some data)
    (h : (fieldsOf inflate header.1 data >>= fun fields => recordHeadparts checks fields headparts) = .error stop) :
    GroupStep checks inflate group start headparts (.error stop)
  | next {header data : Buffer} {headparts' : List Text} (h : start < group.1.length)
    (hheader : slice group start headerSize = some header)
    (hdata : slice group (start + headerSize) (sizeIn 4 header.1) = some data)
    (hrecord : (fieldsOf inflate header.1 data >>= fun fields => recordHeadparts checks fields headparts) =
      .ok headparts') :
    GroupStep checks inflate group start headparts
      (.ok (.next (start + (headerSize + sizeIn 4 header.1), headparts')))

theorem groupPass_step (checks : OverflowChecks) (inflate : Inflate) (group : Buffer) (start : Nat)
    (headparts : List Text) :
    GroupStep checks inflate group start headparts (groupPass checks inflate group (start, headparts)) := by
  have hgroup := group.2
  unfold groupPass
  dsimp only
  split_ifs with hstart
  · cases hheader : slice group start headerSize with
    | none => exact .noHeader hheader
    | some header =>
      obtain ⟨hle, heq⟩ := slice_some hheader
      have hlength : header.1.length = 24 := by
        rw [heq, List.length_take, List.length_drop]
        unfold headerSize at hle ⊢
        omega
      have hsize : sizeIn 4 header.1 < 2 ^ 32 := sizeIn_lt (by decide)
      have hnumber : u32At header 4 = .ok (sizeIn 4 header.1) := numberAt_of_le (by omega)
      have hadd : add checks start headerSize = .ok (start + headerSize) := add_of_lt (by
        unfold headerSize u64Size
        omega)
      simp only [orTruncated, hnumber, hadd, ok_bind]
      cases hdata : slice group (start + headerSize) (sizeIn 4 header.1) with
      | none => exact .noData hheader hdata
      | some data =>
        have hflags : u32At header 8 = .ok (littleEndian ((header.1.drop 8).take 4)) := numberAt_of_le (by omega)
        have hsum : add checks headerSize (sizeIn 4 header.1) = .ok (headerSize + sizeIn 4 header.1) :=
          add_of_lt (by
            unfold headerSize u64Size
            omega)
        have hnext : add checks start (headerSize + sizeIn 4 header.1) =
            .ok (start + (headerSize + sizeIn 4 header.1)) := add_of_lt (by
          unfold headerSize u64Size
          omega)
        have hrecord : (if littleEndian ((header.1.drop 8).take 4) &&& compressed ≠ 0 then
              decompress inflate data >>= fun fields => recordHeadparts checks fields headparts >>= fun headparts' =>
                pure (.next (start + (headerSize + sizeIn 4 header.1), headparts'))
            else recordHeadparts checks data headparts >>= fun headparts' =>
              pure (.next (start + (headerSize + sizeIn 4 header.1), headparts'))) =
            ((fieldsOf inflate header.1 data >>= fun fields => recordHeadparts checks fields headparts) >>=
              fun headparts' => (pure (.next (start + (headerSize + sizeIn 4 header.1), headparts')) :
                Except Stop (Pass (Nat × List Text) (List Text)))) := by
          unfold fieldsOf
          split_ifs
          · cases decompress inflate data <;> rfl
          · rfl
        simp only [hflags, hsum, hnext, ok_bind, hrecord]
        cases hfields : fieldsOf inflate header.1 data >>= fun fields => recordHeadparts checks fields headparts with
        | error stop => exact .fails hheader hdata hfields
        | ok headparts' => exact .next hstart hheader hdata hfields
  · exact .done (Nat.le_of_not_lt hstart)

theorem groupPass_shrinks {group : Buffer} {s s' : Nat × List Text}
    (h : groupPass checks inflate group s = .ok (.next s')) : group.1.length - s'.1 < group.1.length - s.1 := by
  obtain ⟨start, headparts⟩ := s
  have hstep := groupPass_step checks inflate group start headparts
  rw [h] at hstep
  cases hstep with
  | next hstart =>
    unfold headerSize
    dsimp only
    omega

/-- `group_headparts`. -/
def groupHeadparts (checks : OverflowChecks) (inflate : Inflate) (group : Buffer) : Except Stop (List Text) :=
  (Loop.fallible (groupPass checks inflate group) (fun s => group.1.length - s.1) groupPass_shrinks).run (0, [])

/-! ## Groups -/

/-- A seek to `start`, and `read_exact`. -/
def readExact (plugin : Buffer) (start count : Nat) : Except Stop Buffer :=
  match slice plugin start count with
  | some bytes => .ok bytes
  | none => .error (.failed .io)

/-- `read_header`. -/
def readHeader (plugin : Buffer) (start : Nat) : Except Stop (Option Buffer) :=
  if plugin.1.length < saturatingAdd start headerSize then .ok none
  else (readExact plugin start headerSize).map some

/-- One top-level group of `headparts`. -/
def topPass (checks : OverflowChecks) (inflate : Inflate) (plugin : Buffer) (start : Nat) :
    Except Stop (Pass Nat (List Text)) := do
  match ← readHeader plugin start with
  | none => return .done []
  | some header =>
    if !(← named header 0 "GRUP") then return .done []
    else
      let size ← u32At header 4
      if !(← named header 8 "HDPT") then
        if size < headerSize then return .done []
        else return .next (← add checks start size)
      else if size < headerSize then .error (.failed (.truncated "group"))
      else if plugin.1.length < (← add checks start size) then .error (.failed (.truncated "group"))
      else
        let count ← sub checks size headerSize
        let group ← readExact plugin (← add checks start headerSize) count
        return .done (← groupHeadparts checks inflate group)

/-- What a pass over one group comes to. -/
inductive TopStep (checks : OverflowChecks) (inflate : Inflate) (plugin : Buffer) (start : Nat) :
    Except Stop (Pass Nat (List Text)) → Prop
  | ends (h : slice plugin start headerSize = none) : TopStep checks inflate plugin start (.ok (.done []))
  | foreign {header : Buffer} (hheader : slice plugin start headerSize = some header)
    (h : header.1.take 4 ≠ utf8 "GRUP".toList) : TopStep checks inflate plugin start (.ok (.done []))
  | short {header : Buffer} (hheader : slice plugin start headerSize = some header)
    (hother : (header.1.drop 8).take 4 ≠ utf8 "HDPT".toList) (h : sizeIn 4 header.1 < headerSize) :
    TopStep checks inflate plugin start (.ok (.done []))
  | next {header : Buffer} (hheader : slice plugin start headerSize = some header)
    (hgroup : header.1.take 4 = utf8 "GRUP".toList) (hother : (header.1.drop 8).take 4 ≠ utf8 "HDPT".toList)
    (h : headerSize ≤ sizeIn 4 header.1) : TopStep checks inflate plugin start (.ok (.next (start + sizeIn 4 header.1)))
  | truncated {header : Buffer} (hheader : slice plugin start headerSize = some header)
    (hgroup : header.1.take 4 = utf8 "GRUP".toList) (hlabel : (header.1.drop 8).take 4 = utf8 "HDPT".toList)
    (h : sizeIn 4 header.1 < headerSize ∨ plugin.1.length < start + sizeIn 4 header.1) :
    TopStep checks inflate plugin start (.error (.failed (.truncated "group")))
  | found {header group : Buffer} (hheader : slice plugin start headerSize = some header)
    (hgroup : header.1.take 4 = utf8 "GRUP".toList) (hlabel : (header.1.drop 8).take 4 = utf8 "HDPT".toList)
    (hsize : headerSize ≤ sizeIn 4 header.1)
    (hcontents : slice plugin (start + headerSize) (sizeIn 4 header.1 - headerSize) = some group) :
    TopStep checks inflate plugin start ((groupHeadparts checks inflate group).map .done)

theorem readHeader_eq (plugin : Buffer) (start : Nat) : readHeader plugin start = .ok (slice plugin start headerSize) := by
  have hplugin := plugin.2
  unfold readHeader readExact saturatingAdd
  cases hheader : slice plugin start headerSize with
  | none =>
    have hlt : plugin.1.length < start + headerSize := by
      by_contra hle
      obtain ⟨found, hfound, -⟩ := @Buffer.part_of_le plugin start headerSize (by omega)
      rw [slice_eq_part (by omega), hfound] at hheader
      cases hheader
    rw [if_pos (by omega)]
  | some header =>
    have hle := (slice_some hheader).1
    rw [if_neg (by omega)]
    rfl

theorem topPass_step (checks : OverflowChecks) (inflate : Inflate) (plugin : Buffer) (start : Nat) :
    TopStep checks inflate plugin start (topPass checks inflate plugin start) := by
  have hplugin := plugin.2
  unfold topPass
  rw [readHeader_eq]
  cases hheader : slice plugin start headerSize with
  | none => exact .ends hheader
  | some header =>
    obtain ⟨hle, heq⟩ := slice_some hheader
    have hlength : header.1.length = 24 := by
      rw [heq, List.length_take, List.length_drop]
      unfold headerSize at hle ⊢
      omega
    have hsize : sizeIn 4 header.1 < 2 ^ 32 := sizeIn_lt (by decide)
    have hgroup : named header 0 "GRUP" = .ok (header.1.take 4 == utf8 "GRUP".toList) := named_of_le (by omega)
    have hlabel : named header 8 "HDPT" = .ok ((header.1.drop 8).take 4 == utf8 "HDPT".toList) :=
      named_of_le (by omega)
    have hnumber : u32At header 4 = .ok (sizeIn 4 header.1) := numberAt_of_le (by omega)
    have hnext : add checks start (sizeIn 4 header.1) = .ok (start + sizeIn 4 header.1) := add_of_lt (by
      unfold u64Size
      omega)
    have hbehind : add checks start headerSize = .ok (start + headerSize) := add_of_lt (by
      unfold headerSize u64Size
      omega)
    simp only [hgroup, hlabel, hnumber, hnext, hbehind, ok_bind]
    by_cases hgrup : header.1.take 4 = utf8 "GRUP".toList
    swap
    · rw [if_pos (by simpa using hgrup)]
      exact .foreign hheader hgrup
    rw [if_neg (by simpa using hgrup)]
    by_cases hhdpt : (header.1.drop 8).take 4 = utf8 "HDPT".toList
    swap
    · rw [if_pos (by simpa using hhdpt)]
      split_ifs with hshort
      · exact .short hheader hhdpt hshort
      · exact .next hheader hgrup hhdpt (Nat.le_of_not_lt hshort)
    rw [if_neg (by simpa using hhdpt)]
    split_ifs with hshort hlong
    · exact .truncated hheader hgrup hhdpt (.inl hshort)
    · exact .truncated hheader hgrup hhdpt (.inr hlong)
    have hcount : start + headerSize + (sizeIn 4 header.1 - headerSize) ≤ plugin.1.length := by omega
    obtain ⟨group, hfound, -⟩ := Buffer.part_of_le hcount
    have hcontents : slice plugin (start + headerSize) (sizeIn 4 header.1 - headerSize) = some group := by
      rw [slice_eq_part hcount, hfound]
    rw [sub_of_le (Nat.le_of_not_lt hshort)]
    simp only [readExact, hcontents, ok_bind]
    have := @TopStep.found checks inflate _ _ _ _ hheader hgrup hhdpt (Nat.le_of_not_lt hshort) hcontents
    cases hresult : groupHeadparts checks inflate group <;> rw [hresult] at this <;> exact this

theorem topPass_shrinks {plugin : Buffer} {s s' : Nat} (h : topPass checks inflate plugin s = .ok (.next s')) :
    plugin.1.length - s' < plugin.1.length - s := by
  have hstep := topPass_step checks inflate plugin s
  rw [h] at hstep
  generalize hpass : (Except.ok (.next s') : Except Stop (Pass Nat (List Text))) = pass at hstep
  cases hstep with
  | next hheader _ _ hsize =>
    cases hpass
    have hle := (slice_some hheader).1
    unfold headerSize at hle hsize
    omega
  | @found _ group => cases hresult : groupHeadparts checks inflate group <;> rw [hresult] at hpass <;> cases hpass
  | _ => cases hpass

/-- `headparts`. -/
def headparts (checks : OverflowChecks) (inflate : Inflate) (plugin : Buffer) : Except Stop (List Text) := do
  match ← readHeader plugin 0 with
  | none => return []
  | some header =>
    if !(← named header 0 "TES4") then return []
    else
      let start ← add checks headerSize (← u32At header 4)
      (Loop.fallible (topPass checks inflate plugin) (fun start => plugin.1.length - start) topPass_shrinks).run start

/-! ## No panic -/

/-- A result that is no panic. -/
def Sound {α : Type} (result : Except Stop α) : Prop := result ≠ .error .panicked

theorem sound_recordHeadparts (checks : OverflowChecks) (fields : Buffer) (headparts : List Text) :
    Sound (recordHeadparts checks fields headparts) := by
  refine Loop.fallible_invariant (P := fun _ => True) (Q := Sound) (fun _ _ _ _ => trivial) (fun _ _ _ _ => nofun)
    (fun state stop _ hpass => ?_) trivial
  have hstep := fieldPass_step checks fields state.1 state.2
  rw [hpass] at hstep
  cases hstep <;> nofun

theorem sound_decompress (inflate : Inflate) (data : Buffer) : Sound (decompress inflate data) := by
  unfold decompress
  cases hslice : slice data 0 4 with
  | none => nofun
  | some size =>
    obtain ⟨hle, heq⟩ := slice_some hslice
    have hlength : size.1.length = 4 := by
      rw [heq, List.length_take, List.length_drop]
      omega
    have hnumber : u32At size 0 = .ok (littleEndian ((size.1.drop 0).take 4)) := numberAt_of_le (by omega)
    obtain ⟨stream, hstream, -⟩ := @index_of_le data 4 (data.1.length - 4) (by omega)
    simp only [orTruncated, hnumber, ok_bind, hstream]
    split
    · nofun
    split
    · nofun
    · split <;> nofun

theorem sound_groupHeadparts (checks : OverflowChecks) (inflate : Inflate) (group : Buffer) :
    Sound (groupHeadparts checks inflate group) := by
  refine Loop.fallible_invariant (P := fun _ => True) (Q := Sound) (fun _ _ _ _ => trivial) (fun _ _ _ _ => nofun)
    (fun state stop _ hpass => ?_) trivial
  have hstep := groupPass_step checks inflate group state.1 state.2
  rw [hpass] at hstep
  cases hstep with
  | noHeader | noData => nofun
  | @fails header data _ hheader hdata hrecord =>
    rintro ⟨rfl⟩
    cases hfields : fieldsOf inflate header.1 data with
    | error stop =>
      rw [hfields, error_bind] at hrecord
      cases hrecord
      unfold fieldsOf at hfields
      split_ifs at hfields
      exact sound_decompress inflate data hfields
    | ok fields =>
      rw [hfields, ok_bind] at hrecord
      exact sound_recordHeadparts checks fields state.2 hrecord

/-- **No plugin makes the reader panic**: no index is out of bounds and no size out of range, whatever the bytes. -/
theorem sound_headparts (checks : OverflowChecks) (inflate : Inflate) (plugin : Buffer) :
    Sound (headparts checks inflate plugin) := by
  unfold headparts
  rw [readHeader_eq, ok_bind]
  cases hheader : slice plugin 0 headerSize with
  | none => nofun
  | some header =>
    obtain ⟨hle, heq⟩ := slice_some hheader
    have hlength : header.1.length = 24 := by
      rw [heq, List.length_take, List.length_drop]
      unfold headerSize at hle ⊢
      omega
    have hname : named header 0 "TES4" = .ok (header.1.take 4 == utf8 "TES4".toList) := named_of_le (by omega)
    have hnumber : u32At header 4 = .ok (sizeIn 4 header.1) := numberAt_of_le (by omega)
    have hstart : add checks headerSize (sizeIn 4 header.1) = .ok (headerSize + sizeIn 4 header.1) :=
      add_of_lt (by
        have hsize : sizeIn 4 header.1 < 2 ^ 32 := sizeIn_lt (by decide)
        unfold headerSize u64Size
        omega)
    simp only [hname, hnumber, hstart, ok_bind]
    split
    · nofun
    refine Loop.fallible_invariant (P := fun _ => True) (Q := Sound) (fun _ _ _ _ => trivial) (fun _ _ _ _ => nofun)
      (fun start stop _ hpass => ?_) trivial
    have hstep := topPass_step checks inflate plugin start
    generalize topPass checks inflate plugin start = pass at hstep hpass
    cases hstep with
    | @found _ group =>
      rintro ⟨rfl⟩
      refine sound_groupHeadparts checks inflate group ?_
      cases hresult : groupHeadparts checks inflate group with
      | ok _ => rw [hresult] at hpass; cases hpass
      | error stop =>
        rw [hresult] at hpass
        cases hpass
        rfl
    | truncated =>
      cases hpass
      nofun
    | _ => cases hpass

end Cao.Plugin
