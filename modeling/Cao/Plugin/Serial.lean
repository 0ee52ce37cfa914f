import Cao.Plugin.Headparts

/-!
# Serialized plugins

A plugin as it is written, and what the reader makes of it.

* `Field`, `Record`, `Group`, `PluginFile`: the levels of a plugin, with the sizes that fit their headers;
* `fieldPass_bytes`, `groupPass_bytes`, `topPass_group`, `topPass_headparts`: a pass over what was written;
* `recordHeadparts_bytes`, `groupHeadparts_bytes`, **`headparts_before`**: the loops;
* **`headparts_exact`**: the reader is total, reads exactly the MODL paths, and refuses a truncated group.
-/

namespace Cao.Plugin

open Slice

/-! ## What is written -/

/-- A field of at most 65535 bytes. -/
structure Field where
  signature : Bytes
  data : Bytes
  four : signature.length = 4
  fits : data.length < 2 ^ 16

/-- A field as it is written. -/
def Field.bytes (field : Field) : Bytes :=
  field.signature ++ (littleEndianBytes 2 field.data.length ++ field.data)

/-- The models a field names. -/
def Field.paths (field : Field) : List Text :=
  if field.signature == utf8 "MODL".toList then [modlPath field.data] else []

/-- What a record holds: its fields, or their size and their zlib stream. -/
def recordData (deflate : Bytes → Bytes) (flags : Nat) (fields : Bytes) : Bytes :=
  if flags &&& compressed ≠ 0 then littleEndianBytes 4 fields.length ++ deflate fields else fields

/-- A record, of at most 16 MiB where it is compressed. -/
structure Record (deflate : Bytes → Bytes) where
  signature : Bytes
  flags : Nat
  rest : Bytes
  fields : List Field
  four : signature.length = 4
  flagged : flags < 2 ^ 32
  twelve : rest.length = 12
  small : flags &&& compressed ≠ 0 → (fields.flatMap Field.bytes).length ≤ maxDecompressed
  fits : (recordData deflate flags (fields.flatMap Field.bytes)).length < 2 ^ 32

variable {deflate : Bytes → Bytes}

/-- The data of a record. -/
def Record.data (record : Record deflate) : Bytes :=
  recordData deflate record.flags (record.fields.flatMap Field.bytes)

/-- The header of a record. -/
def Record.header (record : Record deflate) : Bytes :=
  record.signature ++ (littleEndianBytes 4 record.data.length ++ (littleEndianBytes 4 record.flags ++ record.rest))

/-- A record as it is written. -/
def Record.bytes (record : Record deflate) : Bytes := record.header ++ record.data

/-- The header of a group. -/
def groupHeader (size : Nat) (label rest : Bytes) : Bytes :=
  utf8 "GRUP".toList ++ (littleEndianBytes 4 size ++ (label ++ rest))

/-- A group of other records. -/
structure Group where
  label : Bytes
  rest : Bytes
  contents : Bytes
  four : label.length = 4
  other : label ≠ utf8 "HDPT".toList
  twelve : rest.length = 12
  fits : headerSize + contents.length < 2 ^ 32

/-- A group as it is written: its size counts its header. -/
def Group.bytes (group : Group) : Bytes :=
  groupHeader (headerSize + group.contents.length) group.label group.rest ++ group.contents

/-- A plugin: its TES4 record, groups of other records, the HDPT group, and whatever follows. -/
structure PluginFile (deflate : Bytes → Bytes) where
  rest : Bytes
  header : Bytes
  groups : List Group
  headpartsRest : Bytes
  records : List (Record deflate)
  after : Bytes
  sixteen : rest.length = 16
  twelve : headpartsRest.length = 12
  headerFits : header.length < 2 ^ 32
  fits : headerSize + (records.flatMap Record.bytes).length < 2 ^ 32

namespace PluginFile

variable (plugin : PluginFile deflate)

/-- What stands before the HDPT group. -/
def before : Bytes :=
  utf8 "TES4".toList ++ (littleEndianBytes 4 plugin.header.length ++ plugin.rest) ++ plugin.header ++
    plugin.groups.flatMap Group.bytes

/-- The declared size of the HDPT group. -/
def size : Nat := headerSize + (plugin.records.flatMap Record.bytes).length

/-- The header of the HDPT group. -/
def headpartsHeader : Bytes := groupHeader plugin.size (utf8 "HDPT".toList) plugin.headpartsRest

/-- The plugin as it is written. -/
def bytes : Bytes :=
  plugin.before ++ (plugin.headpartsHeader ++ (plugin.records.flatMap Record.bytes ++ plugin.after))

/-- The models that the HDPT records name, in file order. -/
def paths : List Text := plugin.records.flatMap fun record => record.fields.flatMap Field.paths

end PluginFile

/-! ## Parts of what is written -/

variable {checks : OverflowChecks} {inflate : Inflate} {bytes : Buffer}

theorem slice_middle (start count : Nat) {before middle after : Bytes} (h : bytes.1 = before ++ (middle ++ after))
    (hstart : start = before.length) (hcount : count = middle.length) :
    ∃ found, slice bytes start count = some found ∧ found.1 = middle := by
  subst hstart hcount
  have hle : before.length + middle.length ≤ bytes.1.length := by
    rw [h, List.length_append, List.length_append]
    omega
  obtain ⟨found, hfound, heq⟩ := Buffer.part_of_le hle
  refine ⟨found, by rw [slice_eq_part hle, hfound], ?_⟩
  rw [heq, h, List.drop_left, List.take_left]

theorem sizeIn_header {width n : Nat} {signature more : Bytes} (hsignature : signature.length = 4)
    (hn : n < 256 ^ width) : sizeIn width (signature ++ (littleEndianBytes width n ++ more)) = n := by
  unfold sizeIn
  rw [← hsignature, List.drop_left, List.take_left' (littleEndianBytes_length width n), littleEndian_bytes hn]

theorem utf8_four : (utf8 "GRUP".toList).length = 4 ∧ (utf8 "HDPT".toList).length = 4 ∧
    (utf8 "TES4".toList).length = 4 := by decide

theorem groupHeader_length {size : Nat} {label rest : Bytes} (hlabel : label.length = 4) (hrest : rest.length = 12) :
    (groupHeader size label rest).length = headerSize := by
  unfold groupHeader headerSize
  simp only [List.length_append, littleEndianBytes_length, hlabel, hrest, utf8_four]

/-! ## Fields -/

/-- **A pass over a field** that was written. -/
theorem fieldPass_bytes (field : Field) {before after : Bytes} {headparts : List Text}
    (h : bytes.1 = before ++ (field.bytes ++ after)) : fieldPass checks bytes (before.length, headparts) =
      .ok (.next (before.length + field.bytes.length, headparts ++ field.paths)) := by
  have hfour := field.four
  have hheader : bytes.1 = before ++ ((field.signature ++ littleEndianBytes 2 field.data.length) ++
      (field.data ++ after)) := by
    rw [h]
    simp only [Field.bytes, List.append_assoc]
  obtain ⟨header, hslice, heq⟩ := slice_middle before.length fieldHeaderSize hheader rfl (by
    rw [List.length_append, littleEndianBytes_length, hfour]
    rfl)
  have hsize : sizeIn 2 header.1 = field.data.length := by
    rw [heq, ← List.append_nil (littleEndianBytes _ _)]
    exact sizeIn_header hfour field.fits
  have hdata : bytes.1 = (before ++ (field.signature ++ littleEndianBytes 2 field.data.length)) ++
      (field.data ++ after) := by
    rw [hheader]
    simp only [List.append_assoc]
  obtain ⟨data, hfound, hdata'⟩ := slice_middle (before.length + fieldHeaderSize) (sizeIn 2 header.1)
    hdata (by
      rw [List.length_append, List.length_append, littleEndianBytes_length, hfour]
      rfl) hsize
  have hstep := fieldPass_step checks bytes before.length headparts
  generalize fieldPass checks bytes (before.length, headparts) = pass at hstep ⊢
  cases hstep with
  | done hend =>
    rw [h, List.length_append, List.length_append, Field.bytes, List.length_append, hfour] at hend
    omega
  | noHeader hnone => rw [hslice] at hnone; cases hnone
  | noData hheader' hnone =>
    rw [hslice, Option.some.injEq] at hheader'
    subst hheader'
    rw [hfound] at hnone
    cases hnone
  | next _ hheader' hdata'' =>
    rw [hslice, Option.some.injEq] at hheader'
    subst hheader'
    rw [hfound, Option.some.injEq] at hdata''
    subst hdata''
    have hlength : before.length + (fieldHeaderSize + sizeIn 2 header.1) = before.length + field.bytes.length := by
      rw [hsize, Field.bytes, List.length_append, List.length_append, littleEndianBytes_length, hfour]
      unfold fieldHeaderSize
      omega
    rw [hlength, heq, hdata', List.take_left' hfour]
    unfold Field.paths
    split <;> simp

/-- **The fields of a record**, from any of them on. -/
theorem recordHeadparts_from (fields : List Field) (before : Bytes) {headparts : List Text}
    (h : bytes.1 = before ++ fields.flatMap Field.bytes) :
    (Loop.fallible (fieldPass checks bytes) (fun s => bytes.1.length - s.1) fieldPass_shrinks).run
      (before.length, headparts) = .ok (headparts ++ fields.flatMap Field.paths) := by
  induction fields generalizing before headparts with
  | nil =>
    rw [List.flatMap_nil, List.append_nil] at h ⊢
    refine Loop.fallible_done ?_
    unfold fieldPass
    dsimp only
    rw [if_neg (by rw [h]; omega)]
    rfl
  | cons field fields ih =>
    rw [List.flatMap_cons] at h
    rw [Loop.fallible_next (fieldPass_bytes field h), ← List.length_append, ih _ (by rw [h, List.append_assoc]),
      List.flatMap_cons, List.append_assoc]

theorem recordHeadparts_bytes (fields : List Field) {headparts : List Text} (h : bytes.1 = fields.flatMap Field.bytes) :
    recordHeadparts checks bytes headparts = .ok (headparts ++ fields.flatMap Field.paths) :=
  recordHeadparts_from fields [] h

/-! ## Records -/

/-- `inflate` undoes `deflate`. -/
def Undoes (inflate : Inflate) (deflate : Bytes → Bytes) : Prop :=
  ∀ fields, inflate (deflate fields) fields.length = .ok fields

theorem fieldsOf_data (hinflate : Undoes inflate deflate) (record : Record deflate) {data : Buffer}
    (h : data.1 = record.data) :
    ∃ fields, fieldsOf inflate record.header data = .ok fields ∧ fields.1 = record.fields.flatMap Field.bytes := by
  have hflags : littleEndian ((record.header.drop 8).take 4) = record.flags := by
    unfold Record.header
    rw [← List.append_assoc, List.drop_left' (by rw [List.length_append, littleEndianBytes_length, record.four]),
      List.take_left' (littleEndianBytes_length 4 _), littleEndian_bytes record.flagged]
  unfold fieldsOf
  rw [hflags]
  unfold Record.data recordData at h
  split_ifs at h ⊢ with hcompressed
  · generalize hfields : record.fields.flatMap Field.bytes = fields at h
    have hsmall : fields.length ≤ maxDecompressed := hfields ▸ record.small hcompressed
    have hmax : maxDecompressed < 256 ^ 4 := by decide
    obtain ⟨size, hslice, hsize⟩ := @slice_middle _ 0 4 [] _ _ h rfl (littleEndianBytes_length 4 _).symm
    have hnumber : u32At size 0 = .ok fields.length := by
      unfold u32At
      rw [numberAt_of_le (by rw [hsize, littleEndianBytes_length]), hsize, List.drop_zero,
        List.take_of_length_le (by rw [littleEndianBytes_length]), littleEndian_bytes (by omega)]
    have hlength : data.1.length = 4 + (deflate fields).length := by
      rw [h, List.length_append, littleEndianBytes_length]
    obtain ⟨stream, hstream, heq⟩ := @index_of_le data 4 (data.1.length - 4) (by omega)
    have hstream' : stream.1 = deflate fields := by
      rw [heq, h, List.drop_left' (littleEndianBytes_length 4 _)]
      exact List.take_of_length_le (by rw [List.length_append, littleEndianBytes_length]; omega)
    refine ⟨⟨fields, decompressed_lt (Nat.not_lt.mpr hsmall) rfl⟩, ?_, rfl⟩
    unfold decompress
    simp only [hslice, orTruncated, hnumber, ok_bind, hstream, hstream', hinflate fields]
    rw [dif_neg (Nat.not_lt.mpr hsmall), dif_pos trivial]
    rfl
  · exact ⟨data, rfl, h⟩

/-- **A pass over a record** that was written. -/
theorem groupPass_bytes (hinflate : Undoes inflate deflate) (record : Record deflate) {before after : Bytes}
    {headparts : List Text} (h : bytes.1 = before ++ (record.bytes ++ after)) :
    groupPass checks inflate bytes (before.length, headparts) =
      .ok (.next (before.length + record.bytes.length, headparts ++ record.fields.flatMap Field.paths)) := by
  have hheaderLength : record.header.length = headerSize := by
    unfold Record.header headerSize
    simp only [List.length_append, littleEndianBytes_length, record.four, record.twelve]
  have hheader : bytes.1 = before ++ (record.header ++ (record.data ++ after)) := by
    rw [h]
    simp only [Record.bytes, List.append_assoc]
  obtain ⟨header, hslice, heq⟩ := slice_middle before.length headerSize hheader rfl hheaderLength.symm
  have hsize : sizeIn 4 header.1 = record.data.length := by
    rw [heq]
    exact sizeIn_header record.four record.fits
  have hdata : bytes.1 = (before ++ record.header) ++ (record.data ++ after) := by
    rw [hheader, List.append_assoc]
  obtain ⟨data, hfound, hdata'⟩ := slice_middle (before.length + headerSize) (sizeIn 4 header.1) hdata
    (by rw [List.length_append, hheaderLength]) hsize
  obtain ⟨fields, hfields, hcontents⟩ := fieldsOf_data hinflate record hdata'
  have hrecord : (fieldsOf inflate header.1 data >>= fun fields => recordHeadparts checks fields headparts) =
      .ok (headparts ++ record.fields.flatMap Field.paths) := by
    rw [heq, hfields, ok_bind]
    exact recordHeadparts_bytes record.fields hcontents
  have hstep := groupPass_step checks inflate bytes before.length headparts
  generalize groupPass checks inflate bytes (before.length, headparts) = pass at hstep ⊢
  cases hstep with
  | done hend =>
    have hpos : 0 < record.header.length := by
      rw [hheaderLength]
      decide
    rw [hheader, List.length_append, List.length_append] at hend
    omega
  | noHeader hnone => rw [hslice] at hnone; cases hnone
  | noData hheader' hnone =>
    rw [hslice, Option.some.injEq] at hheader'
    subst hheader'
    rw [hfound] at hnone
    cases hnone
  | fails hheader' hdata'' hfailed =>
    rw [hslice, Option.some.injEq] at hheader'
    subst hheader'
    rw [hfound, Option.some.injEq] at hdata''
    subst hdata''
    rw [hrecord] at hfailed
    cases hfailed
  | next _ hheader' hdata'' hnext =>
    rw [hslice, Option.some.injEq] at hheader'
    subst hheader'
    rw [hfound, Option.some.injEq] at hdata''
    subst hdata''
    rw [hrecord, Except.ok.injEq] at hnext
    subst hnext
    rw [hsize, Record.bytes, List.length_append, hheaderLength]

/-- **The records of a group**, from any of them on. -/
theorem groupHeadparts_from (hinflate : Undoes inflate deflate) (records : List (Record deflate)) (before : Bytes)
    {headparts : List Text} (h : bytes.1 = before ++ records.flatMap Record.bytes) :
    (Loop.fallible (groupPass checks inflate bytes) (fun s => bytes.1.length - s.1) groupPass_shrinks).run
      (before.length, headparts) =
        .ok (headparts ++ records.flatMap fun record => record.fields.flatMap Field.paths) := by
  induction records generalizing before headparts with
  | nil =>
    rw [List.flatMap_nil, List.append_nil] at h ⊢
    refine Loop.fallible_done ?_
    unfold groupPass
    dsimp only
    rw [if_neg (by rw [h]; omega)]
    rfl
  | cons record records ih =>
    rw [List.flatMap_cons] at h
    rw [Loop.fallible_next (groupPass_bytes hinflate record h), ← List.length_append,
      ih _ (by rw [h, List.append_assoc]), List.flatMap_cons, List.append_assoc]

theorem groupHeadparts_bytes (hinflate : Undoes inflate deflate) (records : List (Record deflate))
    (h : bytes.1 = records.flatMap Record.bytes) : groupHeadparts checks inflate bytes =
      .ok (records.flatMap fun record => record.fields.flatMap Field.paths) :=
  groupHeadparts_from hinflate records [] h

/-! ## Groups -/

/-- The header of a group that was written. -/
theorem slice_groupHeader {size : Nat} {label rest before after : Bytes} (hlabel : label.length = 4)
    (hrest : rest.length = 12) (hsize : size < 2 ^ 32) (h : bytes.1 = before ++ (groupHeader size label rest ++ after)) :
    ∃ header, slice bytes before.length headerSize = some header ∧ sizeIn 4 header.1 = size ∧
      header.1.take 4 = utf8 "GRUP".toList ∧ (header.1.drop 8).take 4 = label := by
  obtain ⟨header, hslice, heq⟩ := slice_middle before.length headerSize h rfl (groupHeader_length hlabel hrest).symm
  refine ⟨header, hslice, ?_, ?_, ?_⟩ <;> rw [heq] <;> unfold groupHeader
  · exact sizeIn_header utf8_four.1 hsize
  · exact List.take_left' utf8_four.1
  · rw [← List.append_assoc, List.drop_left' (by rw [List.length_append, littleEndianBytes_length, utf8_four.1]),
      List.take_left' hlabel]

/-- **A pass over another group** that was written. -/
theorem topPass_group (group : Group) {before after : Bytes} (h : bytes.1 = before ++ (group.bytes ++ after)) :
    topPass checks inflate bytes before.length = .ok (.next (before.length + group.bytes.length)) := by
  have hlength := @groupHeader_length (headerSize + group.contents.length) _ _ group.four group.twelve
  rw [Group.bytes, List.append_assoc] at h
  obtain ⟨header, hslice, hsize, hgrup, hlabel⟩ := slice_groupHeader group.four group.twelve group.fits h
  have hstep := topPass_step checks inflate bytes before.length
  generalize topPass checks inflate bytes before.length = pass at hstep ⊢
  cases hstep with
  | ends hnone => rw [hslice] at hnone; cases hnone
  | foreign hheader hother =>
    rw [hslice, Option.some.injEq] at hheader
    subst hheader
    exact absurd hgrup hother
  | short hheader _ hshort =>
    rw [hslice, Option.some.injEq] at hheader
    subst hheader
    omega
  | next hheader =>
    rw [hslice, Option.some.injEq] at hheader
    subst hheader
    rw [hsize, Group.bytes, List.length_append, hlength]
  | truncated hheader _ hhdpt | found hheader _ hhdpt =>
    rw [hslice, Option.some.injEq] at hheader
    subst hheader
    exact absurd (hlabel.symm.trans hhdpt) group.other

/-- The groups before, whatever follows them. -/
theorem groups_skipped (groups : List Group) (before : Bytes) {after : Bytes}
    (h : bytes.1 = before ++ (groups.flatMap Group.bytes ++ after)) :
    (Loop.fallible (topPass checks inflate bytes) (fun start => bytes.1.length - start) topPass_shrinks).run
        before.length =
      (Loop.fallible (topPass checks inflate bytes) (fun start => bytes.1.length - start) topPass_shrinks).run
        (before ++ groups.flatMap Group.bytes).length := by
  induction groups generalizing before with
  | nil => rw [List.flatMap_nil, List.append_nil]
  | cons group groups ih =>
    rw [List.flatMap_cons, List.append_assoc] at h
    rw [Loop.fallible_next (topPass_group group h), ← List.length_append, ih _ (by rw [h, List.append_assoc]),
      List.flatMap_cons, List.append_assoc]

/-- **The reader reaches the HDPT group**, whatever is there. -/
theorem headparts_before (plugin : PluginFile deflate) {after : Bytes} (h : bytes.1 = plugin.before ++ after) :
    headparts checks inflate bytes =
      (Loop.fallible (topPass checks inflate bytes) (fun start => bytes.1.length - start) topPass_shrinks).run
        plugin.before.length := by
  have hbytes : bytes.1 = (utf8 "TES4".toList ++ (littleEndianBytes 4 plugin.header.length ++ plugin.rest)) ++
      (plugin.header ++ (plugin.groups.flatMap Group.bytes ++ after)) := by
    rw [h]
    simp only [PluginFile.before, List.append_assoc]
  have hlength : (utf8 "TES4".toList ++ (littleEndianBytes 4 plugin.header.length ++ plugin.rest)).length =
      headerSize := by
    simp only [List.length_append, littleEndianBytes_length, plugin.sixteen, utf8_four]
    rfl
  obtain ⟨header, hslice, heq⟩ := @slice_middle _ 0 headerSize [] _ _ hbytes rfl hlength.symm
  have hnumber : u32At header 4 = .ok plugin.header.length := by
    refine (numberAt_of_le (by rw [heq, hlength]; decide)).trans (congrArg _ ?_)
    rw [heq]
    exact sizeIn_header utf8_four.2.2 plugin.headerFits
  have hname : named header 0 "TES4" = .ok true := by
    rw [named_of_le (by rw [heq, hlength]; decide), heq, List.drop_zero, List.take_left' utf8_four.2.2, beq_self_eq_true]
  have hstart : add checks headerSize plugin.header.length = .ok (headerSize + plugin.header.length) := add_of_lt (by
    have hfits := plugin.headerFits
    unfold headerSize u64Size
    omega)
  have hgroups : bytes.1 = (utf8 "TES4".toList ++ (littleEndianBytes 4 plugin.header.length ++ plugin.rest) ++
      plugin.header) ++ (plugin.groups.flatMap Group.bytes ++ after) := by
    rw [hbytes]
    simp only [List.append_assoc]
  have hwalk := @groups_skipped checks inflate _ plugin.groups _ _ hgroups
  unfold headparts
  rw [readHeader_eq, ok_bind, hslice]
  simp only [hname, hnumber, hstart, ok_bind]
  rw [if_neg (by decide)]
  rw [List.length_append, hlength] at hwalk
  exact hwalk

/-- **The pass over the HDPT group** that was written. -/
theorem topPass_headparts (hinflate : Undoes inflate deflate) (plugin : PluginFile deflate)
    (h : bytes.1 = plugin.bytes) :
    topPass checks inflate bytes plugin.before.length = .ok (.done plugin.paths) := by
  obtain ⟨header, hslice, hsize, hgrup, hlabel⟩ :=
    @slice_groupHeader _ plugin.size _ _ _ _ utf8_four.2.1 plugin.twelve plugin.fits h
  have hcontents : bytes.1 = (plugin.before ++ plugin.headpartsHeader) ++
      (plugin.records.flatMap Record.bytes ++ plugin.after) := by
    rw [h, PluginFile.bytes, List.append_assoc]
  have hheader : plugin.headpartsHeader.length = headerSize := groupHeader_length utf8_four.2.1 plugin.twelve
  obtain ⟨group, hfound, hgroup⟩ := slice_middle (plugin.before.length + headerSize) (sizeIn 4 header.1 - headerSize)
    hcontents (by rw [List.length_append, hheader]) (by
      rw [hsize]
      exact Nat.add_sub_cancel_left ..)
  have hend : plugin.before.length + plugin.size ≤ bytes.1.length := by
    rw [hcontents]
    simp only [List.length_append, hheader, PluginFile.size]
    omega
  have hstep := topPass_step checks inflate bytes plugin.before.length
  generalize topPass checks inflate bytes plugin.before.length = pass at hstep ⊢
  cases hstep with
  | ends hnone => rw [hslice] at hnone; cases hnone
  | foreign hheader' hother =>
    rw [hslice, Option.some.injEq] at hheader'
    subst hheader'
    exact absurd hgrup hother
  | short hheader' hother | next hheader' _ hother =>
    rw [hslice, Option.some.injEq] at hheader'
    subst hheader'
    exact absurd hlabel hother
  | truncated hheader' _ _ hshort =>
    rw [hslice, Option.some.injEq] at hheader'
    subst hheader'
    rw [hsize] at hshort
    have hsizes : headerSize ≤ plugin.size := Nat.le_add_right ..
    omega
  | found hheader' _ _ _ hgroup' =>
    rw [hslice, Option.some.injEq] at hheader'
    subst hheader'
    rw [hfound, Option.some.injEq] at hgroup'
    subst hgroup'
    rw [groupHeadparts_bytes hinflate plugin.records hgroup]
    rfl

/-- **The pass over an HDPT group that was cut** behind its header. -/
theorem topPass_cut (plugin : PluginFile deflate) {after : Bytes}
    (h : bytes.1 = plugin.before ++ (plugin.headpartsHeader ++ after))
    (hcut : bytes.1.length < plugin.before.length + plugin.size) :
    topPass checks inflate bytes plugin.before.length = .error (.failed (.truncated "group")) := by
  obtain ⟨header, hslice, hsize, hgrup, hlabel⟩ :=
    @slice_groupHeader _ plugin.size _ _ _ _ utf8_four.2.1 plugin.twelve plugin.fits h
  have hstep := topPass_step checks inflate bytes plugin.before.length
  generalize topPass checks inflate bytes plugin.before.length = pass at hstep ⊢
  cases hstep with
  | ends hnone => rw [hslice] at hnone; cases hnone
  | foreign hheader' hother =>
    rw [hslice, Option.some.injEq] at hheader'
    subst hheader'
    exact absurd hgrup hother
  | short hheader' hother | next hheader' _ hother =>
    rw [hslice, Option.some.injEq] at hheader'
    subst hheader'
    exact absurd hlabel hother
  | truncated => rfl
  | found hheader' _ _ hlong hgroup' =>
    rw [hslice, Option.some.injEq] at hheader'
    subst hheader'
    have hle := (slice_some hgroup').1
    rw [hsize] at hle hlong
    omega

/-! ## The whole plugin -/

/-- **The head-part reader is total and exact.** Whatever the bytes, it ends without a panic. Of a serialized
plugin it returns the path of each MODL field of the HDPT records, in file order, where inflating undoes
deflating; and it refuses a plugin that is cut anywhere inside the HDPT group, behind its header. -/
theorem headparts_exact (checks : OverflowChecks) (inflate : Inflate) (file : Buffer) :
    Sound (headparts checks inflate file) ∧
    ∀ (deflate : Bytes → Bytes) (plugin : PluginFile deflate),
      (Undoes inflate deflate → file.1 = plugin.bytes → headparts checks inflate file = .ok plugin.paths) ∧
      ∀ length, file.1 = plugin.bytes.take length → plugin.before.length + headerSize ≤ length →
        length < plugin.before.length + plugin.size →
          headparts checks inflate file = .error (.failed (.truncated "group")) := by
  refine ⟨sound_headparts checks inflate file, fun deflate plugin => ⟨fun hinflate h => ?_, fun length h hle hlt => ?_⟩⟩
  · rw [headparts_before plugin h]
    exact Loop.fallible_done (topPass_headparts hinflate plugin h)
  · have hheader : plugin.headpartsHeader.length = headerSize := groupHeader_length utf8_four.2.1 plugin.twelve
    have hbytes : file.1 = plugin.before ++ (plugin.headpartsHeader ++
        (plugin.records.flatMap Record.bytes ++ plugin.after).take (length - plugin.before.length - headerSize)) := by
      rw [h, PluginFile.bytes, List.take_append, List.take_append, hheader,
        List.take_of_length_le (by omega), List.take_of_length_le (by rw [hheader]; omega)]
    rw [headparts_before plugin hbytes]
    refine Loop.fallible_error (topPass_cut plugin hbytes ?_)
    rw [h, List.length_take]
    omega

/-- The Adler-32 checksum, the high byte first. -/
def adler32 (bytes : Bytes) : Bytes :=
  let (a, b) := bytes.foldl (fun (a, b) byte => ((a + byte.toNat) % 65521, (b + a + byte.toNat) % 65521)) (1, 0)
  (littleEndianBytes 4 (b * 65536 + a)).reverse

/-- A zlib stream of one stored block. -/
def storedDeflate (fields : Bytes) : Bytes :=
  [0x78, 0x01, 0x01] ++ (littleEndianBytes 2 fields.length ++ (littleEndianBytes 2 (65535 - fields.length) ++
    (fields ++ adler32 fields)))

/-- Reading a zlib stream of one stored block. -/
def storedInflate : Inflate := fun stream limit => .ok ((stream.drop 7).take limit)

theorem storedInflate_storedDeflate : Undoes storedInflate storedDeflate := by
  intro fields
  unfold storedInflate storedDeflate
  rw [← List.append_assoc, ← List.append_assoc, List.drop_left' (by
    simp only [List.length_append, littleEndianBytes_length]
    rfl), List.take_left]

/-- A field that names a model. -/
def sampleField : Field where
  signature := utf8 "MODL".toList
  data := utf8 "head\\a.nif".toList ++ [0]
  four := by decide
  fits := by decide

/-- A plugin of one other group, and of a compressed record and a plain one. -/
def samplePlugin : PluginFile storedDeflate where
  rest := List.replicate 16 0
  header := [1, 2, 3]
  groups := [⟨utf8 "WRLD".toList, List.replicate 12 0, [4, 5], by decide, by decide, by decide, by decide⟩]
  headpartsRest := List.replicate 12 0
  records := [⟨utf8 "HDPT".toList, compressed, List.replicate 12 0, [sampleField], by decide, by decide, by decide,
      by decide +kernel, by decide +kernel⟩,
    ⟨utf8 "HDPT".toList, 0, List.replicate 12 0, [sampleField], by decide, by decide, by decide, by decide +kernel,
      by decide +kernel⟩]
  after := [6]
  sixteen := by decide
  twelve := by decide
  headerFits := by decide
  fits := by decide +kernel

theorem headparts_exact_sample :
    headparts .on storedInflate ⟨samplePlugin.bytes, by decide +kernel⟩ =
      .ok ["meshes/head/a.nif".toList, "meshes/head/a.nif".toList] ∧
    headparts .on storedInflate ⟨samplePlugin.bytes.take 140, by decide +kernel⟩ =
      .error (.failed (.truncated "group")) := by
  have hpaths : samplePlugin.paths = ["meshes/head/a.nif".toList, "meshes/head/a.nif".toList] := by decide +kernel
  refine ⟨?_, ?_⟩
  · rw [← hpaths]
    exact ((headparts_exact .on storedInflate _).2 storedDeflate samplePlugin).1 storedInflate_storedDeflate rfl
  · exact ((headparts_exact .on storedInflate _).2 storedDeflate samplePlugin).2 140 rfl (by decide +kernel)
      (by decide +kernel)

end Cao.Plugin
