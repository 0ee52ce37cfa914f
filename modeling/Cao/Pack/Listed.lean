import Cao.Pack.Stored
import Cao.Archive.EntryCase

/-!
# What an Archive lists

The names of a written Archive's listing, where its folders are told apart by their keys.

* `Regular`: a key whose names the library stores in lower case;
* `sameKey_of_lower`: a key ignores case;
* `Folders`, `Distinct`: keys that tell folders apart, and files;
* **`lists_tes4`**, **`lists_fo4`**: each file is listed once, under its name.
-/

namespace Cao.Pack

variable {keys : Ba2Keys}

/-! ## Names in lower case -/

theorem backslashed_map_toLower (name : Text) : backslashed (name.map Char.toLower) = normalizedName name := by
  unfold normalizedName backslashed
  rw [List.map_map, List.map_map]
  refine List.map_congr_left fun c _ => ?_
  have hslash : c.toLower = '/' ↔ c = '/' := Ascii.toLower_eq_iff (by decide)
  by_cases hc : c = '/'
  · subst hc
    rfl
  · simp [hc, hslash]

/-- The case of a name decides nothing of what it is stored as. -/
theorem normalizedName_of_lower {a b : Text} (h : a.map Char.toLower = b.map Char.toLower) :
    normalizedName a = normalizedName b := by
  rw [← backslashed_map_toLower, h, backslashed_map_toLower]

theorem map_toLower_normalizedName (name : Text) : (normalizedName name).map Char.toLower = normalizedName name := by
  unfold normalizedName
  rw [List.map_map]
  exact List.map_congr_left fun c _ => Ascii.toLower_toLower c

theorem backslashed_normalizedName (name : Text) : backslashed (normalizedName name) = normalizedName name := by
  rw [← backslashed_map_toLower, backslashed_backslashed]

theorem normalizedName_idem (name : Text) : normalizedName (normalizedName name) = normalizedName name := by
  rw [← backslashed_map_toLower, map_toLower_normalizedName, backslashed_normalizedName]

theorem normalizedName_append (a b : Text) : normalizedName (a ++ b) = normalizedName a ++ normalizedName b := by
  simp [normalizedName, backslashed]

theorem notMem_normalizedName {name : Text} (hslash : '/' ∉ name) (hbackslash : '\\' ∉ name) :
    '\\' ∉ normalizedName name := by
  intro hmem
  obtain ⟨c, hc, hlower⟩ := List.mem_map.mp hmem
  obtain ⟨d, hd, hdc⟩ := List.mem_map.mp hc
  rw [Ascii.toLower_eq_iff (by decide)] at hlower
  by_cases hd' : d = '/'
  · exact hslash (hd' ▸ hd)
  · rw [if_neg hd', hlower] at hdc
    exact hbackslash (hdc ▸ hd)

/-- The two parts of a key, in lower case. -/
theorem splitKey_map_toLower (key : Text) : splitKey (key.map Char.toLower) =
    ((splitKey key).1.map Char.toLower, (splitKey key).2.map Char.toLower) := by
  have hlower : ∀ {s : Text}, '\\' ∈ s.map Char.toLower ↔ '\\' ∈ s := mem_map_toLower (by decide)
  by_cases hmem : '\\' ∈ key
  · obtain ⟨name, folder, hkey, hname⟩ := List.eq_append_cons_of_mem (List.mem_reverse.mpr hmem)
    have hkey : key = folder.reverse ++ '\\' :: name.reverse := by
      rw [← List.reverse_reverse key, hkey]
      simp
    have hname : '\\' ∉ name.reverse := fun h => hname (List.mem_reverse.mp h)
    rw [hkey, splitKey_append hname, List.map_append, List.map_cons,
      show '\\'.toLower = '\\' from by decide, splitKey_append fun h => hname (hlower.mp h)]
  · rw [splitKey_of_notMem hmem, splitKey_of_notMem fun h => hmem (hlower.mp h), List.map_nil]

/-- **A key ignores case.** -/
theorem sameKey_of_lower (hkeys : IgnoringKeys keys) (version : ArchiveVersion) {a b : Text}
    (h : a.map Char.toLower = b.map Char.toLower) : SameKey keys version a b := by
  have hsplit : SameTes4Key keys a b := by
    have hparts := (splitKey_map_toLower a).symm.trans ((congrArg splitKey h).trans (splitKey_map_toLower b))
    obtain ⟨hfolder, hname⟩ := Prod.mk.inj hparts
    exact ⟨hkeys.directoryHash _ _ (normalizedName_of_lower hfolder), hkeys.fileHash _ _ (normalizedName_of_lower hname)⟩
  cases version
  · exact hsplit
  · exact hsplit
  · exact hkeys.entryHash _ _ (normalizedName_of_lower h)
  · exact hkeys.entryHash _ _ (normalizedName_of_lower h)

/-! ## Keys as they are stored -/

/-- The key of a file in a folder, whose names the library stores in lower case. -/
structure Regular (keys : Ba2Keys) (key : Text) : Prop where
  split : (splitKey key).1 ++ '\\' :: (splitKey key).2 = key
  folder_ne : (splitKey key).1 ≠ []
  noSlash : '/' ∉ key
  name : '\\' ∉ (splitKey key).2
  directoryName : keys.directoryName (splitKey key).1 = normalizedName (splitKey key).1
  fileName : keys.fileName (splitKey key).2 = normalizedName (splitKey key).2
  entryName : keys.entryName key = normalizedName key

theorem Regular.name_noSlash {key : Text} (h : Regular keys key) : '/' ∉ (splitKey key).2 := by
  intro hmem
  exact h.noSlash (h.split ▸ List.mem_append_right _ (List.mem_cons_of_mem _ hmem))

theorem Regular.splitKey_normalized {key : Text} (h : Regular keys key) :
    splitKey (normalizedName key) = (normalizedName (splitKey key).1, normalizedName (splitKey key).2) := by
  have hcons : normalizedName ('\\' :: (splitKey key).2) = '\\' :: normalizedName (splitKey key).2 :=
    normalizedName_append ['\\'] (splitKey key).2
  conv_lhs => rw [← h.split, normalizedName_append, hcons]
  exact splitKey_append (notMem_normalizedName h.name_noSlash h.name)

/-- The listed name of two stored ones. -/
theorem tes4Name_normalized {folder name : Text} (h : folder ≠ []) :
    tes4Name (normalizedName folder) (normalizedName name) = normalizedName (folder ++ '\\' :: name) := by
  have hne : normalizedName folder ≠ [] := by simpa [normalizedName, backslashed] using h
  have hcons : normalizedName ('\\' :: name) = '\\' :: normalizedName name := normalizedName_append ['\\'] name
  unfold tes4Name
  rw [if_neg hne, ← hcons, ← normalizedName_append, backslashed_normalizedName]

/-- Folders with one directory key have one name, their case ignored. -/
def Folders (keys : Ba2Keys) (names : List Text) : Prop :=
  ∀ a ∈ names, ∀ b ∈ names, keys.directoryHash (splitKey a).1 = keys.directoryHash (splitKey b).1 →
    (splitKey a).1.map Char.toLower = (splitKey b).1.map Char.toLower

/-- Names with one key are one name. -/
def Distinct (keys : Ba2Keys) (version : ArchiveVersion) (names : List Text) : Prop :=
  ∀ a ∈ names, ∀ b ∈ names, SameKey keys version a b → a = b

/-! ## The listing -/

/-- A folder's entry of a BSA, and a file's in it, come from keyed files of one directory key. -/
structure Entered (files : List (Text × Tes4File)) (folder : Text × Tes4Directory keys) : Prop where
  named : ∃ keyed ∈ files, (splitKey keyed.1).1 = folder.1
  files : ∀ entry ∈ folder.2.entries, ∃ keyed ∈ files,
    keys.directoryHash (splitKey keyed.1).1 = keys.directoryHash folder.1 ∧ (splitKey keyed.1).2 = entry.1

theorem mem_addFileTo {name : Text} {file : Tes4File} {directory : Tes4Directory keys} {entry : Text × Tes4File}
    (h : entry ∈ (addFileTo name file directory).entries) : entry ∈ directory.entries ∨ entry.1 = name := by
  unfold addFileTo at h
  split_ifs at h with hnone
  · rcases OrdMap.mem_upsert.mp h with ⟨hmem, -⟩ | heq
    · exact .inl hmem
    · rw [Option.isNone_iff_eq_none.mp hnone] at heq
      exact .inr (congrArg Prod.fst heq)
  · exact .inl h

theorem entered_tes4Archive (keys : Ba2Keys) (files : List (Text × Tes4File)) :
    ∀ folder ∈ (tes4Archive files : Tes4Archive keys).entries, Entered files folder := by
  induction files using List.reverseRecOn with
  | nil => exact fun _ h => absurd h List.not_mem_nil
  | append_singleton files keyed ih =>
    have hlast : (tes4Archive (files ++ [keyed]) : Tes4Archive keys) = addTes4 (tes4Archive files) keyed := by
      unfold tes4Archive
      rw [List.foldl_append]
      rfl
    have hkeyed : keyed ∈ files ++ [keyed] := List.mem_append_right _ List.mem_cons_self
    have hlater : ∀ {folder : Text × Tes4Directory keys}, Entered files folder → Entered (files ++ [keyed]) folder := by
      intro folder h
      obtain ⟨first, hfirst, hname⟩ := h.named
      refine ⟨⟨first, List.mem_append_left _ hfirst, hname⟩, fun entry hentry => ?_⟩
      obtain ⟨other, hother, hsame⟩ := h.files entry hentry
      exact ⟨other, List.mem_append_left _ hother, hsame⟩
    rw [hlast]
    intro folder hfolder
    rcases OrdMap.mem_upsert.mp hfolder with ⟨hmem, -⟩ | heq
    · exact hlater (ih folder hmem)
    · cases hget : (tes4Archive files : Tes4Archive keys).get? (splitKey keyed.1).1 with
      | none =>
        rw [hget] at heq
        subst heq
        refine ⟨⟨keyed, hkeyed, rfl⟩, fun entry hentry => ⟨keyed, hkeyed, rfl, ?_⟩⟩
        exact ((mem_addFileTo hentry).resolve_left List.not_mem_nil).symm
      | some found =>
        rw [hget] at heq
        subst heq
        obtain ⟨hmem, hhash⟩ := OrdMap.get?_eq_some.mp hget
        have hfound := hlater (ih found hmem)
        refine ⟨hfound.named, fun entry hentry => ?_⟩
        rcases mem_addFileTo hentry with hentry | hentry
        · exact hfound.files entry hentry
        · exact ⟨keyed, hkeyed, hhash.symm, hentry.symm⟩

theorem mem_fo4Archive (keys : Ba2Keys) (files : List (Text × Fo4File)) :
    ∀ entry ∈ (fo4Archive files : Fo4Archive keys).entries, entry ∈ files := by
  induction files using List.reverseRecOn with
  | nil => exact fun _ h => absurd h List.not_mem_nil
  | append_singleton files keyed ih =>
    have hlast : (fo4Archive (files ++ [keyed]) : Fo4Archive keys) = addFo4 (fo4Archive files) keyed := by
      unfold fo4Archive
      rw [List.foldl_append]
      rfl
    rw [hlast]
    unfold addFo4
    intro entry hentry
    split_ifs at hentry with hnone
    · rcases OrdMap.mem_upsert.mp hentry with ⟨hmem, -⟩ | heq
      · exact List.mem_append_left _ (ih entry hmem)
      · rw [Option.isNone_iff_eq_none.mp hnone] at heq
        rw [heq]
        exact List.mem_append_right _ List.mem_cons_self
    · exact List.mem_append_left _ (ih entry hentry)

/-- The assets listed under some names, each once. -/
structure Lists (assets : List ArchivedAsset) (names : List Text) : Prop where
  nodup : (assets.map ArchivedAsset.name).Nodup
  mem : ∀ name, name ∈ assets.map ArchivedAsset.name ↔ name ∈ names

/-- A keyed file is found in a BSA by its keys. -/
theorem mem_tes4Archive {files : List (Text × Tes4File)} {keyed : Text × Tes4File} (h : keyed ∈ files) :
    ∃ folder ∈ (tes4Archive files : Tes4Archive keys).entries, ∃ entry ∈ folder.2.entries,
      keys.directoryHash folder.1 = keys.directoryHash (splitKey keyed.1).1 ∧
        keys.fileHash entry.1 = keys.fileHash (splitKey keyed.1).2 := by
  have hfind : findTes4 (tes4Archive files : Tes4Archive keys) keyed.1 ≠ none := by
    rw [findTes4_tes4Archive, Ne, Option.map_eq_none_iff, List.find?_eq_none]
    exact fun hnone => hnone keyed h (decide_eq_true ⟨rfl, rfl⟩)
  obtain ⟨file, hfile⟩ := Option.ne_none_iff_exists'.mp hfind
  obtain ⟨folder, hfolder, hentry⟩ := Option.bind_eq_some_iff.mp hfile
  obtain ⟨entry, hentry, -⟩ := Option.map_eq_some_iff.mp hentry
  obtain ⟨hfolder, hhash⟩ := OrdMap.get?_eq_some.mp hfolder
  obtain ⟨hentry, hhash'⟩ := OrdMap.get?_eq_some.mp hentry
  exact ⟨folder, hfolder, entry, hentry, hhash, hhash'⟩

/-- **A BSA lists each file once, under its name.** -/
theorem lists_tes4 {files : List (Text × Tes4File)} (options : Tes4Options)
    (hkeys : IgnoringKeys keys) (hregular : ∀ keyed ∈ files, Regular keys keyed.1)
    (hfolders : Folders keys (files.map Prod.fst))
    (hdistinct : ∀ a ∈ files, ∀ b ∈ files, SameTes4Key keys a.1 b.1 → a.1 = b.1) :
    Lists (archivedAssets (.tes4 (tes4Archive files : Tes4Archive keys) options))
      (files.map fun keyed => normalizedName keyed.1) := by
  have hentered := entered_tes4Archive keys files
  -- what is listed of an entry: the name of a file with its keys
  have hlisted : ∀ folder ∈ (tes4Archive files : Tes4Archive keys).entries, ∀ entry ∈ folder.2.entries,
      ∃ keyed ∈ files, keys.directoryHash (splitKey keyed.1).1 = keys.directoryHash folder.1 ∧
        (splitKey keyed.1).2 = entry.1 ∧ keys.directoryName folder.1 = normalizedName (splitKey keyed.1).1 ∧
          (tes4Asset keys folder.1 entry).name = normalizedName keyed.1 := by
    intro folder hfolder entry hentry
    obtain ⟨first, hfirst, hname⟩ := (hentered folder hfolder).named
    obtain ⟨keyed, hkeyed, hhash, hfile⟩ := (hentered folder hfolder).files entry hentry
    have hregular' := hregular keyed hkeyed
    have hlower := hfolders first.1 (List.mem_map_of_mem hfirst) keyed.1 (List.mem_map_of_mem hkeyed)
      (by rw [hname, hhash])
    have hdirectory : keys.directoryName folder.1 = normalizedName (splitKey keyed.1).1 := by
      rw [← hname, (hregular first hfirst).directoryName, normalizedName_of_lower hlower]
    refine ⟨keyed, hkeyed, hhash, hfile, hdirectory, ?_⟩
    unfold tes4Asset
    simp only
    rw [hdirectory, ← hfile, hregular'.fileName, tes4Name_normalized hregular'.folder_ne, hregular'.split]
  -- two files of one name have both keys alike
  have halike : ∀ a ∈ files, ∀ b ∈ files, normalizedName a.1 = normalizedName b.1 → SameTes4Key keys a.1 b.1 := by
    intro a ha b hb hname
    have hparts := congrArg splitKey hname
    rw [(hregular a ha).splitKey_normalized, (hregular b hb).splitKey_normalized, Prod.mk.injEq] at hparts
    exact ⟨hkeys.directoryHash _ _ hparts.1, hkeys.fileHash _ _ hparts.2⟩
  constructor
  · unfold archivedAssets
    simp only [List.map_flatMap, List.map_map]
    refine List.nodup_flatMap.mpr ⟨fun folder hfolder => ?_, ?_⟩
    · refine List.pairwise_map.mpr (folder.2.ascending.imp_of_mem fun {entry entry'} hentry hentry' hlt hname => ?_)
      obtain ⟨a, ha, -, hfile, -, haname⟩ := hlisted folder hfolder entry hentry
      obtain ⟨b, hb, -, hfile', -, hbname⟩ := hlisted folder hfolder entry' hentry'
      have hsame := (halike a ha b hb (haname.symm.trans (hname.trans hbname))).2
      rw [hfile, hfile'] at hsame
      exact absurd hsame hlt.ne
    · refine (tes4Archive files).ascending.imp_of_mem fun {folder folder'} hfolder hfolder' hlt name hmem hmem' => ?_
      obtain ⟨entry, hentry, hname⟩ := List.mem_map.mp hmem
      obtain ⟨entry', hentry', hname'⟩ := List.mem_map.mp hmem'
      obtain ⟨a, ha, hhash, -, -, haname⟩ := hlisted folder hfolder entry hentry
      obtain ⟨b, hb, hhash', -, -, hbname⟩ := hlisted folder' hfolder' entry' hentry'
      have hsame := (halike a ha b hb (haname.symm.trans (hname.trans (hname'.symm.trans hbname)))).1
      rw [hhash, hhash'] at hsame
      exact absurd hsame hlt.ne
  · intro name
    unfold archivedAssets
    simp only [List.map_flatMap, List.map_map, List.mem_flatMap, List.mem_map, Function.comp_apply]
    constructor
    · rintro ⟨folder, hfolder, entry, hentry, rfl⟩
      obtain ⟨keyed, hkeyed, -, -, -, hname⟩ := hlisted folder hfolder entry hentry
      exact ⟨keyed, hkeyed, hname.symm⟩
    · rintro ⟨keyed, hkeyed, rfl⟩
      obtain ⟨folder, hfolder, entry, hentry, hsame⟩ := mem_tes4Archive hkeyed
      obtain ⟨other, hother, hhash, hfile, -, hname⟩ := hlisted folder hfolder entry hentry
      have heq : other.1 = keyed.1 := hdistinct other hother keyed hkeyed
        ⟨hhash.trans hsame.1, (congrArg keys.fileHash hfile).trans hsame.2⟩
      exact ⟨folder, hfolder, entry, hentry, by rw [hname, heq]⟩

/-- **A BA2 lists each file once, under its name.** -/
theorem lists_fo4 {files : List (Text × Fo4File)} (options : Fo4Options) (hkeys : IgnoringKeys keys)
    (hregular : ∀ keyed ∈ files, Regular keys keyed.1)
    (hdistinct : ∀ a ∈ files, ∀ b ∈ files, keys.entryHash a.1 = keys.entryHash b.1 → a.1 = b.1) :
    Lists (archivedAssets (.fo4 (fo4Archive files : Fo4Archive keys) options))
      (files.map fun keyed => normalizedName keyed.1) := by
  have hmem := mem_fo4Archive keys files
  constructor
  · unfold archivedAssets
    rw [List.map_map]
    refine List.pairwise_map.mpr ((fo4Archive files).ascending.imp_of_mem fun {a b} ha hb hlt hname => ?_)
    simp only [Function.comp_apply, fo4Asset, (hregular a (hmem a ha)).entryName, (hregular b (hmem b hb)).entryName] at hname
    exact absurd (hkeys.entryHash _ _ hname) hlt.ne
  · intro name
    unfold archivedAssets
    rw [List.map_map, List.mem_map, List.mem_map]
    constructor
    · rintro ⟨entry, hentry, rfl⟩
      exact ⟨entry, hmem entry hentry, (hregular entry (hmem entry hentry)).entryName.symm⟩
    · rintro ⟨keyed, hkeyed, rfl⟩
      have hfind : (fo4Archive files : Fo4Archive keys).get? keyed.1 ≠ none := by
        rw [get?_fo4Archive, Ne, List.find?_eq_none]
        exact fun h => h keyed hkeyed (decide_eq_true rfl)
      obtain ⟨entry, hget⟩ := Option.ne_none_iff_exists'.mp hfind
      obtain ⟨hentry, hhash⟩ := OrdMap.get?_eq_some.mp hget
      have heq := hdistinct entry (hmem entry hentry) keyed hkeyed hhash
      exact ⟨entry, hentry, ((hregular entry (hmem entry hentry)).entryName.trans (by rw [heq]))⟩

/-- What is listed under a name alone. -/
theorem Lists.only {assets : List ArchivedAsset} {names : List Text} (h : Lists assets names) {name : Text}
    (hname : name ∈ names) {p : Text → Bool} (hp : ∀ other ∈ names, p other = true ↔ other = name) :
    ∃ asset, assets.filter (fun asset => p asset.name) = [asset] ∧ asset.name = name := by
  obtain ⟨asset, hasset, rfl⟩ := List.mem_map.mp ((h.mem name).mpr hname)
  refine ⟨asset, ?_, rfl⟩
  have hnodup : (assets.filter fun other => p other.name).Nodup := h.nodup.of_map.filter _
  refine List.perm_singleton.mp ((List.perm_ext_iff_of_nodup hnodup (List.nodup_singleton asset)).mpr fun other => ?_)
  rw [List.mem_filter, List.mem_singleton]
  constructor
  · rintro ⟨hother, hp'⟩
    have hsame := (hp other.name ((h.mem other.name).mp (List.mem_map_of_mem hother))).mp hp'
    exact List.inj_on_of_nodup_map h.nodup hother hasset hsame
  · rintro rfl
    exact ⟨hasset, (hp other.name hname).mpr rfl⟩

end Cao.Pack
