import Cao.Pack.Merge

/-!
# Sizes and bounds of planned Archives

What an Archive records about its files: their summed size under the limit, and the most bytes its
container can take under the cap.

* `Sized`, **`split_merge_sized`**: every recorded size is the sum, and keeps the Archive Limit;
* `structuralBound`, `Laid`: the bound of a layout as a function of the files;
* **`split_merge_rebuilds`**: adding the files of a planned Archive one by one plans it again.
-/

namespace Cao.Pack

variable {checks : OverflowChecks} {settings : Settings} {root : Path}

/-! ## The limit -/

/-- The size an Archive records is the sum of its files', and keeps the limit but for a file alone. -/
structure Sized (settings : Settings) (data : ArchiveData) (group : List PackSource) : Prop where
  files : data.files = group.map PackSource.path
  size : data.size = (group.map PackSource.size).sum
  archiveLimit : data.archiveLimit = settings.archiveLimit
  limit : data.size ≤ settings.archiveLimit ∨ data.files.length = 1

theorem sized_new (type : ArchiveType) : Sized settings (.new settings type) [] :=
  ⟨rfl, rfl, rfl, .inl (Nat.zero_le _)⟩

theorem Sized.added {data data' : ArchiveData} {group : List PackSource} {source : PackSource}
    (h : Sized settings data group) (ha : Added checks data source.path source.size data') :
    Sized settings data' (group ++ [source]) where
  files := by rw [ha.files, h.files, List.map_append, List.map_singleton]
  size := by rw [ha.size_eq, h.size, List.map_append, List.sum_append, List.map_singleton, List.sum_singleton]
  archiveLimit := ha.archiveLimit.trans h.archiveLimit
  limit := by
    rcases ha.room with hroom | hempty
    · rw [ha.size_eq, ← h.archiveLimit]
      exact .inl hroom
    · rw [ha.files, hempty]
      exact .inr rfl

/-- The sizes of some of the sources sum below the range of a `u64`, where those of all do. -/
theorem sum_lt_of_subperm {group sources : List PackSource} (h : group.Subperm sources)
    (hsum : (sources.map PackSource.size).sum < u64Size) : (group.map PackSource.size).sum < u64Size := by
  obtain ⟨group', hperm, hsub⟩ := h
  rw [← (hperm.map PackSource.size).sum_eq]
  exact lt_of_le_of_lt ((hsub.map _).sum_le_sum fun _ _ => Nat.zero_le _) hsum

theorem Sized.absorbed {data other data' other' : ArchiveData} {group group' : List PackSource}
    (h : Sized settings data group) (h' : Sized settings other group')
    (hsum : ((group ++ group').map PackSource.size).sum < u64Size)
    (ha : Absorbed checks data other data' other') : Sized settings data' (group ++ group') where
  files := by rw [ha.files, h.files, h'.files, List.map_append]
  size := by
    rw [List.map_append, List.sum_append] at hsum ⊢
    rw [← h.size, ← h'.size] at hsum ⊢
    have hsize := ha.size
    rw [addU64_of_lt hsum, Option.some.injEq] at hsize
    exact hsize.symm
  archiveLimit := ha.archiveLimit.trans h.archiveLimit
  limit := .inl (h.archiveLimit ▸ ha.size_lt.le)

/-- A step of a merge leaves an Archive as it is, or within the limit. -/
def StepKeepsLimit (settings : Settings) (data data' : ArchiveData) : Prop :=
  (∃ group, Sized settings data' group) ∧ (data' = data ∨ data'.size < settings.archiveLimit)

theorem Joined.keepsLimit {wanted : Bool} {data other data' other' : ArchiveData} {group group' : List PackSource}
    (h : Sized settings data group) (h' : Sized settings other group')
    (hsum : ((group ++ group').map PackSource.size).sum < u64Size)
    (hj : Joined checks wanted data other data' other') : StepKeepsLimit settings data data' := by
  rcases hj with ⟨rfl, -⟩ | ⟨-, ha⟩
  · exact ⟨⟨group, h⟩, .inl rfl⟩
  · exact ⟨⟨_, h.absorbed h' hsum ha⟩, .inr (h.archiveLimit ▸ ha.size_lt)⟩

/-- **The Archive Limit holds after splitting, after each step of a merge and after the merge**: an Archive
records the summed size of its files, and passes the limit only with one file. -/
theorem split_merge_sized {sources : List PackSource} {split : SplitArchives}
    (hsum : (sources.map PackSource.size).sum < u64Size)
    (hs : SplitArchives.split checks root sources settings = some (.ok split)) :
    ∃ full opened, Grouped (Sized settings) split full opened ∧
      (sharedOut full opened).Perm (sources.filter (isPacked settings root)) ∧
      ∀ merge,
        (∀ standard incompressible, SplitArchives.join checks merge.incompressible split.standard
            split.incompressible = some (standard, incompressible) →
          StepKeepsLimit settings split.standard standard ∧
          ∀ merged textures, SplitArchives.join checks merge.textures standard split.textures =
              some (merged, textures) →
            StepKeepsLimit settings standard merged) ∧
        ∀ archives, split.merge checks merge = some archives →
          ∃ groups, List.Forall₂ (Sized settings) archives groups ∧
            groups.flatten.Perm (sources.filter (isPacked settings root)) := by
  obtain ⟨full, opened, hg, hperm⟩ := split_induction (P := Sized settings)
    sized_new (fun _ _ _ _ _ h _ ha => h.added ha) hs
  have hlt : ∀ group : List PackSource, group.Subperm (sharedOut full opened) → (group.map PackSource.size).sum < u64Size :=
    fun group h => sum_lt_of_subperm (h.trans (hperm.subperm.trans List.filter_sublist.subperm)) hsum
  have hopen : (opened .standard ++ opened .incompressible ++ opened .textures).Subperm (sharedOut full opened) := by
    rw [List.append_assoc]
    exact (List.sublist_append_right _ _).subperm
  refine ⟨full, opened, hg, hperm, fun merge => ⟨fun standard incompressible hi => ?_, fun archives hm => ?_⟩⟩
  · have hstandard : Sized settings split.standard _ := (hg.opened .standard).2
    have hincompressible : Sized settings split.incompressible _ := (hg.opened .incompressible).2
    have hpair := hlt _ ((List.sublist_append_left _ _).subperm.trans hopen)
    refine ⟨(join_cases hi).keepsLimit hstandard hincompressible hpair, fun merged textures ht => ?_⟩
    obtain ⟨first, left, hfirst, -, happend⟩ := (join_cases hi).grouped
      (hstandard.absorbed hincompressible hpair) hstandard hincompressible
    refine (join_cases ht).keepsLimit hfirst (hg.opened .textures).2 (hlt _ (List.Subperm.trans ?_ hopen))
    rw [← happend]
    exact ((List.sublist_append_left first left).append_right _).subperm
  · obtain ⟨groups, hgroups, hflat⟩ := merge_induction (fun _ _ h => h.files)
      (fun h h' _ hsub ha => h.absorbed h' (hlt _ hsub) ha) hg hm
    exact ⟨groups, hgroups, hflat.trans hperm⟩

/-- The recorded sizes of a file of each kind. -/
theorem split_merge_sized_sample : ∃ groups, List.Forall₂ (Sized (.forProfile .sse (some 6))) mixedArchives groups ∧
    groups.flatten.Perm (mixedSources.filter (isPacked (.forProfile .sse (some 6)) (pathOf ["m"]))) := by
  obtain ⟨_, _, -, -, h⟩ := split_merge_sized (by decide) split_mixedSources
  exact (h ⟨true, true⟩).2 mixedArchives merge_mixedSplit

/-! ## Names -/

theorem nativeText_concat {folder : Path} (h : folder ≠ []) (name : OsStr) :
    nativeText (folder ++ [name]) = nativeText folder ++ CodePoint.char '\\' :: name := by
  induction folder with
  | nil => exact absurd rfl h
  | cons first folder ih =>
    cases folder with
    | nil => simp [nativeText]
    | cons second folder =>
      have ih := ih (by simp)
      simp only [nativeText, List.cons_append, List.intercalate_cons_cons] at ih ⊢
      rw [ih]
      simp

theorem nameBytes_nil : nameBytes [] = 0 := rfl

/-- A path takes the bytes of its folder, of a separator and of its name. -/
theorem nameBytes_concat {folder : Path} (h : folder ≠ []) (name : OsStr) :
    nameBytes (folder ++ [name]) = nameBytes folder + 1 + nameBytes [name] := by
  have hlossy : (nativeText (folder ++ [name])).lossy = (nativeText folder).lossy ++ '\\' :: name.lossy := by
    rw [nativeText_concat h, OsStr.lossy, List.map_append, List.map_cons]
    rfl
  have hname : nativeText [name] = name := List.intercalate_singleton
  have hsep : (String.utf8EncodeChar '\\').length = 1 := by decide
  unfold nameBytes
  rw [hlossy, hname, utf8_append, utf8_cons, List.length_append, List.length_append, hsep]
  omega

theorem nameBytes_dropLast_le (path : Path) : nameBytes path.dropLast ≤ nameBytes path := by
  induction path using List.reverseRecOn with
  | nil => exact le_rfl
  | append_singleton folder name =>
    rw [List.dropLast_concat]
    by_cases h : folder = []
    · rw [h, nameBytes_nil]
      exact Nat.zero_le _
    · rw [nameBytes_concat h]
      omega

theorem nameBytes_fileName_le (path : Path) : nameBytes [fileName path] ≤ nameBytes path := by
  induction path using List.reverseRecOn with
  | nil => decide
  | append_singleton folder name =>
    have hname : fileName (folder ++ [name]) = name := by simp [fileName]
    rw [hname]
    by_cases h : folder = []
    · rw [h, List.nil_append]
    · rw [nameBytes_concat h]
      omega

/-! ## The structural bound -/

/-- The folders of some files. -/
def foldersOf (group : List PackSource) : Finset Path := (group.map fun source => source.path.dropLast).toFinset

/-- A folder's record and its name, length-prefixed and null-terminated. -/
def folderSize (record : Nat) (folder : Path) : Nat := record + 1 + nameBytes folder + 1

/-- A file's bytes, its record and its null-terminated name. -/
def fileSize (source : PackSource) : Nat := source.size + bsaFileRecord + (nameBytes [fileName source.path] + 1)

/-- The most bytes a BSA of some files can take: its header, its folders and its files. -/
def structuralBound (record : Nat) (group : List PackSource) : Nat :=
  bsaHeader + ∑ folder ∈ foldersOf group, folderSize record folder + (group.map fileSize).sum

/-- **The bound does not depend on the order of the files.** -/
theorem structuralBound_perm {record : Nat} {group group' : List PackSource} (h : group.Perm group') :
    structuralBound record group = structuralBound record group' := by
  have hfolders : foldersOf group = foldersOf group' := by
    ext folder
    simp only [foldersOf, List.mem_toFinset]
    exact (h.map _).mem_iff
  rw [structuralBound, structuralBound, hfolders, (h.map _).sum_eq]

theorem foldersOf_append (group group' : List PackSource) :
    foldersOf (group ++ group') = foldersOf group ∪ foldersOf group' := by
  rw [foldersOf, List.map_append, List.toFinset_append]
  rfl

theorem foldersOf_concat (group : List PackSource) (source : PackSource) :
    foldersOf (group ++ [source]) = insert source.path.dropLast (foldersOf group) := by
  rw [foldersOf_append, Finset.union_comm]
  rfl

/-- The bound with a file more: its folder counts where it is new. -/
theorem structuralBound_concat (record : Nat) (group : List PackSource) (source : PackSource) :
    structuralBound record (group ++ [source]) = structuralBound record group +
      (if source.path.dropLast ∈ foldersOf group then 0 else folderSize record source.path.dropLast) +
      fileSize source := by
  unfold structuralBound
  rw [foldersOf_concat, List.map_append, List.sum_append, List.map_singleton, List.sum_singleton]
  split_ifs with h
  · rw [Finset.insert_eq_of_mem h]
    omega
  · have hfolders := Finset.sum_insert (f := fun folder => folderSize record folder) h
    rw [hfolders]
    omega

/-- The bound of two groups together: one header, and the folders both have once. -/
theorem structuralBound_append (record : Nat) (group group' : List PackSource) :
    structuralBound record (group ++ group') + bsaHeader +
        ∑ folder ∈ foldersOf group ∩ foldersOf group', folderSize record folder =
      structuralBound record group + structuralBound record group' := by
  unfold structuralBound
  have hfolders : ∑ folder ∈ foldersOf group ∪ foldersOf group', folderSize record folder +
      ∑ folder ∈ foldersOf group ∩ foldersOf group', folderSize record folder =
    ∑ folder ∈ foldersOf group, folderSize record folder + ∑ folder ∈ foldersOf group', folderSize record folder :=
    Finset.sum_union_inter
  rw [foldersOf_append, List.map_append, List.sum_append]
  omega

theorem structuralBound_mono {record : Nat} {group group' : List PackSource} (h : group <+: group') :
    structuralBound record group ≤ structuralBound record group' := by
  obtain ⟨rest, rfl⟩ := h
  have happend := structuralBound_append record group rest
  have hshared : ∑ folder ∈ foldersOf group ∩ foldersOf rest, folderSize record folder + bsaHeader ≤
      structuralBound record rest := by
    have hinter : foldersOf group ∩ foldersOf rest ⊆ foldersOf rest := Finset.inter_subset_right
    have hsub := Finset.sum_le_sum_of_subset (f := fun folder => folderSize record folder) hinter
    unfold structuralBound
    omega
  omega

/-! ## Layouts keep the bound -/

/-- The layout of a container of some files. -/
def laidOut (cap record : Nat) (group : List PackSource) : CappedLayout where
  cap := cap
  directoryRecord := record
  directories := foldersOf group
  bound := structuralBound record group

theorem folderBytes_eq {record : Nat} {folder : Path} (hrecord : record ≤ 24) (hname : nameBytes folder < stringLimit) :
    CappedLayout.folderBytes checks record folder = some (folderSize record folder) := by
  have hlimit : stringLimit + 26 < u64Size := by decide
  unfold CappedLayout.folderBytes
  rw [addU64_of_lt (by omega), Option.bind_eq_bind, Option.bind_some, addU64_of_lt (by omega), Option.bind_some,
    addU64_of_lt (by omega), folderSize]

/-- **What adding a file does to a layout**: it is the layout with the file, where that fits the cap. -/
theorem add_laidOut {cap record : Nat} (hrecord : record ≤ 24) (hcap : cap < 2 ^ 64 - 1) (group : List PackSource)
    (source : PackSource) :
    (laidOut cap record group).add checks source.path source.size =
      some (if structuralBound record (group ++ [source]) ≤ cap then some (laidOut cap record (group ++ [source]))
        else none) := by
  have hlimit : stringLimit + 1 < u64Size := by decide
  have hpath := source.path_lt
  have hfolder := nameBytes_dropLast_le source.path
  have hname := nameBytes_fileName_le source.path
  have hbound := structuralBound_concat record group source
  -- The saturated bound passes the cap exactly where the exact one does, and is exact below it.
  have hsaturated : ∀ folder, saturatingAdd (saturatingAdd (structuralBound record group) folder)
      (saturatingAdd (saturatingAdd source.size bsaFileRecord) (nameBytes [fileName source.path] + 1)) =
      saturatingAdd (structuralBound record group + folder) (fileSize source) := by
    intro folder
    rw [saturatingAdd_left, saturatingAdd_left, saturatingAdd_right, fileSize]
  have hfits : ∀ folder, structuralBound record (group ++ [source]) =
        structuralBound record group + folder + fileSize source →
      (if cap < saturatingAdd (structuralBound record group + folder) (fileSize source) then some none
        else some (some (CappedLayout.mk cap record (insert source.path.dropLast (foldersOf group))
          (saturatingAdd (structuralBound record group + folder) (fileSize source))))) =
      some (if structuralBound record (group ++ [source]) ≤ cap then some (laidOut cap record (group ++ [source]))
        else none) := by
    intro folder h
    simp only [lt_saturatingAdd hcap, ← h]
    split_ifs with hlt hle hle
    · omega
    · rfl
    · rw [saturatingAdd_of_le hcap (h ▸ hle), ← h, ← foldersOf_concat]
      rfl
    · omega
  unfold CappedLayout.add
  simp only [laidOut, addU64_of_lt (show nameBytes [fileName source.path] + 1 < u64Size by omega),
    Option.bind_eq_bind, Option.bind_some, Option.pure_def, hsaturated]
  by_cases hold : source.path.dropLast ∈ foldersOf group
  · rw [if_pos hold] at hbound ⊢
    exact hfits 0 hbound
  · rw [if_neg hold] at hbound ⊢
    rw [folderBytes_eq hrecord (lt_of_le_of_lt hfolder hpath), Option.bind_some]
    exact hfits _ hbound

variable (checks) in
/-- **What a merge bounds two layouts by**: the layout of the files of both. -/
theorem mergedBound_laidOut {cap record : Nat} (hrecord : record ≤ 24) (hcap : 2 * cap < u64Size)
    {group group' : List PackSource} (h : structuralBound record group ≤ cap)
    (h' : structuralBound record group' ≤ cap) :
    (laidOut cap record group).mergedBound checks (laidOut cap record group') =
      some (structuralBound record (group ++ group')) := by
  have happend := structuralBound_append record group group'
  have hname : ∀ folder ∈ foldersOf group ∩ foldersOf group',
      CappedLayout.folderBytes checks record folder = some (folderSize record folder) := by
    intro folder hfolder
    obtain ⟨source, -, rfl⟩ := List.mem_map.mp (List.mem_toFinset.mp (Finset.mem_inter.mp hfolder).1)
    exact folderBytes_eq hrecord (lt_of_le_of_lt (nameBytes_dropLast_le _) source.path_lt)
  have hle : bsaHeader ≤ structuralBound record (group ++ group') := by
    unfold structuralBound
    omega
  have hsum : ∑ folder ∈ foldersOf group ∩ foldersOf group',
      (CappedLayout.folderBytes checks record folder).getD 0 =
      ∑ folder ∈ foldersOf group ∩ foldersOf group', folderSize record folder :=
    Finset.sum_congr rfl fun folder hfolder => by rw [hname folder hfolder, Option.getD_some]
  have hshared : CappedLayout.foldersBytes checks record (foldersOf group ∩ foldersOf group') =
      some (∑ folder ∈ foldersOf group ∩ foldersOf group', folderSize record folder) := by
    unfold CappedLayout.foldersBytes
    rw [if_pos fun folder hfolder => by rw [hname folder hfolder]; rfl, sumU64_of_lt (by rw [hsum]; omega), hsum]
  unfold CappedLayout.mergedBound
  simp only [laidOut, hshared, Option.bind_eq_bind, Option.bind_some]
  rw [addU64_of_lt (by omega), Option.bind_some, subU64_of_le (by omega), Option.bind_some, subU64_of_le (by omega)]
  congr 1
  omega

/-! ## Archives keep the bound -/

/-- The layout of an Archive of some files, in a container with a cap. -/
def layoutOf (settings : Settings) (group : List PackSource) : Option CappedLayout :=
  settings.sizeCap.bind fun cap => (folderRecord settings.format).map fun record => laidOut cap record group

/-- The bound of some files is within the cap. -/
def FitsCap (settings : Settings) (group : List PackSource) : Prop :=
  ∀ cap record, settings.sizeCap = some cap → folderRecord settings.format = some record →
    structuralBound record group ≤ cap

/-- What the rules of a game with a cap are: it holds two headers' worth of bytes, twice it is in range, and
every Archive is in the same container. -/
structure CappedRules (settings : Settings) : Prop where
  header : ∀ cap, settings.sizeCap = some cap → bsaHeader ≤ cap
  cap_lt : ∀ cap, settings.sizeCap = some cap → 2 * cap < 2 ^ 64 - 1
  version : ∀ cap type, settings.sizeCap = some cap → settings.versionFor type = settings.format

theorem forProfile_cappedRules (game : Game) (requestedLimit : Option UInt64) :
    CappedRules (.forProfile game requestedLimit) where
  header cap h := by
    rw [forProfile_sizeCap] at h
    cases game <;> simp at h <;> subst h <;> decide
  cap_lt cap h := by
    rw [forProfile_sizeCap] at h
    cases game <;> simp at h <;> subst h <;> decide
  version cap type h := by
    have hformat : (Settings.forProfile game requestedLimit).format =
      (Settings.forProfile game requestedLimit).versionFor .standard := rfl
    rw [forProfile_sizeCap] at h
    rw [hformat, forProfile_versionFor, forProfile_versionFor]
    cases game <;> simp at h ⊢

theorem folderRecord_le {version : ArchiveVersion} {record : Nat} (h : folderRecord version = some record) :
    record ≤ 24 := by
  cases version <;> simp [folderRecord] at h <;> omega

/-- The layout of an Archive is that of its files, within the cap. -/
structure Laid (settings : Settings) (data : ArchiveData) (group : List PackSource) : Prop where
  layout : data.layout = layoutOf settings group
  fits : FitsCap settings group

theorem laid_new (hrules : CappedRules settings) (type : ArchiveType) : Laid settings (.new settings type) [] where
  layout := by
    unfold ArchiveData.new layoutOf
    cases hcap : settings.sizeCap with
    | none => rfl
    | some cap =>
      simp only [Option.bind_some, hrules.version cap type hcap, CappedLayout.new]
      cases folderRecord settings.format <;> rfl
  fits cap _ hcap _ := hrules.header cap hcap

theorem layoutOf_eq_some {group : List PackSource} {layout : CappedLayout} :
    layoutOf settings group = some layout ↔ ∃ cap record, settings.sizeCap = some cap ∧
      folderRecord settings.format = some record ∧ laidOut cap record group = layout := by
  unfold layoutOf
  cases settings.sizeCap <;> cases folderRecord settings.format <;> simp

theorem layoutOf_of_capped {cap record : Nat} (hcap : settings.sizeCap = some cap)
    (hrecord : folderRecord settings.format = some record) (group : List PackSource) :
    layoutOf settings group = some (laidOut cap record group) :=
  layoutOf_eq_some.mpr ⟨cap, record, hcap, hrecord, rfl⟩

/-- Where one group has no layout, there is no cap or the container has none: no group has one. -/
theorem layoutOf_none {group : List PackSource} (h : layoutOf settings group = none) (group' : List PackSource) :
    layoutOf settings group' = none ∧ FitsCap settings group' := by
  unfold layoutOf FitsCap at *
  cases hcap : settings.sizeCap with
  | none => simp
  | some cap =>
    cases hrecord : folderRecord settings.format with
    | none => simp
    | some record => simp [hcap, hrecord] at h

variable (checks) in
/-- **Adding a file to an Archive whose layout is that of its files overflows nowhere.** -/
theorem add_layoutOf (hrules : CappedRules settings) {group : List PackSource} {layout : CappedLayout}
    (h : layoutOf settings group = some layout) (source : PackSource) :
    ∃ added, layout.add checks source.path source.size = some added ∧
      (FitsCap settings (group ++ [source]) → added = layoutOf settings (group ++ [source])) ∧
      ∀ layout', added = some layout' → FitsCap settings (group ++ [source]) := by
  obtain ⟨cap, record, hcap, hrecord, rfl⟩ := layoutOf_eq_some.mp h
  have hcapped := hrules.cap_lt cap hcap
  refine ⟨_, add_laidOut (folderRecord_le hrecord) (by omega) group source, fun hfits => ?_, fun layout' h' => ?_⟩
  · rw [if_pos (hfits cap record hcap hrecord), layoutOf_of_capped hcap hrecord]
  · intro cap' record' hcap' hrecord'
    rw [hcap, Option.some.injEq] at hcap'
    rw [hrecord, Option.some.injEq] at hrecord'
    subst hcap' hrecord'
    by_contra hover
    rw [if_neg hover] at h'
    cases h'

theorem Laid.added (hrules : CappedRules settings) {data data' : ArchiveData} {group : List PackSource}
    {source : PackSource} (h : Laid settings data group) (ha : Added checks data source.path source.size data') :
    Laid settings data' (group ++ [source]) := by
  rcases ha.layout with ⟨hnone, hnone'⟩ | ⟨layout, layout', hlayout, hlayout', hadd⟩
  · obtain ⟨hlayout, hfits⟩ := layoutOf_none (h.layout.symm.trans hnone) (group ++ [source])
    exact ⟨hnone'.trans hlayout.symm, hfits⟩
  · obtain ⟨added, hadded, hexact, hfits⟩ := add_layoutOf checks hrules (h.layout.symm.trans hlayout) source
    rw [hadded, Option.some.injEq] at hadd
    have hfits := hfits layout' hadd
    exact ⟨by rw [hlayout', ← hexact hfits, hadd], hfits⟩

theorem Laid.absorbed (hrules : CappedRules settings) {data other data' other' : ArchiveData}
    {group group' : List PackSource} (h : Laid settings data group) (h' : Laid settings other group')
    (ha : Absorbed checks data other data' other') : Laid settings data' (group ++ group') := by
  rcases ha.layout with ⟨hlayout, hnone⟩ | ⟨layout, layout', bound, hlayout, hlayout', hbound, hle, heq⟩
  · have hnone : layoutOf settings group = none := by
      rcases hnone with hnone | hnone
      · exact h.layout.symm.trans hnone
      · exact (layoutOf_none (h'.layout.symm.trans hnone) group).1
    obtain ⟨hnone', hfits⟩ := layoutOf_none hnone (group ++ group')
    exact ⟨by rw [hlayout, h.layout, hnone, hnone'], hfits⟩
  · obtain ⟨cap, record, hcap, hrecord, rfl⟩ := layoutOf_eq_some.mp (h.layout.symm.trans hlayout)
    obtain ⟨cap', record', hcap', hrecord', rfl⟩ := layoutOf_eq_some.mp (h'.layout.symm.trans hlayout')
    rw [hcap, Option.some.injEq] at hcap'
    rw [hrecord, Option.some.injEq] at hrecord'
    subst hcap' hrecord'
    have hcapped := hrules.cap_lt cap hcap
    have hcapped : 2 * cap < u64Size := by unfold u64Size; omega
    rw [mergedBound_laidOut checks (folderRecord_le hrecord) hcapped (h.fits cap record hcap hrecord)
      (h'.fits cap record hcap hrecord), Option.some.injEq] at hbound
    subst hbound
    refine ⟨?_, fun cap' record' hcap' hrecord' => ?_⟩
    · rw [heq, layoutOf_of_capped hcap hrecord]
      simp only [laidOut, foldersOf_append]
    · rw [hcap, Option.some.injEq] at hcap'
      rw [hrecord, Option.some.injEq] at hrecord'
      subst hcap' hrecord'
      exact hle

/-! ## A planned Archive can be planned again -/

/-- An Archive of some files, added one by one. -/
def gathered (settings : Settings) (type : ArchiveType) (group : List PackSource) : ArchiveData :=
  { ArchiveData.new settings type with
    size := (group.map PackSource.size).sum
    files := group.map PackSource.path
    layout := layoutOf settings group }

theorem gathered_nil (hrules : CappedRules settings) (type : ArchiveType) :
    gathered settings type [] = .new settings type := by
  unfold gathered
  rw [← (laid_new hrules type).layout]
  rfl

/-- Some files fit one Archive: their sizes sum in range, within the limit but for a file alone, and their
bound is within the cap. -/
structure Fits (settings : Settings) (group : List PackSource) : Prop where
  size_lt : (group.map PackSource.size).sum < u64Size
  limit : (group.map PackSource.size).sum ≤ settings.archiveLimit ∨ group.length = 1
  fits : FitsCap settings group

theorem addFile_gathered (hrules : CappedRules settings) {type : ArchiveType} {group : List PackSource}
    {source : PackSource} (h : Fits settings (group ++ [source])) :
    (gathered settings type group).addFile checks source.path source.size =
      some (some (gathered settings type (group ++ [source]))) := by
  have hsum : ((group ++ [source]).map PackSource.size).sum = (group.map PackSource.size).sum + source.size := by
    rw [List.map_append, List.sum_append, List.map_singleton, List.sum_singleton]
  have hsize := h.size_lt
  have hlimit := h.limit
  rw [hsum] at hsize hlimit
  have hchecked : checkedAdd (gathered settings type group).size source.size =
      some ((group.map PackSource.size).sum + source.size) := checkedAdd_eq_some.mpr ⟨hsize, rfl⟩
  have hroom : ¬((gathered settings type group).archiveLimit < (group.map PackSource.size).sum + source.size ∧
      (gathered settings type group).files ≠ []) := by
    rintro ⟨hover, hfiles⟩
    rcases hlimit with hlimit | hlimit
    · exact absurd hover (not_lt.mpr hlimit)
    · have hempty : group = [] := by
        rw [List.length_append, List.length_singleton] at hlimit
        exact List.eq_nil_of_length_eq_zero (by omega)
      subst hempty
      exact hfiles rfl
  unfold ArchiveData.addFile
  rw [hchecked]
  simp only [if_neg hroom]
  cases hlayout : layoutOf settings group with
  | none =>
    have hlayout' := (layoutOf_none hlayout (group ++ [source])).1
    simp [gathered, hlayout, hlayout']
  | some layout =>
    obtain ⟨added, hadded, hexact, -⟩ := add_layoutOf checks hrules hlayout source
    have hexact := hexact h.fits
    cases hadd : layoutOf settings (group ++ [source]) with
    | none =>
      rw [(layoutOf_none hadd group).1] at hlayout
      cases hlayout
    | some layout' =>
      rw [hexact, hadd] at hadded
      simp [gathered, hlayout, hadded, hadd]

/-- The first files of an Archive fit it. -/
theorem Fits.initial {group rest : List PackSource} (h : Fits settings (group ++ rest)) (hne : group ≠ []) :
    Fits settings group where
  size_lt := sum_lt_of_subperm (List.sublist_append_left group rest).subperm h.size_lt
  limit := by
    have hle : (group.map PackSource.size).sum ≤ ((group ++ rest).map PackSource.size).sum := by
      rw [List.map_append, List.sum_append]
      omega
    have hpos := List.length_pos_of_ne_nil hne
    rcases h.limit with hlimit | hlimit
    · exact .inl (hle.trans hlimit)
    · rw [List.length_append] at hlimit
      exact .inr (by omega)
  fits cap record hcap hrecord :=
    (structuralBound_mono (List.prefix_append group rest)).trans (h.fits cap record hcap hrecord)

/-- **Adding the files of an Archive one by one gathers it.** -/
theorem addAll_gathered (hrules : CappedRules settings) {type : ArchiveType} {group rest : List PackSource}
    (h : Fits settings (group ++ rest)) :
    addAll checks (gathered settings type group) rest = some (some (gathered settings type (group ++ rest))) := by
  induction rest generalizing group with
  | nil => simp [addAll]
  | cons source rest ih =>
    rw [List.append_cons] at h ⊢
    unfold addAll
    rw [addFile_gathered hrules (h.initial (by simp))]
    exact ih h

/-- What planning keeps of an Archive and its files. -/
structure Kept (settings : Settings) (data : ArchiveData) (group : List PackSource) : Prop extends
    Sized settings data group, Laid settings data group where
  version : data.version = settings.versionFor data.archiveType

/-- The size a path is offered with. -/
def OneSize (sources : List PackSource) : Prop :=
  ∀ source ∈ sources, ∀ other ∈ sources, source.path = other.path → source.size = other.size

theorem plannedFile_eq {sources : List PackSource} (h : OneSize sources) {source : PackSource} (hs : source ∈ sources) :
    plannedFile sources source.path = some source := by
  unfold plannedFile
  cases hf : sources.reverse.find? fun other => other.path = source.path with
  | none =>
    have hnone := List.find?_eq_none.mp hf source (List.mem_reverse.mpr hs)
    simp at hnone
  | some other =>
    have hpath : other.path = source.path := by simpa using List.find?_some hf
    have hsize := h other (List.mem_reverse.mp (List.mem_of_find?_eq_some hf)) source hs hpath
    cases other
    cases source
    simp_all

/-- An Archive that is planned again from some files: in its container, with its size and its bound, which is
that of the files and within the cap. -/
structure Rebuilds (checks : OverflowChecks) (settings : Settings) (archive : ArchiveData)
    (group : List PackSource) : Prop where
  files : archive.files = group.map PackSource.path
  rebuilt : ∃ data, GameArchivePacker.rebuild checks settings ⟨archive.archiveType, group⟩ = some (some data) ∧
    data.version = archive.version ∧ data.size = archive.size ∧ data.files = archive.files ∧
    data.layout = archive.layout
  bound : ∀ layout, archive.layout = some layout →
    layout.bound = structuralBound layout.directoryRecord group ∧ layout.bound ≤ layout.cap

theorem Kept.rebuilds (hrules : CappedRules settings) {archive : ArchiveData} {group : List PackSource}
    (h : Kept settings archive group) (hsum : (group.map PackSource.size).sum < u64Size) :
    Rebuilds checks settings archive group where
  files := h.files
  rebuilt := by
    have hfits : Fits settings ([] ++ group) := by
      refine ⟨hsum, ?_, h.fits⟩
      have hlimit := h.limit
      rw [h.size, h.files, List.length_map] at hlimit
      exact hlimit
    refine ⟨gathered settings archive.archiveType group, ?_, h.version.symm, h.size.symm, h.files.symm,
      h.layout.symm⟩
    unfold GameArchivePacker.rebuild
    rw [← gathered_nil hrules]
    exact addAll_gathered hrules hfits
  bound layout hlayout := by
    obtain ⟨cap, record, hcap, hrecord, rfl⟩ := layoutOf_eq_some.mp (h.layout.symm.trans hlayout)
    exact ⟨rfl, h.fits cap record hcap hrecord⟩

theorem versionFor_of_ne_textures {type : ArchiveType} (h : type ≠ .textures) :
    settings.versionFor type = settings.format := by
  cases type <;> first | rfl | exact absurd rfl h

theorem kept_new (hrules : CappedRules settings) (type : ArchiveType) : Kept settings (.new settings type) [] where
  toSized := sized_new type
  toLaid := laid_new hrules type
  version := rfl

theorem Kept.added (hrules : CappedRules settings) {data data' : ArchiveData} {group : List PackSource}
    {source : PackSource} (h : Kept settings data group) (ha : Added checks data source.path source.size data') :
    Kept settings data' (group ++ [source]) where
  toSized := h.toSized.added ha
  toLaid := h.toLaid.added hrules ha
  version := by rw [ha.version, ha.archiveType, h.version]

theorem Kept.absorbed (hrules : CappedRules settings) {data other data' other' : ArchiveData}
    {group group' : List PackSource} (h : Kept settings data group) (h' : Kept settings other group')
    (htype : data.archiveType ≠ .textures) (hsum : ((group ++ group').map PackSource.size).sum < u64Size)
    (ha : Absorbed checks data other data' other') : Kept settings data' (group ++ group') where
  toSized := h.toSized.absorbed h'.toSized hsum ha
  toLaid := h.toLaid.absorbed hrules h'.toLaid ha
  version := by
    have htype' : data'.archiveType ≠ .textures := ha.archiveType ▸ absorbedType_ne_textures htype
    rw [ha.version, h.version, versionFor_of_ne_textures htype, versionFor_of_ne_textures htype']

/-- The files of planned Archives, looked up, are the files that were offered. -/
theorem mapM_planned {sources : List PackSource} (h : OneSize sources) {archives : List ArchiveData}
    {groups : List (List PackSource)}
    (hgroups : List.Forall₂ (fun archive group => archive.files = group.map PackSource.path) archives groups)
    (hsub : ∀ source ∈ groups.flatten, source ∈ sources) :
    archives.mapM (planned sources) =
      some (List.zipWith (fun archive group => ⟨archive.archiveType, group⟩) archives groups) := by
  have hfiles : ∀ group : List PackSource, (∀ source ∈ group, source ∈ sources) →
      (group.map PackSource.path).mapM (plannedFile sources) = some group := by
    intro group
    induction group with
    | nil => intro _; rfl
    | cons source group ih =>
      intro hsub
      rw [List.map_cons, List.mapM_cons, plannedFile_eq h (hsub source List.mem_cons_self),
        ih fun source hs => hsub source (List.mem_cons_of_mem _ hs)]
      rfl
  induction hgroups with
  | nil => rfl
  | @cons archive group archives groups hpaths _ ih =>
    have hgroup : planned sources archive = some ⟨archive.archiveType, group⟩ := by
      unfold planned
      rw [hpaths, hfiles group fun source hs => hsub source (by simp [hs])]
      rfl
    rw [List.mapM_cons, hgroup, ih fun source hs => hsub source (by simp only [List.flatten_cons, List.mem_append]; exact .inr hs)]
    rfl

/-- **A planned Archive can always be planned again**: adding its files one by one gives its container, size
and bound. The bound is that of the set of files, in any order, and the planner hands over the files with the
sizes they were offered with. -/
theorem split_merge_rebuilds {game : Game} {requestedLimit : Option UInt64} {sources : List PackSource}
    {split : SplitArchives} {merge : MergeSettings} {archives : List ArchiveData}
    (hsum : (sources.map PackSource.size).sum < u64Size)
    (hs : SplitArchives.split checks root sources (.forProfile game requestedLimit) = some (.ok split))
    (hm : split.merge checks merge = some archives) :
    (∃ groups, List.Forall₂ (Rebuilds checks (.forProfile game requestedLimit)) archives groups ∧
      groups.flatten.Perm (sources.filter (isPacked (.forProfile game requestedLimit) root)) ∧
      (OneSize sources → GameArchivePacker.partition checks (.forProfile game requestedLimit) root sources merge =
        some (.ok (List.zipWith (fun archive group => ⟨archive.archiveType, group⟩) archives groups)))) ∧
    ∀ record group group', group.Perm group' → structuralBound record group = structuralBound record group' := by
  refine ⟨?_, fun record group group' h => structuralBound_perm h⟩
  have hrules := forProfile_cappedRules game requestedLimit
  obtain ⟨full, opened, hg, hperm⟩ := split_induction (P := Kept (.forProfile game requestedLimit))
    (kept_new hrules) (fun _ _ _ _ _ h _ ha => h.added hrules ha) hs
  have hlt : ∀ group : List PackSource, group.Subperm (sharedOut full opened) →
      (group.map PackSource.size).sum < u64Size :=
    fun group h => sum_lt_of_subperm (h.trans (hperm.subperm.trans List.filter_sublist.subperm)) hsum
  obtain ⟨groups, hgroups, hflat⟩ := merge_induction (fun _ _ h => h.files)
    (fun h h' htype hsub ha => h.absorbed hrules h' htype (hlt _ hsub) ha) hg hm
  have hpacked := hflat.trans hperm
  have hsub : ∀ source ∈ groups.flatten, source ∈ sources := fun source hs =>
    (List.mem_filter.mp (hpacked.mem_iff.mp hs)).1
  refine ⟨groups, ?_, hpacked, fun hsizes => ?_⟩
  · have hmem : ∀ group ∈ groups, (group.map PackSource.size).sum < u64Size := fun group hgroup =>
      hlt group ((List.sublist_flatten_of_mem hgroup).subperm.trans hflat.subperm)
    clear hflat hpacked hsub hm
    induction hgroups with
    | nil => exact .nil
    | cons h _ ih =>
      exact .cons (h.rebuilds hrules (hmem _ List.mem_cons_self)) (ih fun group hg => hmem group (List.mem_cons_of_mem _ hg))
  · unfold GameArchivePacker.partition
    rw [hs]
    simp only [Option.bind_eq_bind, Option.bind_some, hm,
      mapM_planned hsizes (hgroups.imp fun _ _ h => h.files) hsub, Option.pure_def]

/-- The Archives of a file of each kind, planned again. -/
theorem split_merge_rebuilds_sample : ∃ groups,
    List.Forall₂ (Rebuilds .on (.forProfile .sse (some 6))) mixedArchives groups := by
  obtain ⟨⟨groups, hgroups, -⟩, -⟩ := split_merge_rebuilds (by decide) split_mixedSources merge_mixedSplit
  exact ⟨groups, hgroups⟩

end Cao.Pack
