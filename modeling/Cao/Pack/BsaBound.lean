import Cao.Pack.Keys

/-!
# The bound of a BSA is a true bound

The bytes of the BSA the writer makes of a planned Archive are at most the bound kept while planning it, so its final
check against the cap never fires.

* `Stores`: a keyed file that takes no more bytes than its source;
* **`tes4Archive_bytes_le`**: the BSA of such files takes at most their structural bound;
* **`written_within_bound`**: of every Archive that a split or a merge gives, and of its rebuilding.
-/

namespace Cao.Pack

variable {keys : Ba2Keys} {ba2 : Ba2 keys} {checks : OverflowChecks} {settings : Settings} {root : Path}

/-! ## Keyed files -/

/-- A keyed file that takes no more bytes than its source. -/
structure Stores (root : Path) (source : PackSource) (keyed : Text × Tes4File) : Prop where
  path : IsFilePath source.path
  key : Keyed root source.path keyed.1
  stored : keyed.2.storedBytes ≤ source.size

/-- The folder and the name of a path that is not the root itself. -/
theorem Stores.relative {source : PackSource} {keyed : Text × Tes4File} (h : Stores root source keyed) :
    source.path = root ∨ ∃ directories name, source.path = root ++ (directories ++ [name]) := by
  obtain ⟨relative, hpath, -⟩ := h.key.text
  rcases relative.eq_nil_or_concat' with rfl | ⟨directories, name, rfl⟩
  · rw [List.append_nil] at hpath
    exact .inl hpath
  · exact .inr ⟨directories, name, hpath⟩

theorem Stores.directory_le {source : PackSource} {keyed : Text × Tes4File} (h : Stores root source keyed) :
    max 1 (textBytes (splitKey keyed.1).1) ≤ nameBytes source.path.dropLast := by
  have hpos : 0 < nameBytes source.path.dropLast :=
    nameBytes_pos h.path.1 fun name hname => h.path.2 name (List.mem_of_mem_dropLast hname)
  refine max_le hpos ?_
  rcases h.relative with hroot | ⟨directories, name, hpath⟩
  · rw [h.key.atRoot hroot]
    exact Nat.zero_le _
  · rw [← nameBytes_of_ofText (h.key.split directories name hpath).1, hpath, ← List.append_assoc, List.dropLast_concat]
    exact nameBytes_append_le root directories

theorem Stores.name_le {source : PackSource} {keyed : Text × Tes4File} (h : Stores root source keyed) :
    max 1 (textBytes (splitKey keyed.1).2) ≤ nameBytes [fileName source.path] := by
  have hne : source.path ≠ [] := fun hnil => h.path.1 (by rw [hnil]; rfl)
  obtain ⟨folder, last, hlast⟩ := source.path.eq_nil_or_concat'.resolve_left hne
  have hname : fileName source.path = last := by rw [hlast]; simp [fileName]
  have hpos : 0 < nameBytes [fileName source.path] := by
    rw [hname]
    refine nameBytes_pos (by simp) fun name hmem => ?_
    obtain rfl := List.mem_singleton.mp hmem
    exact h.path.2 name (by simp [hlast])
  refine max_le hpos ?_
  rcases h.relative with hroot | ⟨directories, name, hpath⟩
  · rw [h.key.atRoot hroot]
    exact Nat.zero_le _
  · have hsame : fileName source.path = name := by rw [hpath]; simp [fileName]
    rw [hsame, nameBytes_of_ofText]
    rw [nativeText_singleton]
    exact (h.key.split directories name hpath).2

/-- Files of one folder are kept in one directory. -/
theorem Stores.same_directory {source source' : PackSource} {keyed keyed' : Text × Tes4File}
    (h : Stores root source keyed) (h' : Stores root source' keyed') (hfolder : source.path.dropLast = source'.path.dropLast) :
    (splitKey keyed.1).1 = (splitKey keyed'.1).1 := by
  have hlength : ∀ directories : Path, (root ++ directories).length ≠ root.dropLast.length ∨ root = [] := by
    intro directories
    by_cases hroot : root = []
    · exact .inr hroot
    · have := List.length_pos_iff.mpr hroot
      left
      rw [List.length_append, List.length_dropLast]
      omega
  -- a file at the root itself shares its folder with no file beneath it
  have hbeneath : ∀ {source source' : PackSource} {keyed : Text × Tes4File}, Stores root source keyed →
      source.path = root → ∀ directories name, source'.path = root ++ (directories ++ [name]) →
      source.path.dropLast ≠ source'.path.dropLast := by
    intro source source' keyed h hroot directories name hpath hfolder
    rw [hroot, hpath, ← List.append_assoc, List.dropLast_concat] at hfolder
    rcases hlength directories with hne | hnil
    · exact hne (congrArg List.length hfolder).symm
    · exact h.path.1 (by rw [hroot, hnil]; rfl)
  rcases h.relative with hroot | ⟨directories, name, hpath⟩ <;> rcases h'.relative with hroot' | ⟨directories', name', hpath'⟩
  · rw [h.key.atRoot hroot, h'.key.atRoot hroot']
  · exact absurd hfolder (hbeneath h hroot _ _ hpath')
  · exact absurd hfolder.symm (hbeneath h' hroot' _ _ hpath)
  · have hsame : directories = directories' := by
      rw [hpath, hpath', ← List.append_assoc, ← List.append_assoc, List.dropLast_concat, List.dropLast_concat] at hfolder
      exact List.append_cancel_left hfolder
    refine OsStr.ofText_injective ?_
    rw [← (h.key.split directories name hpath).1, ← (h'.key.split directories' name' hpath').1, hsame]

/-! ## The BSA of keyed files -/

theorem tes4FileBytes_le (hlayout : Tes4Layout ba2) {source : PackSource} {keyed : Text × Tes4File}
    (h : Stores root source keyed) : tes4FileBytes keys ((splitKey keyed.1).2, keyed.2) ≤ fileSize source := by
  have hname := (hlayout.fileName (splitKey keyed.1).2).trans h.name_le
  have hstored := h.stored
  simp only [tes4FileBytes, fileSize]
  omega

/-- A directory grows by its new file at most. -/
theorem addFileTo_bytes_le (name : Text) (file : Tes4File) (directory : Tes4Directory keys) :
    ((addFileTo name file directory).entries.map (tes4FileBytes keys)).sum ≤
      (directory.entries.map (tes4FileBytes keys)).sum + tes4FileBytes keys (name, file) := by
  unfold addFileTo
  split_ifs with hnone
  · have hsum := OrdMap.sum_upsert (m := directory) (k := name) (g := fun _ => file) (tes4FileBytes keys)
    rw [Option.isNone_iff_eq_none.mp hnone] at hsum
    simp only [Option.map_none, Option.getD_none] at hsum
    omega
  · exact Nat.le_add_right _ _

/-- What one file more adds to a BSA: its own bytes, and those of its folder where that is new. -/
theorem addTes4_bytes_le (record : Nat) (archive : Tes4Archive keys) (keyed : Text × Tes4File) :
    tes4Bytes record (addTes4 archive keyed) ≤ tes4Bytes record archive +
      tes4FileBytes keys ((splitKey keyed.1).2, keyed.2) +
      if archive.contains (splitKey keyed.1).1 then 0 else record + 1 + textBytes (keys.directoryName (splitKey keyed.1).1) + 1 := by
  have hsum := OrdMap.sum_upsert (m := archive) (k := (splitKey keyed.1).1)
    (g := fun directory => addFileTo (splitKey keyed.1).2 keyed.2 (directory.getD OrdMap.empty))
    (tes4FolderBytes keys record)
  unfold tes4Bytes addTes4 OrdMap.contains
  cases hget : archive.get? (splitKey keyed.1).1 with
  | none =>
    simp only [hget, Option.map_none, Option.getD_none] at hsum
    have hle := addFileTo_bytes_le (splitKey keyed.1).2 keyed.2 (OrdMap.empty : Tes4Directory keys)
    have hempty : ((OrdMap.empty : Tes4Directory keys).entries.map (tes4FileBytes keys)).sum = 0 := rfl
    rw [hempty] at hle
    simp only [tes4FolderBytes] at hsum
    simp only [Option.isSome_none, Bool.false_eq_true, if_false]
    omega
  | some entry =>
    simp only [hget, Option.map_some, Option.getD_some] at hsum
    have hle := addFileTo_bytes_le (splitKey keyed.1).2 keyed.2 entry.2
    simp only [tes4FolderBytes] at hsum
    simp only [Option.isSome_some, if_true]
    omega

theorem contains_addTes4 {archive : Tes4Archive keys} {keyed : Text × Tes4File} {directory : Text} :
    (addTes4 archive keyed).contains directory = true ↔
      keys.directoryHash directory = keys.directoryHash (splitKey keyed.1).1 ∨ archive.contains directory = true := by
  unfold addTes4 OrdMap.contains
  rw [OrdMap.get?_upsert]
  split_ifs with h <;> simp [h]

/-- **The BSA of some files takes at most their structural bound**, and has all their directories. -/
theorem tes4Archive_bytes_le (hlayout : Tes4Layout ba2) (record : Nat) (files : List (PackSource × Text × Tes4File))
    (h : ∀ file ∈ files, Stores root file.1 file.2) :
    tes4Bytes record (tes4Archive (files.map Prod.snd) : Tes4Archive keys) ≤
        structuralBound record (files.map Prod.fst) ∧
      ∀ file ∈ files, (tes4Archive (files.map Prod.snd) : Tes4Archive keys).contains (splitKey file.2.1).1 = true := by
  induction files using List.reverseRecOn with
  | nil => exact ⟨le_rfl, nofun⟩
  | append_singleton files file ih =>
    obtain ⟨hbound, hholds⟩ := ih fun other hother => h other (by simp [hother])
    have hfile := h file (by simp)
    have harchive : (tes4Archive ((files ++ [file]).map Prod.snd) : Tes4Archive keys) =
        addTes4 (tes4Archive (files.map Prod.snd)) file.2 := by
      rw [List.map_append, tes4Archive, List.foldl_append]
      rfl
    rw [harchive, List.map_append, List.map_singleton, structuralBound_concat]
    constructor
    · have hadd := addTes4_bytes_le record (tes4Archive (files.map Prod.snd) : Tes4Archive keys) file.2
      have hbytes := tes4FileBytes_le hlayout hfile
      have hdirectory := (hlayout.directoryName (splitKey file.2.1).1).trans hfile.directory_le
      by_cases hold : file.1.path.dropLast ∈ foldersOf (files.map Prod.fst)
      · -- a folder that is not new has its directory
        obtain ⟨source, hsource, hfolder⟩ := List.mem_map.mp (List.mem_toFinset.mp hold)
        obtain ⟨other, hother, rfl⟩ := List.mem_map.mp hsource
        have hsame := (h other (by simp [hother])).same_directory hfile hfolder
        rw [if_pos (hsame ▸ hholds other hother)] at hadd
        rw [if_pos hold]
        omega
      · rw [if_neg hold]
        have hnew : (if (tes4Archive (files.map Prod.snd) : Tes4Archive keys).contains (splitKey file.2.1).1 = true then 0
            else record + 1 + textBytes (keys.directoryName (splitKey file.2.1).1) + 1) ≤
            folderSize record file.1.path.dropLast := by
          unfold folderSize
          split_ifs <;> omega
        omega
    · intro other hother
      rw [contains_addTes4]
      rcases List.mem_append.mp hother with hmem | hlast
      · exact .inr (hholds other hmem)
      · rw [List.mem_singleton.mp hlast]
        exact .inl rfl

/-! ## The writer -/

/-- What a stored file takes is at most what was read. -/
theorem storedBytes_le {readSource : Path → Option Bytes} {version : ArchiveVersion} {compressed : Bool} {path : Path}
    {file : Tes4File} (h : tes4Source ba2 readSource version compressed path = .ok file) :
    ∃ bytes, readSource path = some bytes ∧ file.storedBytes ≤ bytes.length := by
  unfold tes4Source orError at h
  cases hread : readSource path with
  | none => simp [hread, bind, Except.bind] at h
  | some bytes =>
    refine ⟨bytes, rfl, ?_⟩
    simp only [hread, bind, Except.bind] at h
    split_ifs at h with hcompressed
    · unfold smallerStored at h
      cases hpacked : ba2.compress version ⟨bytes, none⟩ with
      | none => simp [hpacked] at h
      | some packed =>
        simp only [hpacked] at h
        split_ifs at h with hsmaller <;> simp only [Except.ok.injEq] at h <;> subst h
        · unfold Tes4File.storedBytes
          split_ifs <;> omega
        · exact le_of_eq (Nat.zero_add _)
    · simp only [pure, Except.pure, Except.ok.injEq] at h
      subst h
      exact le_of_eq (Nat.zero_add _)

/-- The sources have the sizes they were planned with. -/
def Unchanged (readSource : Path → Option Bytes) (group : List PackSource) : Prop :=
  ∀ source ∈ group, ∀ bytes, readSource source.path = some bytes → bytes.length = source.size

/-- A source that is keyed and read is stored. -/
theorem stores_of_read {readSource : Path → Option Bytes} {version : ArchiveVersion} {compressed : Bool}
    {source : PackSource} {keyedPath : Text × Path} {keyed : Text × Tes4File} (hpath : IsFilePath source.path)
    (hsize : ∀ bytes, readSource source.path = some bytes → bytes.length = source.size)
    (hkey : (archiveKey source.path root).map (fun key => (key, source.path)) = .ok keyedPath)
    (hread : (tes4Source ba2 readSource version compressed keyedPath.2).map (fun file => (keyedPath.1, file)) = .ok keyed) :
    Stores root source keyed := by
  cases hk : archiveKey source.path root with
  | error e => simp [hk, Except.map] at hkey
  | ok key =>
    simp only [hk, Except.map, Except.ok.injEq] at hkey
    subst hkey
    cases hr : tes4Source ba2 readSource version compressed source.path with
    | error e => simp [hr, Except.map] at hread
    | ok file =>
      simp only [hr, Except.map, Except.ok.injEq] at hread
      subst hread
      obtain ⟨bytes, hbytes, hle⟩ := storedBytes_le hr
      exact ⟨hpath, keyed_of_archiveKey hpath.2 hk, hsize bytes hbytes ▸ hle⟩

/-- A BSA that is prepared is that of keyed files, each no larger than its source. -/
theorem prepared_bsa {readSource : Path → Option Bytes} {compress : Bool} {data : ArchiveData}
    {group : List PackSource} {prepared : PreparedArchive keys} {record : Nat}
    (hrecord : folderRecord data.version = some record) (hfiles : data.files = group.map PackSource.path)
    (hpaths : ∀ source ∈ group, IsFilePath source.path) (hsizes : Unchanged readSource group)
    (h : prepare ba2 readSource compress data root = .ok prepared) :
    ∃ files : List (PackSource × Text × Tes4File), files.map Prod.fst = group ∧
      (∀ file ∈ files, Stores root file.1 file.2) ∧
      prepared = .tes4 (tes4Archive (files.map Prod.snd)) (tes4Options data.version (data.compressed compress))
        data.sizeCap := by
  unfold prepare at h
  cases hkeyed : keyedPaths data root with
  | error e => simp [hkeyed, bind, Except.bind] at h
  | ok sources =>
    have hversion : ∃ files, readSources (tes4Source ba2 readSource data.version (data.compressed compress)) sources =
        .ok files ∧ prepared = .tes4 (tes4Archive files) (tes4Options data.version (data.compressed compress))
          data.sizeCap := by
      simp only [hkeyed, bind, Except.bind] at h
      cases hversion : data.version <;> simp only [hversion, folderRecord, reduceCtorEq] at h hrecord <;>
        · split at h
          · cases h
          · next files hread =>
            simp only [pure, Except.pure, Except.ok.injEq] at h
            exact ⟨files, hread, h.symm⟩
    obtain ⟨files, hread, rfl⟩ := hversion
    have hpairs := forall₂_of_mapM_ok hkeyed
    have hreads := forall₂_of_mapM_ok hread
    rw [hfiles, List.forall₂_map_left_iff] at hpairs
    have hstores : List.Forall₂ (Stores root) group files := by
      clear hfiles h hkeyed hread
      induction hpairs generalizing files with
      | nil =>
        cases hreads
        exact .nil
      | @cons source keyedPath group sources hkey _ ih =>
        cases hreads with
        | @cons _ keyed _ files hfile hrest =>
          refine .cons ?_ (ih (fun s hs => hpaths s (List.mem_cons_of_mem _ hs))
            (fun s hs => hsizes s (List.mem_cons_of_mem _ hs)) files hrest)
          exact stores_of_read (hpaths source List.mem_cons_self) (hsizes source List.mem_cons_self) hkey hfile
    refine ⟨group.zip files, List.map_fst_zip (le_of_eq hstores.length_eq), fun file hfile => ?_, ?_⟩
    · exact (List.forall₂_iff_zip.mp hstores).2 hfile
    · rw [List.map_snd_zip (le_of_eq hstores.length_eq.symm)]

/-- An error that is not that of the size cap. -/
def NotOverCap (e : ArchiveError) : Prop := ∀ path size cap, e ≠ .archiveOverSizeCap path size cap

theorem orError_notOverCap {α : Type} {e e' : ArchiveError} {o : Option α} (he : NotOverCap e')
    (h : orError e' o = .error e) : NotOverCap e := by
  cases o with
  | none => exact Except.error.inj h ▸ he
  | some => cases h

theorem archiveKey_notOverCap {path : Path} {e : ArchiveError} (h : archiveKey path root = .error e) : NotOverCap e := by
  unfold archiveKey at h
  split at h
  · obtain rfl := Except.error.inj h
    exact nofun
  · split at h
    · obtain rfl := Except.error.inj h
      exact nofun
    · cases h

theorem tes4Source_notOverCap {readSource : Path → Option Bytes} {version : ArchiveVersion} {compressed : Bool}
    {path : Path} {e : ArchiveError} (h : tes4Source ba2 readSource version compressed path = .error e) : NotOverCap e := by
  have hother : NotOverCap (.tes4 path) := nofun
  unfold tes4Source at h
  cases hread : orError (.tes4 path) (readSource path) with
  | error e' =>
    simp only [hread, bind, Except.bind] at h
    obtain rfl := Except.error.inj h
    exact orError_notOverCap hother hread
  | ok bytes =>
    simp only [hread, bind, Except.bind] at h
    split_ifs at h
    · exact orError_notOverCap hother h
    · cases h

theorem fo4Source_notOverCap {readSource : Path → Option Bytes} {format : Fo4Format} {compressed : Bool}
    {path : Path} {e : ArchiveError} (h : fo4Source ba2 readSource format compressed path = .error e) : NotOverCap e := by
  have hother : NotOverCap (.fo4 path) := nofun
  unfold fo4Source at h
  cases hread : orError (.fo4 path) (readSource path) with
  | error e' =>
    simp only [hread, bind, Except.bind] at h
    obtain rfl := Except.error.inj h
    exact orError_notOverCap hother hread
  | ok bytes =>
    simp only [hread, bind, Except.bind] at h
    exact orError_notOverCap hother h

theorem map_eq_error {α β ε : Type} {f : α → β} {r : Except ε α} {e : ε} (h : r.map f = .error e) : r = .error e := by
  cases r with
  | error e' => exact congrArg Except.error (Except.error.inj h)
  | ok => cases h

theorem readSources_notOverCap {α : Type} {read : Path → Except ArchiveError α} {sources : List (Text × Path)}
    {e : ArchiveError} (hread : ∀ path e, read path = .error e → NotOverCap e) (h : readSources read sources = .error e) :
    NotOverCap e := by
  obtain ⟨source, -, hsource⟩ := exists_of_mapM_error h
  exact hread source.2 e (map_eq_error hsource)

/-- Preparing fails with other errors. -/
theorem prepare_notOverCap {readSource : Path → Option Bytes} {compress : Bool} {data : ArchiveData} {e : ArchiveError}
    (h : prepare ba2 readSource compress data root = .error e) : NotOverCap e := by
  unfold prepare at h
  cases hkeyed : keyedPaths data root with
  | error e' =>
    simp only [hkeyed, bind, Except.bind] at h
    obtain rfl := Except.error.inj h
    obtain ⟨path, -, hpath⟩ := exists_of_mapM_error hkeyed
    exact archiveKey_notOverCap (map_eq_error hpath)
  | ok sources =>
    simp only [hkeyed, bind, Except.bind] at h
    cases hversion : data.version <;> simp only [hversion] at h <;>
      · split at h
        · next hread =>
          obtain rfl := Except.error.inj h
          first
          | exact readSources_notOverCap (fun _ _ => tes4Source_notOverCap) hread
          | exact readSources_notOverCap (fun _ _ => fo4Source_notOverCap) hread
        · cases h

/-- What the writer makes of an Archive keeps the bound of its layout, which is within the cap. -/
def WithinBound (ba2 : Ba2 keys) (readSource : Path → Option Bytes) (compress : Bool) (root outPath : Path)
    (data : ArchiveData) (layout : CappedLayout) : Prop :=
  layout.bound ≤ layout.cap ∧
    (∀ bytes, writeArchiveInto ba2 readSource compress data root outPath = .ok bytes → bytes.length ≤ layout.bound) ∧
    ∀ e, writeArchiveInto ba2 readSource compress data root outPath = .error e → NotOverCap e

/-- What planning keeps of a capped Archive and its files, whatever their sizes sum to. -/
structure Capped (settings : Settings) (data : ArchiveData) (group : List PackSource) : Prop extends
    Laid settings data group where
  files : data.files = group.map PackSource.path
  version : ∀ cap, settings.sizeCap = some cap → data.version = settings.format

theorem capped_new (hrules : CappedRules settings) (type : ArchiveType) : Capped settings (.new settings type) [] where
  toLaid := laid_new hrules type
  files := rfl
  version cap h := hrules.version cap type h

theorem Capped.added (hrules : CappedRules settings) {data data' : ArchiveData} {group : List PackSource}
    {source : PackSource} (h : Capped settings data group) (ha : Added checks data source.path source.size data') :
    Capped settings data' (group ++ [source]) where
  toLaid := h.toLaid.added hrules ha
  files := by rw [ha.files, h.files, List.map_append, List.map_singleton]
  version cap hcap := ha.version.trans (h.version cap hcap)

theorem Capped.absorbed (hrules : CappedRules settings) {data other data' other' : ArchiveData}
    {group group' : List PackSource} (h : Capped settings data group) (h' : Capped settings other group')
    (ha : Absorbed checks data other data' other') : Capped settings data' (group ++ group') where
  toLaid := h.toLaid.absorbed hrules h'.toLaid ha
  files := by rw [ha.files, h.files, h'.files, List.map_append]
  version cap hcap := ha.version.trans (h.version cap hcap)

/-- An Archive rebuilt from some files is one of them. -/
theorem capped_addAll (hrules : CappedRules settings) {data data' : ArchiveData} {group files : List PackSource}
    (h : Capped settings data group) (hadd : addAll checks data files = some (some data')) :
    Capped settings data' (group ++ files) := by
  induction files generalizing data group with
  | nil =>
    simp only [addAll, Option.pure_def, Option.some.injEq] at hadd
    rwa [← hadd, List.append_nil]
  | cons source files ih =>
    obtain ⟨data₁, hadded, hrest⟩ := added_of_addAll hadd
    rw [List.append_cons]
    exact ih (h.added hrules hadded) hrest

/-- **The writer keeps the bound of a capped Archive.** -/
theorem Capped.withinBound {readSource : Path → Option Bytes} {compress : Bool} {outPath : Path} {data : ArchiveData}
    {group : List PackSource} {layout : CappedLayout} (h : Capped settings data group)
    (hlibrary : Tes4Layout ba2) (hpaths : ∀ source ∈ group, IsFilePath source.path) (hsizes : Unchanged readSource group)
    (hlayout : data.layout = some layout) : WithinBound ba2 readSource compress root outPath data layout := by
  obtain ⟨cap, record, hcap, hrecord, rfl⟩ := layoutOf_eq_some.mp (h.layout.symm.trans hlayout)
  have hversion : folderRecord data.version = some record := by rw [h.version cap hcap, hrecord]
  have hle : structuralBound record group ≤ cap := h.fits cap record hcap hrecord
  have hsizeCap : data.sizeCap = some cap := by rw [ArchiveData.sizeCap, hlayout]; rfl
  -- what is prepared takes at most the bound, measured or written
  have hwrite : ∀ prepared, prepare ba2 readSource compress data root = .ok prepared →
      (∀ bytes, prepared.write ba2 outPath = .ok bytes → bytes.length ≤ structuralBound record group) ∧
        ∀ e, prepared.write ba2 outPath = .error e → NotOverCap e := by
    intro prepared hprepared
    obtain ⟨files, hgroup, hstores, rfl⟩ := prepared_bsa hversion h.files hpaths hsizes hprepared
    have hbytes : ∀ bytes, tes4Write ba2 (tes4Archive (files.map Prod.snd))
        (tes4Options data.version (data.compressed compress)) outPath = .ok bytes →
        bytes.length ≤ structuralBound record group := by
      intro bytes hok
      unfold tes4Write at hok
      split at hok
      · next written hwritten =>
        obtain rfl := Except.ok.inj hok
        rw [hlibrary.written _ _ _ record rfl rfl hversion hwritten, ← hgroup]
        exact (tes4Archive_bytes_le hlibrary record files hstores).1
      · cases hok
      · cases hok
    have herror : ∀ e, tes4Write ba2 (tes4Archive (files.map Prod.snd))
        (tes4Options data.version (data.compressed compress)) outPath = .error e → NotOverCap e := by
      intro e he
      unfold tes4Write at he
      split at he
      · cases he
      · obtain rfl := Except.error.inj he
        exact nofun
      · obtain rfl := Except.error.inj he
        exact nofun
    unfold PreparedArchive.write checkSizeCap
    simp only [hsizeCap, bind, Except.bind]
    cases htes4 : tes4Write ba2 (tes4Archive (files.map Prod.snd))
        (tes4Options data.version (data.compressed compress)) outPath with
    | error e =>
      refine ⟨nofun, fun e' he' => ?_⟩
      obtain rfl := Except.error.inj he'
      exact herror _ htes4
    | ok bytes =>
      simp only [if_neg (Nat.not_lt.mpr ((hbytes bytes htes4).trans hle)), pure, Except.pure]
      exact ⟨fun bytes' hok => by obtain rfl := Except.ok.inj hok; exact hbytes _ htes4, nofun⟩
  refine ⟨hle, ?_, ?_⟩
  all_goals
    unfold writeArchiveInto
    split_ifs
  · rintro _ ⟨rfl⟩
    exact Nat.zero_le _
  · intro bytes hok
    cases hprepared : prepare ba2 readSource compress data root with
    | error e => simp [hprepared, bind, Except.bind] at hok
    | ok prepared =>
      simp only [hprepared, bind, Except.bind] at hok
      exact (hwrite prepared hprepared).1 bytes hok
  · nofun
  · intro e he
    cases hprepared : prepare ba2 readSource compress data root with
    | error e' =>
      simp only [hprepared, bind, Except.bind] at he
      obtain rfl := Except.error.inj he
      exact prepare_notOverCap hprepared
    | ok prepared =>
      simp only [hprepared, bind, Except.bind] at he
      exact (hwrite prepared hprepared).2 e he

/-- **The bound of a BSA is a true bound**: what the writer makes of an Archive that a split or a merge gives, or of its
rebuilding from sources, takes at most the bound of its layout, which is within the cap; its check against the cap never
fires. -/
theorem written_within_bound {game : Game} {requestedLimit : Option UInt64} {root : Path} {sources : List PackSource}
    {split : SplitArchives} {merge : MergeSettings} {archives : List ArchiveData}
    (hs : SplitArchives.split checks root sources (.forProfile game requestedLimit) = some (.ok split))
    (hm : split.merge checks merge = some archives) (hlibrary : Tes4Layout ba2)
    (hpaths : ∀ source ∈ sources, IsFilePath source.path) (readSource : Path → Option Bytes)
    (hsizes : Unchanged readSource sources) (compress : Bool) (outPath : Path) (archive : ArchiveData)
    (harchive : archive ∈ archives) (layout : CappedLayout) (hlayout : archive.layout = some layout) :
    WithinBound ba2 readSource compress root outPath archive layout ∧
      ∀ files ⊆ sources, ∀ data,
        GameArchivePacker.rebuild checks (.forProfile game requestedLimit) ⟨archive.archiveType, files⟩ =
          some (some data) →
        ∃ layout', data.layout = some layout' ∧ WithinBound ba2 readSource compress root outPath data layout' := by
  have hrules := forProfile_cappedRules game requestedLimit
  obtain ⟨full, opened, hg, hperm⟩ := split_induction (P := Capped (.forProfile game requestedLimit))
    (capped_new hrules) (fun _ _ _ _ _ h _ ha => h.added hrules ha) hs
  obtain ⟨groups, hgroups, hflat⟩ := merge_induction (fun _ _ h => h.files)
    (fun h h' _ _ ha => h.absorbed hrules h' ha) hg hm
  have hsub : ∀ source ∈ groups.flatten, source ∈ sources := fun source hmem =>
    (List.mem_filter.mp ((hflat.trans hperm).mem_iff.mp hmem)).1
  constructor
  · obtain ⟨group, hgroup, hcapped⟩ := exists_of_forall₂ hgroups harchive
    have hmem : ∀ source ∈ group, source ∈ sources := fun source hsource =>
      hsub source (List.mem_flatten.mpr ⟨group, hgroup, hsource⟩)
    exact hcapped.withinBound hlibrary (fun source h => hpaths source (hmem source h))
      (fun source h => hsizes source (hmem source h)) hlayout
  · intro files hfiles data hdata
    have hcapped := capped_addAll hrules (capped_new hrules archive.archiveType) hdata
    rw [List.nil_append] at hcapped
    obtain ⟨group, -, hkept⟩ := exists_of_forall₂ hgroups harchive
    obtain ⟨cap, record, hcap, hrecord, -⟩ := layoutOf_eq_some.mp (hkept.layout.symm.trans hlayout)
    have hlayout' := hcapped.layout.trans (layoutOf_of_capped hcap hrecord files)
    exact ⟨_, hlayout', hcapped.withinBound hlibrary (fun source h => hpaths source (hfiles h))
      (fun source h => hsizes source (hfiles h)) hlayout'⟩

/-! ### A file alone -/

/-- A file to pack. -/
def loneSources : List PackSource := mixedSources.take 1

/-- The partitions of the file. -/
def loneSplit : SplitArchives :=
  match SplitArchives.placeAll .on (.forProfile .sse none) (pathOf ["m"]) (.start (.forProfile .sse none)) loneSources with
  | some (.ok split) => split
  | _ => .start (.forProfile .sse none)

/-- Its Archive. -/
def loneArchives : List ArchiveData := (loneSplit.merge .on ⟨false, false⟩).getD []

/-- The keys of its folder and name. -/
def loneKeys : Ba2Keys where
  directoryHash _ := 3616173460730307955
  directoryName name := name
  fileHash _ := 10578188054319693921
  fileName name := name
  entryHash _ := 0
  entryName name := name

/-- The entries of its BSA. -/
def loneEntries : List (Text × List (Text × Tes4File)) :=
  [("meshes".toList, [("a.nif".toList, ⟨[97, 98, 99], none⟩)])]

/-- Its BSA. -/
def loneBytes : Bytes := [
  66, 83, 65, 0, 105, 0, 0, 0, 36, 0, 0, 0, 3, 0, 0, 0, 1, 0, 0, 0, 1, 0, 0, 0, 7, 0, 0, 0, 6, 0, 0, 0, 0, 0, 0, 0,
  115, 101, 6, 109, 154, 58, 47, 50, 1, 0, 0, 0, 0, 0, 0, 0, 66, 0, 0, 0, 0, 0, 0, 0,
  7, 109, 101, 115, 104, 101, 115, 0, 97, 128, 1, 97, 253, 69, 205, 146, 3, 0, 0, 0, 90, 0, 0, 0,
  97, 46, 110, 105, 102, 0, 97, 98, 99]

/-- A library that writes that BSA, and refuses all else. -/
def loneBa2 : Ba2 loneKeys where
  compress _ _ := none
  extractTes4 _ file := some file.data
  writeTes4 archive options :=
    if archive.entries.map (fun entry => (entry.1, entry.2.entries)) = loneEntries ∧ options = tes4Options .sse false then
      .ok loneBytes
    else .error .other
  readFile _ _ _ := none
  extractFo4 _ _ := none
  writeFo4 _ _ := none
  read _ := none

theorem loneBa2_layout : Tes4Layout loneBa2 where
  written archive options bytes record _ _ hrecord h := by
    simp only [loneBa2] at h
    split_ifs at h with hlone
    obtain rfl := Except.ok.inj h
    obtain ⟨hentries, rfl⟩ := hlone
    obtain rfl : 24 = record := Option.some.inj hrecord
    have hsum : (archive.entries.map (tes4FolderBytes loneKeys 24)).sum = ((archive.entries.map fun entry =>
        (entry.1, entry.2.entries)).map fun entry => 24 + 1 + textBytes (loneKeys.directoryName entry.1) + 1 +
          (entry.2.map (tes4FileBytes loneKeys)).sum).sum := by
      rw [List.map_map]
      rfl
    rw [tes4Bytes, hsum, hentries]
    decide
  directoryName _ := le_max_right _ _
  fileName _ := le_max_right _ _

/-- What is read of the file. -/
def loneSource (path : Path) : Option Bytes := if path = pathOf ["m", "meshes", "a.nif"] then some [97, 98, 99] else none

/-- The file, planned and written: its BSA takes 93 bytes of the 95 planned. -/
theorem written_within_bound_sample :
    writeArchiveInto loneBa2 loneSource false (loneArchives.getD 0 (.new (.forProfile .sse none) .standard)) (pathOf ["m"])
      (pathOf ["m", "m.bsa"]) = .ok loneBytes ∧
    ∀ layout, (loneArchives.getD 0 (.new (.forProfile .sse none) .standard)).layout = some layout →
      WithinBound loneBa2 loneSource false (pathOf ["m"]) (pathOf ["m", "m.bsa"])
        (loneArchives.getD 0 (.new (.forProfile .sse none) .standard)) layout := by
  have hsplit : SplitArchives.split .on (pathOf ["m"]) loneSources (.forProfile .sse none) = some (.ok loneSplit) := by
    rw [split_of_sorted (by decide +kernel)]
    decide +kernel
  have hmerge : loneSplit.merge .on ⟨false, false⟩ = some loneArchives := by decide +kernel
  have hsizes : Unchanged loneSource loneSources := by
    intro source hsource bytes hbytes
    obtain rfl := List.mem_singleton.mp hsource
    obtain rfl : [97, 98, 99] = bytes := Option.some.inj hbytes
    rfl
  refine ⟨by decide +kernel, fun layout hlayout => ?_⟩
  exact (written_within_bound hsplit hmerge loneBa2_layout (by decide) loneSource hsizes false _ _ (by decide +kernel)
    layout hlayout).1

end Cao.Pack
