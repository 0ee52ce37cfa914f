import Cao.Pack.Listed

/-!
# Packed and read back

What reading a written Archive gives of each of its sources.

* `nested_of_packed`: no file at the root is packed;
* `Packable`, `Packable.regular`, **`Packable.foldedGamePath`**: a source whose name the library keeps;
* `FoldersTell`: folders the library takes for one read alike;
* **`written_reads_back`**: each source is listed once under its path, and extracted whole by any spelling of its name.
-/

namespace Cao.Pack

variable {keys : Ba2Keys} {ba2 : Ba2 keys} {limit : Nat} {root path relative : Path}

/-! ## Planned sources -/

/-- A rule for files below folders: its extension has a dot, and its folders none. -/
def AllowedPath.Below (rule : AllowedPath) : Bool :=
  rule.extension.contains '.' && rule.directories.all fun directory => !directory.contains '.'

theorem mem_of_mem_splitFileName {name : Text} {c : Char} (h : c ∈ (splitFileName name).2) : c ∈ name := by
  unfold splitFileName at h
  split_ifs at h
  · cases h
  · split at h
    · split_ifs at h
      · exact List.mem_of_mem_drop h
      · cases h
    · cases h

theorem mem_of_eqIgnoreAsciiCase {s t : Text} {c : Char} (hc : Ascii.Caseless c) (h : eqIgnoreAsciiCase s t = true) :
    c ∈ s ↔ c ∈ t := by
  rw [← mem_map_toLower hc, of_decide_eq_true h, mem_map_toLower hc]

/-- A rule for files below folders matches no file at the root. -/
theorem AllowedPath.Below.nested {rule : AllowedPath} (hrule : rule.Below = true)
    (h : rule.check (root ++ relative) root = true) (hne : relative ≠ []) : 2 ≤ relative.length := by
  unfold AllowedPath.Below at hrule
  rw [Bool.and_eq_true, List.contains_iff_mem, List.all_eq_true] at hrule
  unfold AllowedPath.check at h
  split_ifs at h with hextension
  rw [relativeTo_eq_some.mpr rfl] at h
  obtain ⟨name, rest, rfl⟩ := List.exists_cons_of_ne_nil hne
  by_contra hlength
  obtain rfl : rest = [] := by
    simp only [List.length_cons] at hlength
    exact List.length_eq_zero_iff.mp (by omega)
  simp only at h
  cases htext : name.toStr with
  | none => simp [htext] at h
  | some text =>
    simp only [htext, List.any_eq_true] at h
    obtain ⟨directory, hdirectory, hsame⟩ := h
    have hdot : '.' ∈ extensionOf (root ++ [name]) :=
      (mem_of_eqIgnoreAsciiCase (by decide) (by simpa using hextension)).mpr hrule.1
    have htext' : '.' ∈ text := by
      unfold extensionOf fileName at hdot
      simp only [List.getLast?_append, List.getLast?_singleton, Option.some_or, Option.getD_some, htext] at hdot
      exact mem_of_mem_splitFileName hdot
    have hin := (mem_of_eqIgnoreAsciiCase (by decide) hsame).mp htext'
    simpa [hin] using hrule.2 directory hdirectory

theorem get_below (game : Game) : ((Settings.get game).standardFiles ++ (Settings.get game).textureFiles ++
    (Settings.get game).incompressibleFiles).all AllowedPath.Below = true := by
  have hsse : (standardSse ++ textureSse ++ incompressibleFiles).all AllowedPath.Below = true := by
    unfold standardSse textureSse incompressibleFiles
    repeat rw [String.toList_ofList]
    decide
  have hfo4 : (standardFo4 ++ textureFo4 ++ incompressibleFiles).all AllowedPath.Below = true := by
    unfold standardFo4 textureFo4 incompressibleFiles
    repeat rw [String.toList_ofList]
    decide
  cases game with
  | sse | tes5 => exact hsse
  | fo4 => exact hfo4

/-- **No file at the root is packed.** -/
theorem nested_of_packed {game : Game} {requestedLimit : Option UInt64} (hne : relative ≠ [])
    (h : (packedAs (fileType (root ++ relative) root (.forProfile game requestedLimit))).isSome = true) :
    2 ≤ relative.length := by
  have hbelow := get_below game
  simp only [List.all_append, Bool.and_eq_true, List.all_eq_true] at hbelow
  unfold fileType at h
  split_ifs at h with hstandard htexture hincompressible
  · obtain ⟨rule, hrule, hcheck⟩ := List.any_eq_true.mp hstandard
    exact AllowedPath.Below.nested (hbelow.1.1 rule hrule) hcheck hne
  · obtain ⟨rule, hrule, hcheck⟩ := List.any_eq_true.mp htexture
    exact AllowedPath.Below.nested (hbelow.1.2 rule hrule) hcheck hne
  · obtain ⟨rule, hrule, hcheck⟩ := List.any_eq_true.mp hincompressible
    exact AllowedPath.Below.nested (hbelow.2 rule hrule) hcheck hne
  · cases h
  · cases h
  · cases h

/-- A source with the components of its path beneath the root: each as a directory lists it, of an accepted name that is
short enough to be kept. -/
structure Packable (limit : Nat) (root path relative : Path) : Prop where
  path_eq : path = root ++ relative
  real : ∀ name ∈ relative, RealPart name.lossy
  accepted : ∃ gamePath, canonicalArchiveEntryPath (gamePathText relative) = .ok gamePath
  short : nameBytes relative < limit

theorem map_swap_intercalate {a b : Char} {parts : List Text} (h : ∀ part ∈ parts, a ∉ part) :
    ([a].intercalate parts).map (fun c => if c = a then b else c) = [b].intercalate parts := by
  have hparts : parts.map (List.map fun c => if c = a then b else c) = parts := by
    refine (List.map_congr_left fun part hpart => ?_).trans (List.map_id parts)
    refine (List.map_congr_left fun c hc => if_neg ?_).trans (List.map_id part)
    rintro rfl
    exact h part hpart hc
  rw [map_intercalate, hparts, List.map_singleton, if_pos rfl]

theorem noSlash_intercalate {parts : List Text} (h : ∀ part ∈ parts, EntryPart part) : '/' ∉ ['\\'].intercalate parts := by
  intro hmem
  rcases mem_intercalate.mp hmem with ⟨hslash, -⟩ | ⟨part, hpart, hmem⟩
  · exact absurd hslash (by decide)
  · exact (h part hpart).noSlash hmem

theorem backslashed_of_notMem {name : Text} (h : '/' ∉ name) : backslashed name = name := by
  refine (List.map_congr_left fun c hc => if_neg ?_).trans (List.map_id name)
  rintro rfl
  exact h hc

theorem unbroken_intercalate {parts : List Text} (hne : parts ≠ []) (h : ∀ part ∈ parts, EntryPart part) :
    Unbroken (['\\'].intercalate parts) := by
  unfold Unbroken
  rw [backslashed_of_notMem (noSlash_intercalate h),
    List.splitOn_intercalate '\\' (fun part hpart => (h part hpart).noBackslash) hne]
  exact fun part hpart => (h part hpart).nonempty

namespace Packable

variable {key : Text}

theorem relative_ne (h : Packable limit root path relative) : relative ≠ [] := by
  rintro rfl
  obtain ⟨gamePath, hgamePath⟩ := h.accepted
  cases hgamePath

/-- The components are safe. -/
theorem safe (h : Packable limit root path relative) : ∀ part ∈ relative.map OsStr.lossy, EntryPart part := by
  obtain ⟨gamePath, hgamePath⟩ := h.accepted
  refine (canonicalArchiveEntryPath_accepts (by simpa using h.relative_ne) (fun part hpart => ?_) hgamePath).2
  obtain ⟨name, hname, rfl⟩ := List.mem_map.mp hpart
  exact h.real name hname

/-- The key is made of the components. -/
theorem key_eq (h : Packable limit root path relative) (hkey : archiveKey path root = .ok key) :
    key = ['\\'].intercalate (relative.map OsStr.lossy) := by
  unfold archiveKey at hkey
  rw [relativeTo_eq_some.mpr h.path_eq] at hkey
  simp only at hkey
  cases htext : (nativeText relative).toStr with
  | none => simp [htext] at hkey
  | some text =>
    have hjoined : text = ['\\'].intercalate (relative.map OsStr.lossy) := by
      have hlossy := congrArg OsStr.lossy (OsStr.eq_ofText_of_toStr htext)
      rw [OsStr.lossy_ofText] at hlossy
      exact hlossy.symm.trans (map_intercalate _ _ _)
    simp only [htext, Except.ok.injEq] at hkey
    rw [← hkey, ← hjoined]
    exact backslashed_of_notMem (hjoined ▸ noSlash_intercalate h.safe)

theorem gamePath_backslashed (h : Packable limit root path relative) (hkey : archiveKey path root = .ok key) :
    backslashed (gamePathText relative) = key := by
  rw [h.key_eq hkey]
  exact map_swap_intercalate fun part hpart => (h.safe part hpart).noSlash

/-- The key and the game path are one name to the library. -/
theorem normalizedName_key (h : Packable limit root path relative) (hkey : archiveKey path root = .ok key) :
    normalizedName key = normalizedName (gamePathText relative) := by
  unfold normalizedName
  rw [h.gamePath_backslashed hkey, backslashed_archiveKey hkey]

/-- **The game path of the listed name.** -/
theorem foldedGamePath (h : Packable limit root path relative) (hkey : archiveKey path root = .ok key) :
    foldedGamePath (normalizedName key) = some ((gamePathText relative).map Char.toLower) := by
  have hlower : normalizedName key = ['\\'].intercalate ((relative.map OsStr.lossy).map (List.map Char.toLower)) := by
    unfold normalizedName
    rw [backslashed_archiveKey hkey, h.key_eq hkey, map_intercalate]
    rfl
  have hsafe : ∀ part ∈ (relative.map OsStr.lossy).map (List.map Char.toLower), EntryPart part := by
    intro part hpart
    obtain ⟨name, hname, rfl⟩ := List.mem_map.mp hpart
    exact (h.safe name hname).lower
  have hslashed := map_swap_intercalate (b := '/') fun part hpart => (hsafe part hpart).noBackslash
  rw [hlower, foldedGamePath_of_parts (by simpa using h.relative_ne) hsafe hslashed]
  have hgame : (gamePathText relative).map Char.toLower =
      ['/'].intercalate ((relative.map OsStr.lossy).map (List.map Char.toLower)) := map_intercalate _ _ _
  rw [← hgame, List.map_map]
  exact congrArg some (List.map_congr_left fun c _ => Ascii.toLower_toLower c)

/-- **The library keeps the key in lower case.** -/
theorem regular (hkeys : NormalizingKeys keys limit) (h : Packable limit root path relative)
    (hkey : archiveKey path root = .ok key) (hnested : 2 ≤ relative.length) : Regular keys key := by
  have hsafe := h.safe
  have hjoined := h.key_eq hkey
  have hbytes : textBytes key < limit := by
    have hshort := h.short
    have hlossy : (nativeText relative).lossy = key := (map_intercalate _ _ _).trans hjoined.symm
    unfold nameBytes at hshort
    rwa [hlossy] at hshort
  have hlength : 2 ≤ (relative.map OsStr.lossy).length := by rwa [List.length_map]
  generalize relative.map OsStr.lossy = parts at hsafe hjoined hlength
  obtain ⟨folders, name, rfl⟩ := (parts.eq_nil_or_concat').resolve_left fun h => by simp [h] at hlength
  have hfolders : folders ≠ [] := by
    rintro rfl
    simp at hlength
  have hname := hsafe name (by simp)
  have hsafe' : ∀ part ∈ folders, EntryPart part := fun part hpart => hsafe part (by simp [hpart])
  have hunbroken := unbroken_intercalate (show folders ++ [name] ≠ [] by simp) hsafe
  have hnoSlash := noSlash_intercalate hsafe
  rw [← hjoined] at hunbroken hnoSlash
  rw [intercalate_append hfolders (by simp), List.intercalate_singleton] at hjoined
  have hsplit : splitKey key = (['\\'].intercalate folders, name) := by
    rw [hjoined, splitKey_append hname.noBackslash]
  have hlt : textBytes (['\\'].intercalate folders) < limit ∧ textBytes name < limit := by
    rw [hjoined] at hbytes
    unfold textBytes at hbytes ⊢
    rw [utf8_append, utf8_cons, List.length_append, List.length_append] at hbytes
    omega
  have hnameUnbroken : Unbroken name := by
    have hone := unbroken_intercalate (List.cons_ne_nil name []) (by simpa using hname)
    rwa [List.intercalate_singleton] at hone
  refine ⟨?_, ?_, hnoSlash, ?_, ?_, ?_, hkeys.entryName key hunbroken hbytes⟩
  · rw [hsplit, hjoined]
  · rw [hsplit]
    obtain ⟨part, hpart⟩ := List.exists_mem_of_ne_nil _ hfolders
    obtain ⟨c, hc⟩ := List.exists_mem_of_ne_nil _ (hsafe' part hpart).nonempty
    exact List.ne_nil_of_mem (mem_intercalate.mpr (.inr ⟨part, hpart, hc⟩))
  · rw [hsplit]
    exact hname.noBackslash
  · rw [hsplit]
    exact hkeys.directoryName _ (unbroken_intercalate hfolders hsafe') hlt.1
  · rw [hsplit]
    exact hkeys.fileName _ hnameUnbroken hlt.2

end Packable

/-! ## The sources of an Archive -/

/-- In a BSA, folders of one directory key are one folder, its case ignored. -/
def FoldersTell (keys : Ba2Keys) (data : ArchiveData) (root : Path) : Prop :=
  data.version = .tes5 ∨ data.version = .sse → ∀ p ∈ data.files, ∀ q ∈ data.files, ∀ a b,
    archiveKey p root = .ok a → archiveKey q root = .ok b →
      keys.directoryHash (splitKey a).1 = keys.directoryHash (splitKey b).1 →
        (splitKey a).1.map Char.toLower = (splitKey b).1.map Char.toLower

/-- No two sources have one key. -/
def KeysDistinct (keys : Ba2Keys) (data : ArchiveData) (root : Path) : Prop :=
  data.files.Pairwise fun p q => ¬KeyedAlike keys data.version root p q

variable {data : ArchiveData} {compress : Bool} {readSource : Path → Option Bytes} {prepared : PreparedArchive keys}

theorem KeysDistinct.eq_of_alike (h : KeysDistinct keys data root) {p q : Path} (hp : p ∈ data.files) (hq : q ∈ data.files)
    (halike : KeyedAlike keys data.version root p q) : p = q := by
  by_contra hne
  have hsymm : Std.Symm fun p q => ¬KeyedAlike keys data.version root p q :=
    ⟨fun _ _ hapart h => hapart h.symm⟩
  exact List.Pairwise.forall h hp hq hne halike

/-- A written Archive lists each source once, under its key in lower case. -/
theorem Prepared.lists (hkeys : IgnoringKeys keys) (h : Prepared ba2 readSource compress data root prepared)
    (hregular : ∀ path ∈ data.files, ∀ key, archiveKey path root = .ok key → Regular keys key)
    (hdistinct : KeysDistinct keys data root) (hfolders : FoldersTell keys data root) :
    ∃ names, Lists (archivedAssets prepared.container) names ∧
      ∀ name, name ∈ names ↔ ∃ path ∈ data.files, ∃ key, archiveKey path root = .ok key ∧ normalizedName key = name := by
  have hnames : ∀ {F : Type} {extracts : F → Option Bytes} {files : List (Text × F)},
      List.Forall₂ (Sourced extracts readSource root) data.files files →
        (∀ keyed ∈ files, ∃ path ∈ data.files, archiveKey path root = .ok keyed.1) ∧
        ∀ name, name ∈ (files.map fun keyed => normalizedName keyed.1) ↔
          ∃ path ∈ data.files, ∃ key, archiveKey path root = .ok key ∧ normalizedName key = name := by
    intro F extracts files hsourced
    have hback : ∀ keyed ∈ files, ∃ path ∈ data.files, archiveKey path root = .ok keyed.1 := by
      intro keyed hkeyed
      obtain ⟨path, hpath, hsource⟩ := exists_of_forall₂ hsourced.flip hkeyed
      exact ⟨path, hpath, Sourced.key hsource⟩
    refine ⟨hback, fun name => ?_⟩
    constructor
    · intro hmem
      obtain ⟨keyed, hkeyed, rfl⟩ := List.mem_map.mp hmem
      obtain ⟨path, hpath, hkey⟩ := hback keyed hkeyed
      exact ⟨path, hpath, keyed.1, hkey, rfl⟩
    · rintro ⟨path, hpath, key, hkey, rfl⟩
      obtain ⟨keyed, hkeyed, hsource⟩ := exists_of_forall₂ hsourced hpath
      obtain rfl := Except.ok.inj (hkey.symm.trans hsource.key)
      exact List.mem_map_of_mem hkeyed
  have honce : ∀ {p q : Path} {a b : Text}, p ∈ data.files → q ∈ data.files → archiveKey p root = .ok a →
      archiveKey q root = .ok b → SameKey keys data.version a b → a = b := by
    intro p q a b hp hq ha hb hsame
    obtain rfl := hdistinct.eq_of_alike hp hq ⟨a, b, ha, hb, hsame⟩
    exact Except.ok.inj (ha.symm.trans hb)
  cases h with
  | tes4 files hversion hsourced =>
    obtain ⟨hback, hmem⟩ := hnames hsourced
    refine ⟨_, lists_tes4 _ hkeys (fun keyed hkeyed => ?_) ?_ ?_, hmem⟩
    · obtain ⟨path, hpath, hkey⟩ := hback keyed hkeyed
      exact hregular path hpath keyed.1 hkey
    · intro a ha b hb hhash
      obtain ⟨keyed, hkeyed, rfl⟩ := List.mem_map.mp ha
      obtain ⟨keyed', hkeyed', rfl⟩ := List.mem_map.mp hb
      obtain ⟨p, hp, hkey⟩ := hback keyed hkeyed
      obtain ⟨q, hq, hkey'⟩ := hback keyed' hkeyed'
      exact hfolders hversion p hp q hq _ _ hkey hkey' hhash
    · intro a ha b hb hsame
      obtain ⟨p, hp, hkey⟩ := hback a ha
      obtain ⟨q, hq, hkey'⟩ := hback b hb
      exact honce hp hq hkey hkey' (by rcases hversion with hv | hv <;> rw [hv] <;> exact hsame)
  | fo4 files hversion hsourced =>
    obtain ⟨hback, hmem⟩ := hnames hsourced
    refine ⟨_, lists_fo4 _ hkeys (fun keyed hkeyed => ?_) ?_, hmem⟩
    · obtain ⟨path, hpath, hkey⟩ := hback keyed hkeyed
      exact hregular path hpath keyed.1 hkey
    · intro a ha b hb hsame
      obtain ⟨p, hp, hkey⟩ := hback a ha
      obtain ⟨q, hq, hkey'⟩ := hback b hb
      exact honce hp hq hkey hkey' (by rcases hversion with hv | hv <;> rw [hv] <;> exact hsame)

/-- Reading a written Archive gives a source back: it is listed once under its path, and any spelling of the listed name
extracts to its bytes. -/
def ReadsBack (ba2 : Ba2 keys) (archivePath : Path) (written : Bytes) (readSource : Path → Option Bytes)
    (root path : Path) : Prop :=
  ∃ container relative content asset, ba2.read written = some container ∧ path = root ++ relative ∧
    readSource path = some content ∧
    (archivedAssets container).filter (fun asset =>
      foldedGamePath asset.name = some ((gamePathText relative).map Char.toLower)) = [asset] ∧
    ∀ name, normalizedName name = normalizedName asset.name → extract ba2 archivePath container name = .ok content

/-- A source is extracted by any spelling of its key. -/
theorem Prepared.extract_spelled (hkeys : IgnoringKeys keys) (h : Prepared ba2 readSource compress data root prepared)
    (hdistinct : KeysDistinct keys data root) (archivePath : Path) (hpath : path ∈ data.files) {key : Text}
    (hkey : archiveKey path root = .ok key) :
    ∃ content, readSource path = some content ∧ ∀ name, normalizedName name = normalizedName key →
      extract ba2 archivePath prepared.container name = .ok content := by
  have hfind : ∀ name, normalizedName name = normalizedName key →
      firstWithKey keys data root (backslashed name) = some path := by
    intro name hname
    have hlower : (backslashed name).map Char.toLower = key.map Char.toLower := by
      rw [← backslashed_archiveKey hkey]
      exact hname
    rw [firstWithKey_congr (sameKey_of_lower hkeys data.version hlower)]
    obtain ⟨first, hfirst, hfound, halike⟩ := firstWithKey_within keys List.prefix_rfl hpath hkey
    rw [hfound, hdistinct.eq_of_alike hfirst hpath halike]
  obtain ⟨content, hread, -⟩ := h.extract_of_first hkeys archivePath (hfind key rfl)
  refine ⟨content, hread, fun name hname => ?_⟩
  obtain ⟨content', hread', hextract⟩ := h.extract_of_first hkeys archivePath (hfind name hname)
  rw [hextract, Option.some.inj (hread'.symm.trans hread)]

/-- **What is packed is read back**: of a planned Archive whose sources are told apart by their keys, and their folders
too, each source is listed once under its path, and any spelling of the listed name extracts to its bytes. -/
theorem written_reads_back (hkeys : NormalizingKeys keys limit) (hlibrary : Undoes ba2) (game : Game)
    (requestedLimit : Option UInt64) {outPath : Path} {written : Bytes}
    (hwrite : writeArchiveInto ba2 readSource compress data root outPath = .ok written)
    (hplanned : ∀ path ∈ data.files, (packedAs (fileType path root (.forProfile game requestedLimit))).isSome = true)
    (hsources : ∀ path ∈ data.files, ∃ relative, Packable limit root path relative)
    (hdistinct : KeysDistinct keys data root) (hfolders : FoldersTell keys data root) (archivePath : Path) :
    ∀ path ∈ data.files, ReadsBack ba2 archivePath written readSource root path := by
  intro path hpath
  unfold writeArchiveInto at hwrite
  rw [if_neg (List.ne_nil_of_mem hpath)] at hwrite
  cases hprepare : prepare ba2 readSource compress data root with
  | error e => simp [hprepare, bind, Except.bind] at hwrite
  | ok prepared =>
    simp only [hprepare, bind, Except.bind] at hwrite
    have hprepared := prepare_sourced hlibrary hprepare
    have hregular : ∀ path ∈ data.files, ∀ key, archiveKey path root = .ok key → Regular keys key := by
      intro path hpath key hkey
      obtain ⟨relative, h⟩ := hsources path hpath
      have hpacked := hplanned path hpath
      rw [h.path_eq] at hpacked
      exact h.regular hkeys hkey (nested_of_packed h.relative_ne hpacked)
    obtain ⟨names, hlists, hnames⟩ := hprepared.lists hkeys.toIgnoringKeys hregular hdistinct hfolders
    obtain ⟨relative, h⟩ := hsources path hpath
    obtain ⟨key, hkey⟩ := hprepared.keyed path hpath
    obtain ⟨content, hread, hextract⟩ := hprepared.extract_spelled hkeys.toIgnoringKeys hdistinct archivePath hpath hkey
    have honly : ∀ other ∈ names, decide (foldedGamePath other = some ((gamePathText relative).map Char.toLower)) = true ↔
        other = normalizedName key := by
      intro other hother
      obtain ⟨path', hpath', key', hkey', rfl⟩ := (hnames other).mp hother
      obtain ⟨relative', h'⟩ := hsources path' hpath'
      rw [decide_eq_true_iff, h'.foldedGamePath hkey', Option.some.injEq]
      constructor
      · intro hsame
        rw [h'.normalizedName_key hkey', h.normalizedName_key hkey, normalizedName_of_lower hsame]
      · intro hsame
        have hfolded := h'.foldedGamePath hkey'
        rw [hsame, h.foldedGamePath hkey] at hfolded
        exact (Option.some.inj hfolded).symm
    obtain ⟨asset, hfilter, hname⟩ := hlists.only ((hnames _).mpr ⟨path, hpath, key, hkey, rfl⟩) honly
    refine ⟨prepared.container, relative, content, asset, read_of_write hlibrary hwrite, h.path_eq, hread, hfilter, ?_⟩
    intro name hspelled
    rw [hname] at hspelled
    exact hextract name (hspelled.trans (normalizedName_idem key))

/-! ### Folders of one key -/

/-- The keys of two folders, which are one, and of two files. -/
def pairedKeys : Ba2Keys where
  directoryHash _ := 1875642065720863091
  directoryName := normalizedName
  fileHash name := if normalizedName name = "b.nif".toList then 10578188054336471138 else 10578188054319693921
  fileName := normalizedName
  entryHash _ := 0
  entryName := normalizedName

theorem pairedKeys_normalizing : NormalizingKeys pairedKeys 260 where
  directoryHash _ _ _ := rfl
  fileHash _ _ h := by simp only [pairedKeys, h]
  entryHash _ _ _ := rfl
  directoryName _ _ _ := rfl
  fileName _ _ _ := rfl
  entryName _ _ _ := rfl

/-- The BSA of two files in the first folder. -/
def pairedArchive : Tes4Archive pairedKeys :=
  tes4Archive [("meshes\\morinulanis\\a.nif".toList, ⟨[97], none⟩), ("meshes\\morinulanis\\b.nif".toList, ⟨[98], none⟩)]

/-- As it is written. -/
def pairedBytes : Bytes := [
  66, 83, 65, 0, 105, 0, 0, 0, 36, 0, 0, 0, 3, 0, 0, 0, 1, 0, 0, 0, 2, 0, 0, 0, 19, 0, 0, 0, 12, 0, 0, 0, 0, 0, 0, 0,
  115, 105, 18, 109, 133, 158, 7, 26, 2, 0, 0, 0, 0, 0, 0, 0, 72, 0, 0, 0, 0, 0, 0, 0,
  19, 109, 101, 115, 104, 101, 115, 92, 109, 111, 114, 105, 110, 117, 108, 97, 110, 105, 115, 0,
  97, 128, 1, 97, 253, 69, 205, 146, 1, 0, 0, 0, 124, 0, 0, 0,
  98, 128, 1, 98, 253, 69, 205, 146, 1, 0, 0, 0, 125, 0, 0, 0,
  97, 46, 110, 105, 102, 0, 98, 46, 110, 105, 102, 0, 97, 98]

/-- Two files in the first folder. -/
def sharedSources : List PackSource := [
  ⟨pathOf ["m", "meshes", "morinulanis", "a.nif"], 1, one_lt_u64Size, by decide⟩,
  ⟨pathOf ["m", "meshes", "morinulanis", "b.nif"], 1, one_lt_u64Size, by decide⟩]

/-- A file in each folder. -/
def twinSources : List PackSource := [
  ⟨pathOf ["m", "meshes", "morinulanis", "a.nif"], 1, one_lt_u64Size, by decide⟩,
  ⟨pathOf ["m", "meshes", "mopaduvipis", "b.nif"], 1, one_lt_u64Size, by decide⟩]

/-- The Archive planned of some sources. -/
def dataOf (sources : List PackSource) : ArchiveData :=
  (addAll .on (.new (.forProfile .sse none) .standard) sources).join.getD (.new (.forProfile .sse none) .standard)

/-- What is read of the files. -/
def pairedSource (path : Path) : Option Bytes := if fileName path = OsStr.ofText "a.nif".toList then some [97] else some [98]

/-- A library that writes their BSA. -/
abbrev pairedBa2 : Ba2 pairedKeys := echoBa2 pairedArchive pairedBytes

theorem packable_of_parts (parts : List Text) (hreal : ∀ part ∈ parts, RealPart part)
    (haccepted : (canonicalArchiveEntryPath (['/'].intercalate parts)).isOk = true)
    (hshort : nameBytes (parts.map OsStr.ofText) < limit) :
    Packable limit root (root ++ parts.map OsStr.ofText) (parts.map OsStr.ofText) where
  path_eq := rfl
  real := by
    intro name hname
    obtain ⟨part, hpart, rfl⟩ := List.mem_map.mp hname
    rw [OsStr.lossy_ofText]
    exact hreal part hpart
  accepted := by
    have hlossy : (parts.map OsStr.ofText).map OsStr.lossy = parts := by simp [Function.comp_def]
    unfold gamePathText
    rw [hlossy]
    cases h : canonicalArchiveEntryPath (['/'].intercalate parts) with
    | ok path => exact ⟨path, rfl⟩
    | error e => simp [h, Except.isOk, Except.toBool] at haccepted
  short := hshort

/-- The files of each folder are packable. -/
theorem packable_paired {folder name : Text} (hfolder : folder = "morinulanis".toList ∨ folder = "mopaduvipis".toList)
    (hname : name = "a.nif".toList ∨ name = "b.nif".toList) :
    Packable 260 (pathOf ["m"]) (pathOf ["m"] ++ ["meshes".toList, folder, name].map OsStr.ofText)
      (["meshes".toList, folder, name].map OsStr.ofText) := by
  rcases hfolder with rfl | rfl <;> rcases hname with rfl | rfl <;>
    exact packable_of_parts _ (forall_of_all (by decide)) (by decide +kernel) (by decide +kernel)

theorem distinct_paired {p q : Path} {a b : Text} {data : ArchiveData} (hfiles : data.files = [p, q])
    (ha : archiveKey p root = .ok a) (hb : archiveKey q root = .ok b) (h : ¬SameKey keys data.version a b) :
    KeysDistinct keys data root := by
  unfold KeysDistinct
  rw [hfiles, List.pairwise_pair]
  rintro ⟨a', b', ha', hb', hsame⟩
  obtain rfl := Except.ok.inj (ha.symm.trans ha')
  obtain rfl := Except.ok.inj (hb.symm.trans hb')
  exact h hsame

/-- A key's folder. -/
theorem folder_of_key {folder : Text} (key : Text) {path : Path} (h : archiveKey path root = .ok key)
    (hfolder : (splitKey key).1 = folder) {other : Text} (hother : archiveKey path root = .ok other) :
    (splitKey other).1 = folder := by
  obtain rfl := Except.ok.inj (h.symm.trans hother)
  exact hfolder

/-- Two files of one folder, packed and read back. -/
theorem written_reads_back_sample :
    ReadsBack pairedBa2 (pathOf ["m", "m.bsa"]) pairedBytes pairedSource (pathOf ["m"])
      (pathOf ["m", "meshes", "morinulanis", "a.nif"]) ∧
    ReadsBack pairedBa2 (pathOf ["m", "m.bsa"]) pairedBytes pairedSource (pathOf ["m"])
      (pathOf ["m", "meshes", "morinulanis", "b.nif"]) := by
  have hfiles : (dataOf sharedSources).files = [pathOf ["m", "meshes", "morinulanis", "a.nif"],
      pathOf ["m", "meshes", "morinulanis", "b.nif"]] := by decide +kernel
  have hwrite : writeArchiveInto pairedBa2 pairedSource false (dataOf sharedSources) (pathOf ["m"])
      (pathOf ["m", "m.bsa"]) = .ok pairedBytes := by decide +kernel
  have hsources : ∀ path ∈ (dataOf sharedSources).files, ∃ relative, Packable 260 (pathOf ["m"]) path relative := by
    rw [hfiles]
    refine List.forall_mem_cons.mpr ⟨⟨_, packable_paired (.inl rfl) (.inl rfl)⟩, List.forall_mem_singleton.mpr ?_⟩
    exact ⟨_, packable_paired (.inl rfl) (.inr rfl)⟩
  have hfolder : ∀ path ∈ (dataOf sharedSources).files, ∀ key, archiveKey path (pathOf ["m"]) = .ok key →
      (splitKey key).1 = "meshes\\morinulanis".toList := by
    rw [hfiles]
    refine List.forall_mem_cons.mpr ⟨fun _ h => ?_, List.forall_mem_singleton.mpr fun _ h => ?_⟩
    · exact folder_of_key "meshes\\morinulanis\\a.nif".toList (by decide +kernel) (by decide) h
    · exact folder_of_key "meshes\\morinulanis\\b.nif".toList (by decide +kernel) (by decide) h
  have hfolders : FoldersTell pairedKeys (dataOf sharedSources) (pathOf ["m"]) := by
    intro _ p hp q hq a b ha hb _
    rw [hfolder p hp a ha, hfolder q hq b hb]
  have hread := written_reads_back pairedKeys_normalizing (echoBa2_undoes _ _) .sse none hwrite (by decide +kernel) hsources
    (distinct_paired hfiles (a := "meshes\\morinulanis\\a.nif".toList) (b := "meshes\\morinulanis\\b.nif".toList)
      (by decide +kernel) (by decide +kernel) (by decide +kernel)) hfolders (pathOf ["m", "m.bsa"])
  rw [hfiles] at hread
  exact ⟨hread _ List.mem_cons_self, hread _ (List.mem_cons_of_mem _ List.mem_cons_self)⟩

/-- **A source that is listed under another's folder**: the library takes the two folders for one. -/
theorem written_under_other_folder : NormalizingKeys pairedKeys 260 ∧ Undoes pairedBa2 ∧
    writeArchiveInto pairedBa2 pairedSource false (dataOf twinSources) (pathOf ["m"]) (pathOf ["m", "m.bsa"]) =
      .ok pairedBytes ∧
    (∀ path ∈ (dataOf twinSources).files,
      (packedAs (fileType path (pathOf ["m"]) (.forProfile .sse none))).isSome = true) ∧
    (∀ path ∈ (dataOf twinSources).files, ∃ relative, Packable 260 (pathOf ["m"]) path relative) ∧
    KeysDistinct pairedKeys (dataOf twinSources) (pathOf ["m"]) ∧
    pathOf ["m", "meshes", "mopaduvipis", "b.nif"] ∈ (dataOf twinSources).files ∧
    ¬ReadsBack pairedBa2 (pathOf ["m", "m.bsa"]) pairedBytes pairedSource (pathOf ["m"])
      (pathOf ["m", "meshes", "mopaduvipis", "b.nif"]) := by
  have hfiles : (dataOf twinSources).files = [pathOf ["m", "meshes", "morinulanis", "a.nif"],
      pathOf ["m", "meshes", "mopaduvipis", "b.nif"]] := by decide +kernel
  refine ⟨pairedKeys_normalizing, echoBa2_undoes _ _, by decide +kernel, by decide +kernel, ?_, ?_, ?_, ?_⟩
  · rw [hfiles]
    refine List.forall_mem_cons.mpr ⟨⟨_, packable_paired (.inl rfl) (.inl rfl)⟩, List.forall_mem_singleton.mpr ?_⟩
    exact ⟨_, packable_paired (.inr rfl) (.inr rfl)⟩
  · exact distinct_paired hfiles (a := "meshes\\morinulanis\\a.nif".toList) (b := "meshes\\mopaduvipis\\b.nif".toList)
      (by decide +kernel) (by decide +kernel) (by decide +kernel)
  · rw [hfiles]
    exact List.mem_cons_of_mem _ List.mem_cons_self
  · rintro ⟨container, relative, content, asset, hread, hpath, -, hfilter, -⟩
    have hloaded : pairedBa2.read pairedBytes = some (.tes4 pairedArchive (tes4Options .sse false)) := by
      simp [echoBa2]
    obtain rfl := Option.some.inj (hloaded.symm.trans hread)
    obtain rfl : pathOf ["meshes", "mopaduvipis", "b.nif"] = relative := by
      have hroot : pathOf ["m", "meshes", "mopaduvipis", "b.nif"] = pathOf ["m"] ++ pathOf ["meshes", "mopaduvipis", "b.nif"] :=
        rfl
      exact List.append_cancel_left (hroot.symm.trans hpath)
    have hnone : (archivedAssets (.tes4 pairedArchive (tes4Options .sse false))).filter (fun asset =>
        foldedGamePath asset.name = some ((gamePathText (pathOf ["meshes", "mopaduvipis", "b.nif"])).map Char.toLower)) =
        [] := by decide +kernel
    rw [hnone] at hfilter
    cases hfilter

end Cao.Pack
