import Cao.Pack.Read
import Cao.Pack.Keys

/-!
# What an Archive stores

The writer keeps one file for each key: the first, in the order of the planned sources.

* `SameKey`: two names that a container takes for one;
* **`findTes4_tes4Archive`**, **`get?_fo4Archive`**: a lookup finds the first file with its key;
* `Sourced`, **`prepare_sourced`**: what is prepared, source by source;
* `firstWithKey`, **`Prepared.extract_of_first`**: what a written Archive extracts by a name;
* `InArchive`, `KeysTell`, **`inArchive_iff`**: the first sources of an Archive are all in it exactly where those with one
  key have the same bytes.
-/

namespace Cao.Pack

variable {keys : Ba2Keys} {ba2 : Ba2 keys}

/-! ## The first of a key -/

/-- Two names that a BSA takes for one: a directory's key, and a file's in it. -/
def SameTes4Key (keys : Ba2Keys) (a b : Text) : Prop :=
  keys.directoryHash (splitKey a).1 = keys.directoryHash (splitKey b).1 ∧
    keys.fileHash (splitKey a).2 = keys.fileHash (splitKey b).2

instance (keys : Ba2Keys) (a b : Text) : Decidable (SameTes4Key keys a b) := inferInstanceAs (Decidable (_ ∧ _))

/-- Two names that a container takes for one. -/
def SameKey (keys : Ba2Keys) (version : ArchiveVersion) (a b : Text) : Prop :=
  match version with
  | .tes5 | .sse => SameTes4Key keys a b
  | .fo4 | .fo4Dx => keys.entryHash a = keys.entryHash b

instance (keys : Ba2Keys) (version : ArchiveVersion) (a b : Text) : Decidable (SameKey keys version a b) := by
  cases version <;> unfold SameKey <;> infer_instance

theorem sameKey_refl (keys : Ba2Keys) (version : ArchiveVersion) (a : Text) : SameKey keys version a a := by
  cases version
  · exact ⟨rfl, rfl⟩
  · exact ⟨rfl, rfl⟩
  · rfl
  · rfl

theorem SameKey.symm {version : ArchiveVersion} {a b : Text} (h : SameKey keys version a b) : SameKey keys version b a := by
  cases version
  · exact ⟨h.1.symm, h.2.symm⟩
  · exact ⟨h.1.symm, h.2.symm⟩
  · exact Eq.symm h
  · exact Eq.symm h

theorem SameKey.trans {version : ArchiveVersion} {a b c : Text} (h : SameKey keys version a b)
    (h' : SameKey keys version b c) : SameKey keys version a c := by
  cases version
  · exact ⟨h.1.trans h'.1, h.2.trans h'.2⟩
  · exact ⟨h.1.trans h'.1, h.2.trans h'.2⟩
  · exact Eq.trans h h'
  · exact Eq.trans h h'

/-- One keyed file more is found by its key, where none was. -/
theorem findTes4_addTes4 (archive : Tes4Archive keys) (keyed : Text × Tes4File) (name : Text) :
    findTes4 (addTes4 archive keyed) name =
      (findTes4 archive name).or (if SameTes4Key keys keyed.1 name then some keyed.2 else none) := by
  unfold findTes4 addTes4
  rw [OrdMap.get?_upsert]
  by_cases hdirectory : keys.directoryHash (splitKey name).1 = keys.directoryHash (splitKey keyed.1).1
  · rw [if_pos hdirectory, OrdMap.get?_congr hdirectory, Option.bind_some]
    have hfile : ∀ directory : Tes4Directory keys,
        ((addFileTo (splitKey keyed.1).2 keyed.2 directory).get? (splitKey name).2).map Prod.snd =
          ((directory.get? (splitKey name).2).map Prod.snd).or
            (if SameTes4Key keys keyed.1 name then some keyed.2 else none) := by
      intro directory
      unfold addFileTo
      rw [OrdMap.get?_insertMissing]
      by_cases hname : keys.fileHash (splitKey name).2 = keys.fileHash (splitKey keyed.1).2
      · rw [if_pos hname, if_pos ⟨hdirectory.symm, hname.symm⟩]
        cases directory.get? (splitKey name).2 <;> rfl
      · rw [if_neg hname, if_neg fun h => hname h.2.symm, Option.or_none, Option.or_none]
    cases archive.get? (splitKey keyed.1).1 with
    | none =>
      rw [Option.bind_none, Option.none_or]
      exact hfile OrdMap.empty
    | some directory =>
      rw [Option.bind_some]
      exact hfile directory.2
  · rw [if_neg hdirectory, if_neg fun h => hdirectory h.1.symm, Option.or_none]

/-- **A lookup in a BSA finds the first file with its key.** -/
theorem findTes4_tes4Archive (files : List (Text × Tes4File)) (name : Text) :
    findTes4 (tes4Archive files : Tes4Archive keys) name =
      (files.find? fun keyed => SameTes4Key keys keyed.1 name).map Prod.snd := by
  induction files using List.reverseRecOn with
  | nil => rfl
  | append_singleton files keyed ih =>
    have hlast : (tes4Archive (files ++ [keyed]) : Tes4Archive keys) = addTes4 (tes4Archive files) keyed := by
      unfold tes4Archive
      rw [List.foldl_append]
      rfl
    rw [hlast, findTes4_addTes4, ih, List.find?_append]
    cases files.find? fun keyed => decide (SameTes4Key keys keyed.1 name) with
    | none =>
      rw [Option.map_none, Option.none_or, Option.none_or, List.find?_singleton]
      split_ifs <;> simp_all
    | some first => rfl

/-- **A lookup in a BA2 finds the first file with its key.** -/
theorem get?_fo4Archive (files : List (Text × Fo4File)) (name : Text) :
    (fo4Archive files : Fo4Archive keys).get? name =
      files.find? fun keyed => keys.entryHash keyed.1 = keys.entryHash name := by
  induction files using List.reverseRecOn with
  | nil => rfl
  | append_singleton files keyed ih =>
    have hlast : (fo4Archive (files ++ [keyed]) : Fo4Archive keys) = addFo4 (fo4Archive files) keyed := by
      unfold fo4Archive
      rw [List.foldl_append]
      rfl
    rw [hlast, List.find?_append, ← ih]
    unfold addFo4
    rw [OrdMap.get?_insertMissing, List.find?_singleton]
    congr 1
    by_cases h : keys.entryHash name = keys.entryHash keyed.1
    · rw [if_pos h, if_pos (decide_eq_true h.symm)]
    · rw [if_neg h, if_neg (by simpa using fun h' => h h'.symm)]

/-! ## What is prepared -/

section Prepared

variable {F : Type} {extracts : F → Option Bytes} {readSource : Path → Option Bytes} {root path : Path}

/-- The file of a source, under the source's name: it extracts to what was read of the source. -/
structure Sourced (extracts : F → Option Bytes) (readSource : Path → Option Bytes) (root path : Path)
    (keyed : Text × F) : Prop where
  key : archiveKey path root = .ok keyed.1
  whole : ∃ content, readSource path = some content ∧ extracts keyed.2 = some content

theorem orError_eq_ok {α : Type} {e : ArchiveError} {o : Option α} {a : α} (h : orError e o = .ok a) : o = some a := by
  cases o with
  | none => cases h
  | some => exact congrArg some (Except.ok.inj h)

theorem tes4Source_whole (hlibrary : Undoes ba2) {version : ArchiveVersion} {compressed : Bool} {file : Tes4File}
    (h : tes4Source ba2 readSource version compressed path = .ok file) :
    ∃ content, readSource path = some content ∧ ba2.extractTes4 version file = some content := by
  unfold tes4Source at h
  cases hread : readSource path with
  | none => simp [hread, orError, bind, Except.bind] at h
  | some content =>
    refine ⟨content, rfl, ?_⟩
    simp only [hread, orError, bind, Except.bind] at h
    split_ifs at h
    · have hstored := orError_eq_ok h
      unfold smallerStored at hstored
      cases hpacked : ba2.compress version ⟨content, none⟩ with
      | none => simp [hpacked] at hstored
      | some packed =>
        simp only [hpacked] at hstored
        split_ifs at hstored
        · obtain rfl := Option.some.inj hstored
          exact hlibrary.compressed version content packed hpacked
        · obtain rfl := Option.some.inj hstored
          exact hlibrary.stored version content
    · obtain rfl := Except.ok.inj h
      exact hlibrary.stored version content

theorem fo4Source_whole (hlibrary : Undoes ba2) {format : Fo4Format} {compressed : Bool} {file : Fo4File}
    (h : fo4Source ba2 readSource format compressed path = .ok file) :
    ∃ content, readSource path = some content ∧ ba2.extractFo4 format file = some content := by
  unfold fo4Source at h
  cases hread : readSource path with
  | none => simp [hread, orError, bind, Except.bind] at h
  | some content =>
    simp only [hread, orError, bind, Except.bind] at h
    exact ⟨content, rfl, hlibrary.file format compressed content file (orError_eq_ok h)⟩

theorem map_eq_ok {α β ε : Type} {f : α → β} {r : Except ε α} {b : β} (h : r.map f = .ok b) :
    ∃ a, r = .ok a ∧ f a = b := by
  cases r with
  | error e => cases h
  | ok a => exact ⟨a, rfl, Except.ok.inj h⟩

/-- The sources that are keyed and read, each with its file. -/
theorem sourced_of_read {read : Path → Except ArchiveError F} {data : ArchiveData} {sources : List (Text × Path)}
    {files : List (Text × F)} (hwhole : ∀ path file, read path = .ok file →
      ∃ content, readSource path = some content ∧ extracts file = some content)
    (hkeyed : keyedPaths data root = .ok sources) (hread : readSources read sources = .ok files) :
    List.Forall₂ (Sourced extracts readSource root) data.files files := by
  have hpairs := forall₂_of_mapM_ok hkeyed
  have hreads := forall₂_of_mapM_ok hread
  clear hkeyed hread
  generalize data.files = paths at hpairs ⊢
  induction hpairs generalizing files with
  | nil =>
    cases hreads
    exact .nil
  | cons hkey _ ih =>
    cases hreads with
    | cons hfile hrest =>
      refine .cons ?_ (ih hrest)
      obtain ⟨key, harchive, rfl⟩ := map_eq_ok hkey
      obtain ⟨file, hstored, rfl⟩ := map_eq_ok hfile
      exact ⟨harchive, hwhole _ file hstored⟩

/-- What is prepared, source by source. -/
inductive Prepared (ba2 : Ba2 keys) (readSource : Path → Option Bytes) (compress : Bool) (data : ArchiveData)
    (root : Path) : PreparedArchive keys → Prop
  | tes4 (files : List (Text × Tes4File)) (hversion : data.version = .tes5 ∨ data.version = .sse)
      (hsourced : List.Forall₂ (Sourced (ba2.extractTes4 data.version) readSource root) data.files files) :
      Prepared ba2 readSource compress data root
        (.tes4 (tes4Archive files) (tes4Options data.version (data.compressed compress)) data.sizeCap)
  | fo4 (files : List (Text × Fo4File)) (hversion : data.version = .fo4 ∨ data.version = .fo4Dx)
      (hsourced : List.Forall₂ (Sourced (ba2.extractFo4 (fo4Format data.version)) readSource root) data.files files) :
      Prepared ba2 readSource compress data root (.fo4 (fo4Archive files) ⟨fo4Format data.version, true⟩)

/-- **What the writer prepares.** -/
theorem prepare_sourced (hlibrary : Undoes ba2) {compress : Bool} {data : ArchiveData} {prepared : PreparedArchive keys}
    (h : prepare ba2 readSource compress data root = .ok prepared) :
    Prepared ba2 readSource compress data root prepared := by
  unfold prepare at h
  cases hkeyed : keyedPaths data root with
  | error e => simp [hkeyed, bind, Except.bind] at h
  | ok sources =>
    simp only [hkeyed, bind, Except.bind] at h
    have htes4 : ∀ files, readSources (tes4Source ba2 readSource data.version (data.compressed compress)) sources =
        .ok files → List.Forall₂ (Sourced (ba2.extractTes4 data.version) readSource root) data.files files :=
      fun files => sourced_of_read (fun _ _ => tes4Source_whole hlibrary) hkeyed
    have hfo4 : ∀ files, readSources (fo4Source ba2 readSource (fo4Format data.version) (data.compressed compress))
        sources = .ok files → List.Forall₂ (Sourced (ba2.extractFo4 (fo4Format data.version)) readSource root)
          data.files files :=
      fun files => sourced_of_read (fun _ _ => fo4Source_whole hlibrary) hkeyed
    cases hversion : data.version <;> simp only [hversion] at h htes4 hfo4 <;> split at h <;> cases h
    · next files hread => exact hversion ▸ .tes4 files (.inl hversion) (hversion.symm ▸ htes4 files hread)
    · next files hread => exact hversion ▸ .tes4 files (.inr hversion) (hversion.symm ▸ htes4 files hread)
    · next files hread => exact hversion ▸ .fo4 files (.inl hversion) (hversion.symm ▸ hfo4 files hread)
    · next files hread => exact hversion ▸ .fo4 files (.inr hversion) (hversion.symm ▸ hfo4 files hread)

/-! ## What is read back -/

/-- What reading a written Archive gives back. -/
def PreparedArchive.container : PreparedArchive keys → ReadContainer keys
  | .tes4 archive options _ => .tes4 archive options
  | .fo4 archive options => .fo4 archive options

theorem read_of_write (hlibrary : Undoes ba2) {prepared : PreparedArchive keys} {outPath : Path} {bytes : Bytes}
    (h : prepared.write ba2 outPath = .ok bytes) : ba2.read bytes = some prepared.container := by
  cases prepared with
  | tes4 archive options cap =>
    have hwrite : tes4Write ba2 archive options outPath = .ok bytes := by
      unfold PreparedArchive.write at h
      cases cap with
      | none => exact h
      | some cap =>
        cases hcheck : checkSizeCap ba2 archive options cap outPath with
        | error e => simp [hcheck, bind, Except.bind] at h
        | ok => simpa [hcheck, bind, Except.bind] using h
    unfold tes4Write at hwrite
    split at hwrite
    · next written hwritten =>
      obtain rfl := Except.ok.inj hwrite
      exact hlibrary.tes4 archive options written hwritten
    · cases hwrite
    · cases hwrite
  | fo4 archive options => exact hlibrary.fo4 archive options bytes (orError_eq_ok h)

/-- Whether a source has the key of a name. -/
def hasKey (keys : Ba2Keys) (version : ArchiveVersion) (root : Path) (key : Text) (path : Path) : Bool :=
  match archiveKey path root with
  | .ok other => decide (SameKey keys version other key)
  | .error _ => false

theorem hasKey_eq_true {version : ArchiveVersion} {key : Text} : hasKey keys version root key path = true ↔
    ∃ other, archiveKey path root = .ok other ∧ SameKey keys version other key := by
  unfold hasKey
  cases hother : archiveKey path root with
  | ok other => simp
  | error e => simp

theorem hasKey_of_ok {version : ArchiveVersion} {key other : Text} (h : archiveKey path root = .ok other) :
    hasKey keys version root key path = decide (SameKey keys version other key) := by
  unfold hasKey
  rw [h]

/-- The first source with the key of a name. -/
def firstWithKey (keys : Ba2Keys) (data : ArchiveData) (root : Path) (key : Text) : Option Path :=
  data.files.find? (hasKey keys data.version root key)

/-- Two sources have one key. -/
def KeyedAlike (keys : Ba2Keys) (version : ArchiveVersion) (root p q : Path) : Prop :=
  ∃ a b, archiveKey p root = .ok a ∧ archiveKey q root = .ok b ∧ SameKey keys version a b

theorem KeyedAlike.symm {version : ArchiveVersion} {p q : Path} (h : KeyedAlike keys version root p q) :
    KeyedAlike keys version root q p := by
  obtain ⟨a, b, ha, hb, hsame⟩ := h
  exact ⟨b, a, hb, ha, hsame.symm⟩

theorem find?_forall₂ {α β : Type} {R : α → β → Prop} {p : α → Bool} {q : β → Bool} {l : List α} {l' : List β}
    (h : List.Forall₂ R l l') (hpq : ∀ a b, R a b → p a = q b) {a : α} (ha : l.find? p = some a) :
    ∃ b, l'.find? q = some b ∧ R a b := by
  induction h with
  | nil => cases ha
  | cons hR _ ih =>
    rw [List.find?_cons] at ha ⊢
    rw [← hpq _ _ hR]
    split at ha
    · obtain rfl := Option.some.inj ha
      exact ⟨_, rfl, hR⟩
    · exact ih ha

theorem backslashed_backslashed (name : Text) : backslashed (backslashed name) = backslashed name := by
  unfold backslashed
  rw [List.map_map]
  refine List.map_congr_left fun c _ => ?_
  by_cases hc : c = '/'
  · simp [hc]
  · simp [hc]

theorem backslashed_archiveKey {path root : Path} {key : Text} (h : archiveKey path root = .ok key) :
    backslashed key = key := by
  unfold archiveKey at h
  split at h
  · cases h
  · split at h
    · cases h
    · obtain rfl := Except.ok.inj h
      exact backslashed_backslashed _

theorem firstWithKey_congr {data : ArchiveData} {a b : Text} (h : SameKey keys data.version a b) :
    firstWithKey keys data root a = firstWithKey keys data root b := by
  have hsame : hasKey keys data.version root a = hasKey keys data.version root b := by
    funext path
    refine Bool.eq_iff_iff.mpr (hasKey_eq_true.trans (Iff.trans ?_ hasKey_eq_true.symm))
    exact exists_congr fun other => and_congr_right fun _ => ⟨fun h' => h'.trans h, fun h' => h'.trans h.symm⟩
  unfold firstWithKey
  rw [hsame]

/-- Of the first sources, each has the key of one of them that is found by it. -/
theorem firstWithKey_within (keys : Ba2Keys) {data : ArchiveData} {key : Text} {paths : List Path}
    (hpaths : paths <+: data.files) (hpath : path ∈ paths) (hkey : archiveKey path root = .ok key) :
    ∃ first ∈ paths, firstWithKey keys data root key = some first ∧ KeyedAlike keys data.version root first path := by
  obtain ⟨rest, hrest⟩ := hpaths
  unfold firstWithKey
  rw [← hrest, List.find?_append]
  cases hfind : paths.find? (hasKey keys data.version root key) with
  | none =>
    have hnone := List.find?_eq_none.mp hfind path hpath
    exact absurd (hasKey_eq_true.mpr ⟨key, hkey, sameKey_refl keys data.version key⟩) hnone
  | some first =>
    obtain ⟨other, hother, hsame⟩ := hasKey_eq_true.mp (List.find?_some hfind)
    exact ⟨first, List.mem_of_find?_eq_some hfind, rfl, other, key, hother, hkey, hsame⟩

theorem Prepared.keyed {compress : Bool} {data : ArchiveData} {prepared : PreparedArchive keys}
    (h : Prepared ba2 readSource compress data root prepared) : ∀ path ∈ data.files, ∃ key, archiveKey path root = .ok key := by
  intro path hpath
  cases h with
  | tes4 files _ hsourced =>
    obtain ⟨keyed, -, hkeyed⟩ := exists_of_forall₂ hsourced hpath
    exact ⟨keyed.1, hkeyed.key⟩
  | fo4 files _ hsourced =>
    obtain ⟨keyed, -, hkeyed⟩ := exists_of_forall₂ hsourced hpath
    exact ⟨keyed.1, hkeyed.key⟩

/-- **A name extracts to the first source with its key.** -/
theorem Prepared.extract_of_first (hkeys : IgnoringKeys keys) {compress : Bool} {data : ArchiveData}
    {prepared : PreparedArchive keys} (h : Prepared ba2 readSource compress data root prepared) (archivePath : Path)
    {name : Text} (hfirst : firstWithKey keys data root (backslashed name) = some path) :
    ∃ content, readSource path = some content ∧ extract ba2 archivePath prepared.container name = .ok content := by
  unfold firstWithKey at hfirst
  cases h with
  | tes4 files hversion hsourced =>
    obtain ⟨keyed, hfind, hkeyed⟩ := find?_forall₂ (q := fun keyed => decide (SameTes4Key keys keyed.1 (backslashed name)))
      hsourced (fun path keyed hkeyed => by
        rw [hasKey_of_ok hkeyed.key]; rcases hversion with hv | hv <;> rw [hv] <;> rfl) hfirst
    obtain ⟨content, hread, hwhole⟩ := hkeyed.whole
    refine ⟨content, hread, ?_⟩
    unfold extract PreparedArchive.container tes4Options
    simp only [findTes4_tes4Archive, hfind, Option.map_some, hwhole, Option.elim_some]
  | fo4 files hversion hsourced =>
    have hname : keys.entryHash (backslashed name) = keys.entryHash name :=
      hkeys.entryHash _ _ (by unfold normalizedName; rw [backslashed_backslashed])
    obtain ⟨keyed, hfind, hkeyed⟩ := find?_forall₂ (q := fun keyed => decide (keys.entryHash keyed.1 = keys.entryHash name))
      hsourced (fun path keyed hkeyed => by
        rw [hasKey_of_ok hkeyed.key, ← hname]; rcases hversion with hv | hv <;> rw [hv] <;> rfl) hfirst
    obtain ⟨content, hread, hwhole⟩ := hkeyed.whole
    refine ⟨content, hread, ?_⟩
    unfold extract PreparedArchive.container
    simp only [get?_fo4Archive, hfind, hwhole, Option.elim_some]

end Prepared

/-! ## What is stored -/

/-- An Archive holds a source's bytes under the source's name. -/
def StoredWhole (ba2 : Ba2 keys) (archivePath : Path) (container : ReadContainer keys) (readSource : Path → Option Bytes)
    (root path : Path) : Prop :=
  ∃ key content, archiveKey path root = .ok key ∧ readSource path = some content ∧
    extract ba2 archivePath container key = .ok content

/-- Sources with one key have the same bytes. -/
def KeysTell (keys : Ba2Keys) (version : ArchiveVersion) (readSource : Path → Option Bytes) (root : Path)
    (paths : List Path) : Prop :=
  ∀ p ∈ paths, ∀ q ∈ paths, KeyedAlike keys version root p q → readSource p = readSource q

/-- **The deleted sources are in the Archive exactly where their keys tell them apart.** -/
theorem stored_iff (hkeys : IgnoringKeys keys) {readSource : Path → Option Bytes} {compress : Bool} {data : ArchiveData}
    {root : Path} {prepared : PreparedArchive keys} (h : Prepared ba2 readSource compress data root prepared)
    (archivePath : Path) {removed : List Path} (hremoved : removed <+: data.files) :
    (∀ path ∈ removed, StoredWhole ba2 archivePath prepared.container readSource root path) ↔
      KeysTell keys data.version readSource root removed := by
  -- each source is keyed, and its key extracts to the first source with it
  have hextract : ∀ path ∈ removed, ∃ key, archiveKey path root = .ok key ∧ ∃ first ∈ removed,
      firstWithKey keys data root key = some first ∧ KeyedAlike keys data.version root first path ∧
        ∃ content, readSource first = some content ∧
          extract ba2 archivePath prepared.container key = .ok content := by
    intro path hpath
    obtain ⟨key, hkey⟩ := h.keyed path (hremoved.subset hpath)
    obtain ⟨first, hfirst, hfind, halike⟩ := firstWithKey_within keys hremoved hpath hkey
    have hname : firstWithKey keys data root (backslashed key) = some first := by rwa [backslashed_archiveKey hkey]
    exact ⟨key, hkey, first, hfirst, hfind, halike, h.extract_of_first hkeys archivePath hname⟩
  constructor
  · intro hstored p hp q hq halike
    obtain ⟨a, hp', p', -, hfirst, -, content, hread, hcontent⟩ := hextract p hp
    obtain ⟨b, hq', q', -, hfirst', -, content', hread', hcontent'⟩ := hextract q hq
    obtain ⟨a', whole, ha', hwhole, hstored'⟩ := hstored p hp
    obtain ⟨b', whole', hb', hwhole', hstored''⟩ := hstored q hq
    obtain rfl := Except.ok.inj (ha'.symm.trans hp')
    obtain rfl := Except.ok.inj (hb'.symm.trans hq')
    obtain ⟨a, b, ha, hb, hsame⟩ := halike
    obtain rfl := Except.ok.inj (ha.symm.trans hp')
    obtain rfl := Except.ok.inj (hb.symm.trans hq')
    have hp'' : whole = content := Except.ok.inj (hstored'.symm.trans hcontent)
    have hq'' : whole' = content' := Except.ok.inj (hstored''.symm.trans hcontent')
    have hfirsts : p' = q' := by
      rw [firstWithKey_congr hsame] at hfirst
      exact Option.some.inj (hfirst.symm.trans hfirst')
    rw [hwhole, hwhole', hp'', hq'', ← hread, ← hread', hfirsts]
  · intro htell path hpath
    obtain ⟨key, hkey, first, hfirst, -, halike, content, hread, hcontent⟩ := hextract path hpath
    exact ⟨key, content, hkey, (htell first hfirst path hpath halike).symm.trans hread, hcontent⟩

theorem files_of_addAll {checks : OverflowChecks} {data data' : ArchiveData} {sources : List PackSource}
    (h : addAll checks data sources = some (some data')) :
    data'.files = data.files ++ sources.map PackSource.path ∧ data'.version = data.version := by
  induction sources generalizing data with
  | nil =>
    simp only [addAll, Option.pure_def, Option.some.injEq] at h
    simp [h]
  | cons source sources ih =>
    obtain ⟨data₁, hadded, hrest⟩ := added_of_addAll h
    obtain ⟨hfiles, hversion⟩ := ih hrest
    exact ⟨by rw [hfiles, hadded.files]; simp, hversion.trans hadded.version⟩

/-- A written Archive holds a source's bytes under the source's name. -/
def InArchive (ba2 : Ba2 keys) (archivePath : Path) (written : Bytes) (readSource : Path → Option Bytes)
    (root path : Path) : Prop :=
  ∃ container, ba2.read written = some container ∧ StoredWhole ba2 archivePath container readSource root path

/-- **A written Archive holds the first of its sources exactly where their keys tell them apart.** -/
theorem inArchive_iff (hkeys : IgnoringKeys keys) (hlibrary : Undoes ba2) {checks : OverflowChecks} {settings : Settings}
    {readSource : Path → Option Bytes} {archive : PlannedArchive} {compress : Bool} {root destination : Path}
    {written : Bytes} (archivePath : Path)
    (hwrite : GameArchivePacker.write checks settings ba2 readSource archive compress root destination = .ok written)
    {paths : List Path} (hpaths : paths <+: archive.files.map PackSource.path) :
    (∀ path ∈ paths, InArchive ba2 archivePath written readSource root path) ↔
      KeysTell keys (settings.versionFor archive.kind) readSource root paths := by
  unfold GameArchivePacker.write at hwrite
  cases hrebuild : GameArchivePacker.rebuild checks settings archive with
  | none => simp [hrebuild] at hwrite
  | some rebuilt =>
    cases rebuilt with
    | none => simp [hrebuild] at hwrite
    | some data =>
      obtain ⟨hfiles, hversion⟩ := files_of_addAll hrebuild
      rw [← show data.version = settings.versionFor archive.kind from hversion]
      rw [← show data.files = archive.files.map PackSource.path from hfiles] at hpaths
      simp only [hrebuild] at hwrite
      cases hinto : writeArchiveInto ba2 readSource compress data root destination with
      | error e => simp [hinto] at hwrite
      | ok bytes =>
        obtain rfl : bytes = written := by simpa [hinto] using hwrite
        unfold writeArchiveInto at hinto
        split_ifs at hinto with hempty
        · obtain rfl : paths = [] := by simpa [hempty] using hpaths
          simp [KeysTell]
        · cases hprepare : prepare ba2 readSource compress data root with
          | error e => simp [hprepare, bind, Except.bind] at hinto
          | ok prepared =>
            simp only [hprepare, bind, Except.bind] at hinto
            have hread := read_of_write hlibrary hinto
            rw [← stored_iff hkeys (prepare_sourced hlibrary hprepare) archivePath hpaths]
            refine forall₂_congr fun path _ => ?_
            unfold InArchive
            simp [hread]

/-! ### A library of one Archive -/

/-- What a BSA's entries are. -/
def entriesOf (archive : Tes4Archive keys) : List (Text × List (Text × Tes4File)) :=
  archive.entries.map fun entry => (entry.1, entry.2.entries)

/-- A BSA is what its entries are. -/
theorem entriesOf_injective : (entriesOf : Tes4Archive keys → _).Injective := by
  rintro ⟨entries, hascending⟩ ⟨entries', hascending'⟩ h
  have hentry : (fun entry : Text × Tes4Directory keys => (entry.1, entry.2.entries)).Injective := by
    rintro ⟨name, files, hfiles⟩ ⟨name', files', hfiles'⟩ h
    obtain ⟨rfl, rfl⟩ := Prod.mk.inj h
    rfl
  obtain rfl := List.map_injective_iff.mpr hentry h
  rfl

/-- A library that writes a BSA, reads it back, and refuses all others. -/
def echoBa2 (archive : Tes4Archive keys) (written : Bytes) : Ba2 keys where
  compress _ _ := none
  extractTes4 _ file := some file.data
  writeTes4 other options :=
    if entriesOf other = entriesOf archive ∧ options = tes4Options .sse false then .ok written else .error .other
  readFile _ _ _ := none
  extractFo4 _ _ := none
  writeFo4 _ _ := none
  read bytes := if bytes = written then some (.tes4 archive (tes4Options .sse false)) else none

theorem echoBa2_undoes (archive : Tes4Archive keys) (written : Bytes) : Undoes (echoBa2 archive written) where
  tes4 other options bytes h := by
    simp only [echoBa2] at h ⊢
    split_ifs at h with hsame
    obtain rfl := Except.ok.inj h
    obtain ⟨hentries, rfl⟩ := hsame
    rw [if_pos rfl, entriesOf_injective hentries]
  fo4 _ _ _ h := by cases h
  stored _ _ := rfl
  compressed _ _ _ h := by cases h
  file _ _ _ _ h := by cases h

end Cao.Pack
