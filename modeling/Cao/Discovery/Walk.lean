import Cao.Archive.Preflight
import Mathlib.Data.List.Perm.Basic

/-!
# The walk of a Mod Root

The walker of `run/executor/work_phases.rs`: it visits each regular file beneath a Mod Root, depth first, in the order
in which the file system lists each directory.

* `DiscoveryView`: the file system, as discovery reads it; `withinScope`: the entries that are followed;
* `discover`: the files found; **`visitTree_fuel`**: every directory is read to the end;
* `SameTree`: two listings of the same entries; **`discover_perm`**: the same files are found;
* `reversed`: the listing backwards, and **`discover_reversed`** what is found then.
-/

namespace Cao.Discovery

/-- The file system, with what its links lead to. -/
structure DirectoryView extends FileView where
  /-- `Path::is_dir`, which follows links. -/
  isDir : Path → Bool

/-- A real directory: neither a link nor another reparse point. -/
def DirectoryView.ordinaryDirectory (view : DirectoryView) (path : Path) : Prop :=
  view.isDir path = true ∧
    ∃ metadata, view.symlinkMetadata path = .ok metadata ∧ metadata.isSymlink = false ∧ metadata.isReparsePoint = false

/-- A file system whose directories nest to a finite depth and hold each name once. -/
structure DiscoveryView extends DirectoryView where
  depth : Path → Nat
  deeper : ∀ directory entries name, readDir directory = .ok entries → .ok name ∈ entries →
    toDirectoryView.ordinaryDirectory (directory ++ [name]) → depth (directory ++ [name]) < depth directory
  distinct : ∀ directory entries, readDir directory = .ok entries → entries.Pairwise fun a b => ∀ name, a = .ok name → b ≠ .ok name

/-- `Discovery::within_scope`: directory links are not followed, nor file links that do not provably lead inside. -/
def withinScope (view : DirectoryView) (root path : Path) : Bool :=
  match view.symlinkMetadata path with
  | .error _ => false
  | .ok metadata =>
    if !metadata.isSymlink && !metadata.isReparsePoint then true
    else if view.isDir path then false
    else match view.canonical path with
      | .error _ => false
      | .ok resolved => (relativeTo root resolved).any fun relative => !hasStagingComponent relative

/-- One entry of `Discovery::visit_directory`, given what is below a directory. -/
def discoverEntry (view : DirectoryView) (root directory : Path) (below : Path → List Path) :
    Except String OsStr → List Path
  | .error _ => []
  | .ok name =>
    let path := directory ++ [name]
    if isStagingName name || !withinScope view root path then []
    else if view.isFile path then [path]
    else if view.isDir path then below path
    else []

/-- `Discovery::visit_directory`. -/
def visitTree (view : DirectoryView) (root : Path) : Nat → Path → List Path
  | 0, _ => []
  | fuel + 1, directory =>
    match view.readDir directory with
    | .error _ => []
    | .ok entries => entries.flatMap (discoverEntry view root directory (visitTree view root fuel))

/-- `Discovery::visit`. -/
def discover (view : DiscoveryView) (root : Path) : List Path :=
  if root.getLast?.any isStagingName then [] else visitTree view.toDirectoryView root (view.depth root + 1) root

variable {view view' : DiscoveryView} {root directory : Path}

/-! ## The walk ends -/

/-- A directory that is gone into is a real one. -/
theorem ordinaryDirectory_of_scope {view : DirectoryView} {path : Path} (h : withinScope view root path = true)
    (hdir : view.isDir path = true) : view.ordinaryDirectory path := by
  unfold withinScope at h
  split at h
  · cases h
  · next metadata hmetadata =>
    split_ifs at h with hordinary
    rw [Bool.and_eq_true, Bool.not_eq_true', Bool.not_eq_true'] at hordinary
    exact ⟨hdir, metadata, hmetadata, hordinary⟩

/-- What is below matters for real directories only. -/
theorem discoverEntry_congr {view : DirectoryView} {below below' : Path → List Path} {entry : Except String OsStr}
    (h : ∀ name, entry = .ok name → view.ordinaryDirectory (directory ++ [name]) →
      below (directory ++ [name]) = below' (directory ++ [name])) :
    discoverEntry view root directory below entry = discoverEntry view root directory below' entry := by
  cases entry with
  | error detail => rfl
  | ok name =>
    unfold discoverEntry
    dsimp only
    split_ifs with hskip hfile hdir
    · rfl
    · rfl
    · rw [Bool.or_eq_true, not_or, Bool.not_eq_true', Bool.not_eq_false] at hskip
      exact h name rfl (ordinaryDirectory_of_scope hskip.2 hdir)
    · rfl

/-- **A walk is the same however much further it may go than the directories do.** -/
theorem visitTree_fuel (root : Path) {fuel fuel' : Nat} (h : view.depth directory < fuel) (h' : view.depth directory < fuel') :
    visitTree view.toDirectoryView root fuel directory = visitTree view.toDirectoryView root fuel' directory := by
  induction fuel generalizing fuel' directory with
  | zero => exact absurd h (Nat.not_lt_zero _)
  | succ fuel ih =>
    cases fuel' with
    | zero => exact absurd h' (Nat.not_lt_zero _)
    | succ fuel' =>
      unfold visitTree
      cases hread : view.readDir directory with
      | error detail => rfl
      | ok entries =>
        refine List.flatMap_congr fun entry hentry => discoverEntry_congr ?_
        rintro name rfl hdir
        have hdeeper := view.deeper directory entries name hread hentry hdir
        exact ih (by omega) (by omega)

/-! ## Other orders -/

/-- Two listings of one directory: refused alike, or the same entries in some order. -/
def SameListing (listing listing' : Except String (List (Except String OsStr))) : Prop :=
  match listing, listing' with
  | .ok entries, .ok entries' => entries.Perm entries'
  | .error detail, .error detail' => detail = detail'
  | _, _ => False

/-- Two file systems that differ in the order in which they list directories only. -/
structure SameTree (view view' : DirectoryView) : Prop where
  canonical : view'.canonical = view.canonical
  weaklyCanonical : view'.weaklyCanonical = view.weaklyCanonical
  symlinkMetadata : view'.symlinkMetadata = view.symlinkMetadata
  isFile : view'.isFile = view.isFile
  isDir : view'.isDir = view.isDir
  readDir : ∀ directory, SameListing (view.readDir directory) (view'.readDir directory)

theorem SameTree.withinScope {view view' : DirectoryView} (h : SameTree view view') (root path : Path) :
    withinScope view' root path = withinScope view root path := by
  unfold Discovery.withinScope
  rw [h.symlinkMetadata, h.isDir, h.canonical]

theorem visitTree_perm {view view' : DirectoryView} (h : SameTree view view') (fuel : Nat) (directory : Path) :
    (visitTree view root fuel directory).Perm (visitTree view' root fuel directory) := by
  induction fuel generalizing directory with
  | zero => exact .refl _
  | succ fuel ih =>
    have hlisting := h.readDir directory
    unfold visitTree
    unfold SameListing at hlisting
    split at hlisting
    · next entries entries' hread hread' =>
      rw [hread, hread']
      refine (hlisting.flatMap_right _).trans (List.Perm.flatMap_left entries' fun entry _ => ?_)
      cases entry with
      | error detail => exact .refl _
      | ok name =>
        unfold discoverEntry
        dsimp only
        rw [h.withinScope, h.isFile, h.isDir]
        split_ifs
        · exact .refl _
        · exact .refl _
        · exact ih _
        · exact .refl _
    · next hread hread' =>
      rw [hread, hread']
    · exact hlisting.elim

/-- **The same files are found, in whatever order directories are listed.** -/
theorem discover_perm (h : SameTree view.toDirectoryView view'.toDirectoryView) (root : Path) :
    (discover view root).Perm (discover view' root) := by
  unfold discover
  split_ifs
  · exact .refl _
  · -- Both walks go as far as the deeper of the two.
    have hfuel := visitTree_fuel root (Nat.lt_succ_self (view.depth root))
      (Nat.lt_succ_of_le (le_max_left (view.depth root) (view'.depth root)))
    have hfuel' := visitTree_fuel root (Nat.lt_succ_self (view'.depth root))
      (Nat.lt_succ_of_le (le_max_right (view.depth root) (view'.depth root)))
    rw [hfuel, hfuel']
    exact visitTree_perm h _ root

/-! ## Each file once -/

theorem below_visitTree {view : DirectoryView} {fuel : Nat} {path : Path} (h : path ∈ visitTree view root fuel directory) :
    directory <+: path ∧ path ≠ directory := by
  induction fuel generalizing directory with
  | zero => cases h
  | succ fuel ih =>
    unfold visitTree at h
    split at h
    · cases h
    · obtain ⟨entry, -, h⟩ := List.mem_flatMap.mp h
      cases entry with
      | error detail => cases h
      | ok name =>
        have hlength : ∀ {p : Path}, directory ++ [name] <+: p → directory <+: p ∧ p ≠ directory := by
          intro p hp
          refine ⟨(List.prefix_append _ _).trans hp, ?_⟩
          rintro rfl
          have hle := hp.length_le
          rw [List.length_append, List.length_singleton] at hle
          omega
        unfold discoverEntry at h
        dsimp only at h
        split_ifs at h
        · cases h
        · rw [List.mem_singleton] at h
          exact hlength (h ▸ List.prefix_rfl)
        · exact hlength (ih h).1
        · cases h

theorem nodup_visitTree (fuel : Nat) (directory : Path) : (visitTree view.toDirectoryView root fuel directory).Nodup := by
  induction fuel generalizing directory with
  | zero => exact List.nodup_nil
  | succ fuel ih =>
    unfold visitTree
    split
    · exact List.nodup_nil
    · next entries hread =>
      -- What is found through an entry is at or below it.
      have hbelow : ∀ name path, path ∈ discoverEntry view.toDirectoryView root directory
          (visitTree view.toDirectoryView root fuel) (.ok name) → directory ++ [name] <+: path := by
        intro name path h
        unfold discoverEntry at h
        dsimp only at h
        split_ifs at h
        · cases h
        · rw [List.mem_singleton] at h
          exact h ▸ List.prefix_rfl
        · exact (below_visitTree h).1
        · cases h
      refine List.nodup_flatMap.mpr ⟨fun entry _ => ?_, (view.distinct directory entries hread).imp ?_⟩
      · cases entry with
        | error detail => exact List.nodup_nil
        | ok name =>
          unfold discoverEntry
          dsimp only
          split_ifs
          · exact List.nodup_nil
          · exact List.nodup_singleton _
          · exact ih _
          · exact List.nodup_nil
      · intro entry entry' hne path hpath hpath'
        cases entry with
        | error detail => cases hpath
        | ok name =>
          cases entry' with
          | error detail => cases hpath'
          | ok name' =>
            have hsame : directory ++ [name] = directory ++ [name'] := by
              have h := hbelow name path hpath
              have h' := hbelow name' path hpath'
              exact (List.prefix_of_prefix_length_le h h' (by simp)).eq_of_length (by simp)
            rw [List.append_cancel_left_eq] at hsame
            exact hne name rfl (by rw [(List.cons.inj hsame).1])

theorem nodup_discover (view : DiscoveryView) (root : Path) : (discover view root).Nodup := by
  unfold discover
  split_ifs
  · exact List.nodup_nil
  · exact nodup_visitTree _ _

/-! ## The listing backwards -/

theorem map_reverse_ok {listing : Except String (List (Except String OsStr))} {entries : List (Except String OsStr)} :
    listing.map List.reverse = .ok entries ↔ listing = .ok entries.reverse := by
  cases listing with
  | error detail => exact iff_of_false nofun nofun
  | ok listed =>
    show Except.ok listed.reverse = Except.ok entries ↔ Except.ok listed = Except.ok entries.reverse
    rw [Except.ok.injEq, Except.ok.injEq, List.reverse_eq_iff]

/-- The same tree, each directory listed backwards. -/
def reversed (view : DiscoveryView) : DiscoveryView where
  toDirectoryView := { view.toDirectoryView with readDir := fun directory => (view.readDir directory).map List.reverse }
  depth := view.depth
  deeper directory entries name hread hname hdir :=
    view.deeper directory entries.reverse name (map_reverse_ok.mp hread) (List.mem_reverse.mpr hname) hdir
  distinct directory entries hread :=
    (List.pairwise_reverse.mp (view.distinct directory entries.reverse (map_reverse_ok.mp hread))).imp
      fun hab name ha hb => hab name hb ha

theorem sameTree_reversed (view : DiscoveryView) : SameTree view.toDirectoryView (reversed view).toDirectoryView where
  canonical := rfl
  weaklyCanonical := rfl
  symlinkMetadata := rfl
  isFile := rfl
  isDir := rfl
  readDir directory := by
    show SameListing (view.readDir directory) ((view.readDir directory).map List.reverse)
    cases view.readDir directory with
    | error detail => exact rfl
    | ok entries => exact (List.reverse_perm entries).symm

theorem visitTree_reversed (fuel : Nat) (directory : Path) :
    visitTree (reversed view).toDirectoryView root fuel directory =
      (visitTree view.toDirectoryView root fuel directory).reverse := by
  induction fuel generalizing directory with
  | zero => rfl
  | succ fuel ih =>
    have hread : (reversed view).readDir directory = (view.readDir directory).map List.reverse := rfl
    unfold visitTree
    rw [hread]
    cases view.readDir directory with
    | error detail => rfl
    | ok entries =>
      show entries.reverse.flatMap _ = (entries.flatMap _).reverse
      rw [List.reverse_flatMap]
      refine List.flatMap_congr fun entry _ => ?_
      cases entry with
      | error detail => rfl
      | ok name =>
        show discoverEntry (reversed view).toDirectoryView root directory _ (.ok name) = List.reverse _
        unfold discoverEntry
        dsimp only
        rw [(sameTree_reversed view).withinScope, (sameTree_reversed view).isFile, (sameTree_reversed view).isDir]
        split_ifs
        · rfl
        · rfl
        · exact ih _
        · rfl

/-- **Listed backwards, the files are found backwards.** -/
theorem discover_reversed (view : DiscoveryView) (root : Path) : discover (reversed view) root = (discover view root).reverse := by
  unfold discover
  split_ifs
  · rfl
  · exact visitTree_reversed _ _

end Cao.Discovery
