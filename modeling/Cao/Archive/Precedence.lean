import Cao.Archive.Winners

/-!
# An explicit precedence

`validate_archive_order` accepts the complete orders of a root's Archives, in any spelling, and no others.

* `archiveKey`: what an Archive is told apart by;
* `ResolveInside`: no spelling of an Archive leads out of its root;
* **`validateArchiveOrder_permutation`**: an order is accepted exactly if it is a permutation of the Archives, which
  are then returned in it.
-/

namespace Cao

variable {table : UpcaseTable} {view : FileView} {root : Path} {archives ordered : List Path}

/-- What an Archive's path is compared by. -/
def archiveKey (table : UpcaseTable) (archive : Path) : List Nat := ordinalKey table (nativeText archive)

/-- Whatever names one of the Archives, ignoring case, resolves inside the root, if it resolves. -/
def ResolveInside (view : FileView) (table : UpcaseTable) (root : Path) (archives : List Path) : Prop :=
  ∀ archive ∈ archives, ∀ path resolved, archiveKey table path = archiveKey table archive →
    view.canonical path = .ok resolved → root <+: resolved

/-- An Archive not yet ordered is found under any spelling. -/
theorem orderArchive_names (hdistinct : (archives.map (archiveKey table)).Nodup)
    (hinside : ResolveInside view table root archives) {requested : List Component} {found : Path}
    (hfound : found ∈ archives) (hnew : found ∉ ordered) (h : Names table root requested found) :
    orderArchive view table root archives ordered requested = .ok (ordered ++ [found]) := by
  obtain ⟨relative, hrelative, hkey⟩ := h
  have hfind : archives.find? (fun archive => (compareOrdinalIgnoreCase table (nativeText archive)
      (nativeText (root ++ relative))).isEq) = some found := by
    cases hf : archives.find? (fun archive => (compareOrdinalIgnoreCase table (nativeText archive)
        (nativeText (root ++ relative))).isEq) with
    | none => exact absurd (compareOrdinalIgnoreCase_isEq.mpr hkey) (List.find?_eq_none.mp hf found hfound)
    | some first =>
      have hfirst := List.find?_some hf
      rw [compareOrdinalIgnoreCase_isEq] at hfirst
      exact congrArg some (List.inj_on_of_nodup_map hdistinct (List.mem_of_find?_eq_some hf) hfound
        (hfirst.trans hkey.symm))
  have hresolves : ∀ resolved, view.canonical (root ++ relative) = .ok resolved → root.isPrefixOf resolved = true :=
    fun resolved hresolved => List.isPrefixOf_iff_prefix.mpr (hinside found hfound _ resolved hkey.symm hresolved)
  unfold orderArchive
  rw [hrelative]
  dsimp only
  cases hcanonical : view.canonical (root ++ relative) with
  | error detail =>
    rw [hfind]
    dsimp only
    rw [if_neg Bool.false_ne_true, if_neg hnew]
  | ok resolved =>
    have hcontained : ¬(!root.isPrefixOf resolved) = true := by
      rw [hresolves resolved hcanonical]
      exact Bool.false_ne_true
    rw [hfind]
    dsimp only
    rw [if_neg hcontained, if_neg hnew]

/-- **Distinct Archives are ordered as they are named.** -/
theorem foldlM_orderArchive_names (hdistinct : (archives.map (archiveKey table)).Nodup)
    (hinside : ResolveInside view table root archives) {order : List (List Component)} {named : List Path}
    (h : List.Forall₂ (Names table root) order named) (hnodup : (ordered ++ named).Nodup) (hsub : named ⊆ archives) :
    order.foldlM (orderArchive view table root archives) ordered = .ok (ordered ++ named) := by
  induction h generalizing ordered with
  | nil => exact congrArg Except.ok (List.append_nil ordered).symm
  | @cons requested found order named hnames _ ih =>
    have hnew : found ∉ ordered := fun hmem => (List.nodup_append.mp hnodup).2.2 _ hmem _ List.mem_cons_self rfl
    rw [List.foldlM_cons, orderArchive_names hdistinct hinside (hsub List.mem_cons_self) hnew hnames]
    have hnodup' : ((ordered ++ [found]) ++ named).Nodup := by simpa using hnodup
    have hrest := ih hnodup' fun a ha => hsub (List.mem_cons_of_mem _ ha)
    rw [List.append_assoc, List.singleton_append] at hrest
    exact hrest

/-- An accepted order is of all the Archives. -/
theorem validateArchiveOrder_ok (hdistinct : (archives.map (archiveKey table)).Nodup)
    (hinside : ResolveInside view table root archives) (order : List (List Component)) (ordered : List Path) :
    validateArchiveOrder view table root archives order = .ok ordered ↔
      ordered.Perm archives ∧ List.Forall₂ (Names table root) order ordered := by
  have hnodup : archives.Nodup := List.Nodup.of_map _ hdistinct
  constructor
  · intro h
    unfold validateArchiveOrder at h
    split at h
    · cases h
    · next hfold =>
      split_ifs at h with hlength
      cases h
      obtain ⟨_, rfl, hnames, hn, hs⟩ := foldlM_orderArchive hfold List.nodup_nil (by simp)
      exact ⟨(List.subperm_of_subset hn hs).perm_of_length_le (by omega), hnames⟩
  · rintro ⟨hperm, hnames⟩
    have hfold : order.foldlM (orderArchive view table root archives) [] = .ok ([] ++ ordered) :=
      foldlM_orderArchive_names hdistinct hinside hnames (hperm.nodup_iff.mpr hnodup) hperm.subset
    unfold validateArchiveOrder
    rw [hfold]
    dsimp only
    rw [List.nil_append, if_neg (not_not.mpr hperm.length_eq)]

/-- The paths an order names, if it names any outside the root it is none. -/
def normalizedOrder (root : Path) (order : List (List Component)) : Option (List Path) :=
  (order.mapM containedRelative).map fun relatives => relatives.map (root ++ ·)

theorem normalizedOrder_cons {requested : List Component} {order : List (List Component)} {paths : List Path} :
    normalizedOrder root (requested :: order) = some paths ↔ ∃ relative rest,
      containedRelative requested = some relative ∧ normalizedOrder root order = some rest ∧
        paths = (root ++ relative) :: rest := by
  unfold normalizedOrder
  rw [List.mapM_cons]
  cases containedRelative requested with
  | none => simp
  | some relative =>
    cases order.mapM containedRelative with
    | none => simp
    | some relatives => simp [eq_comm]

/-- What an order names is what it is normalized to, in other spellings. -/
theorem forall₂_names_iff {order : List (List Component)} {named : List Path} :
    List.Forall₂ (Names table root) order named ↔
      ∃ paths, normalizedOrder root order = some paths ∧ named.map (archiveKey table) = paths.map (archiveKey table) := by
  induction order generalizing named with
  | nil =>
    rw [List.forall₂_nil_left_iff]
    constructor
    · rintro rfl
      exact ⟨[], rfl, rfl⟩
    · rintro ⟨paths, hpaths, hkeys⟩
      cases hpaths
      exact List.map_eq_nil_iff.mp hkeys
  | cons requested order ih =>
    constructor
    · intro h
      cases h with
      | cons hnames hrest =>
        obtain ⟨relative, hrelative, hkey⟩ := hnames
        obtain ⟨paths, hpaths, hkeys⟩ := ih.mp hrest
        refine ⟨(root ++ relative) :: paths, normalizedOrder_cons.mpr ⟨relative, paths, hrelative, hpaths, rfl⟩, ?_⟩
        rw [List.map_cons, List.map_cons, hkeys]
        exact congrArg (· :: _) hkey
    · rintro ⟨paths, hpaths, hkeys⟩
      obtain ⟨relative, rest, hrelative, hrest, rfl⟩ := normalizedOrder_cons.mp hpaths
      cases named with
      | nil => cases hkeys
      | cons found named =>
        obtain ⟨hkey, hkeys⟩ := List.cons.inj hkeys
        exact .cons ⟨relative, hrelative, hkey⟩ (ih.mpr ⟨rest, hrest, hkeys⟩)

/-- What has the keys of the Archives, in some order, is the Archives in that order. -/
theorem exists_ordered (hdistinct : (archives.map (archiveKey table)).Nodup) {keys : List (List Nat)}
    (h : keys.Perm (archives.map (archiveKey table))) :
    ∃ ordered : List Path, ordered.Perm archives ∧ ordered.map (archiveKey table) = keys := by
  have hpick : ∀ keys : List (List Nat), keys ⊆ archives.map (archiveKey table) →
      ∃ ordered : List Path, ordered ⊆ archives ∧ ordered.map (archiveKey table) = keys := by
    intro keys hkeys
    induction keys with
    | nil => exact ⟨[], List.nil_subset _, rfl⟩
    | cons k keys ih =>
      obtain ⟨archive, harchive, rfl⟩ := List.mem_map.mp (hkeys List.mem_cons_self)
      obtain ⟨ordered, hordered, rfl⟩ := ih fun k' hk' => hkeys (List.mem_cons_of_mem _ hk')
      exact ⟨archive :: ordered, List.cons_subset.mpr ⟨harchive, hordered⟩, rfl⟩
  obtain ⟨ordered, hsub, rfl⟩ := hpick keys h.subset
  have hnodup : ordered.Nodup := List.Nodup.of_map _ (h.nodup_iff.mpr hdistinct)
  have hlength := h.length_eq
  rw [List.length_map, List.length_map] at hlength
  exact ⟨ordered, (List.subperm_of_subset hnodup hsub).perm_of_length_le hlength.ge, rfl⟩

/-- **An order is accepted exactly if it is a permutation of the Archives**, normalized and ignoring case, and then the
Archives are returned in that order, none lost and none repeated. -/
theorem validateArchiveOrder_permutation (view : FileView) (table : UpcaseTable) (root : Path) (archives : List Path)
    (order : List (List Component)) (hdistinct : (archives.map (archiveKey table)).Nodup)
    (hinside : ResolveInside view table root archives) :
    ((∃ ordered, validateArchiveOrder view table root archives order = .ok ordered) ↔
      ∃ paths, normalizedOrder root order = some paths ∧
        (paths.map (archiveKey table)).Perm (archives.map (archiveKey table))) ∧
    ∀ ordered, validateArchiveOrder view table root archives order = .ok ordered ↔
      ordered.Perm archives ∧ ∃ paths, normalizedOrder root order = some paths ∧
        ordered.map (archiveKey table) = paths.map (archiveKey table) := by
  have hok : ∀ ordered, validateArchiveOrder view table root archives order = .ok ordered ↔
      ordered.Perm archives ∧ ∃ paths, normalizedOrder root order = some paths ∧
        ordered.map (archiveKey table) = paths.map (archiveKey table) := by
    intro ordered
    rw [validateArchiveOrder_ok hdistinct hinside, forall₂_names_iff]
  refine ⟨⟨?_, ?_⟩, hok⟩
  · rintro ⟨ordered, h⟩
    obtain ⟨hperm, paths, hpaths, hkeys⟩ := (hok ordered).mp h
    exact ⟨paths, hpaths, hkeys ▸ hperm.map _⟩
  · rintro ⟨paths, hpaths, hperm⟩
    obtain ⟨ordered, hordered, hkeys⟩ := exists_ordered hdistinct hperm
    exact ⟨ordered, (hok ordered).mpr ⟨hordered, paths, hpaths, hkeys⟩⟩

/-- Two Archives of a root. -/
def orderedArchives : List Path := [["m".toList, "a.bsa".toList].map OsStr.ofText, ["m".toList, "b.bsa".toList].map OsStr.ofText]

/-- A file system that resolves either Archive, under any spelling. -/
def orderedView : FileView where
  canonical path :=
    match orderedArchives.find? fun archive => archiveKey asciiUpcase path = archiveKey asciiUpcase archive with
    | some archive => .ok archive
    | none => .error "absent"
  weaklyCanonical := .ok
  readDir _ := .ok []
  symlinkMetadata _ := .error "absent"
  isFile _ := false

/-- The second Archive first, spelled otherwise, and the first by a way around. -/
def spelledOrder : List (List Component) :=
  [[.curDir, .normal (OsStr.ofText "B.BSA".toList)],
    [.normal (OsStr.ofText "x".toList), .parentDir, .normal (OsStr.ofText "a.bsa".toList)]]

theorem validateArchiveOrder_permutation_sample :
    validateArchiveOrder orderedView asciiUpcase [OsStr.ofText "m".toList] orderedArchives spelledOrder =
      .ok orderedArchives.reverse := by
  refine ((validateArchiveOrder_permutation orderedView asciiUpcase [OsStr.ofText "m".toList] orderedArchives
    spelledOrder (by decide +kernel) ?_).2 _).mpr ⟨List.reverse_perm _, _, rfl, by decide +kernel⟩
  have hroot : ∀ archive ∈ orderedArchives, [OsStr.ofText "m".toList] <+: archive := forall_of_all (by decide)
  intro archive _ path resolved _ hresolved
  refine hroot resolved ?_
  unfold orderedView at hresolved
  dsimp only at hresolved
  split at hresolved
  · next found hfound =>
    cases hresolved
    exact List.mem_of_find?_eq_some hfound
  · cases hresolved

end Cao
