import Cao.Pack.Split

/-!
# Merging loses nothing

The two joins of a merge, and what they do to the files, the kinds and the sizes.

* `Absorbed`, `join_cases`: what one join can do;
* `Merged`, `merge_cases`: what a merge can do;
* **`split_merge_shares`**: every packed source is in exactly one Archive, of its kind;
* **`split_merge_sized`**: every Archive records its size and keeps the limit.
-/

namespace Cao.Pack

variable {checks : OverflowChecks} {settings : Settings} {root : Path}

/-! ## Joins -/

/-- What an Archive is once it absorbed another, and what is left of that one. -/
structure Absorbed (checks : OverflowChecks) (data other data' other' : ArchiveData) : Prop where
  size : addU64 checks data.size other.size = some data'.size
  size_lt : data'.size < data.archiveLimit
  files : data'.files = data.files ++ other.files
  archiveLimit : data'.archiveLimit = data.archiveLimit
  archiveType : data'.archiveType = ArchiveData.absorbedType data.archiveType other.archiveType
  version : data'.version = data.version
  layout : (data'.layout = data.layout ∧ (data.layout = none ∨ other.layout = none)) ∨
    ∃ layout layout' bound, data.layout = some layout ∧ other.layout = some layout' ∧
      layout.mergedBound checks layout' = some bound ∧ bound ≤ layout.cap ∧
      data'.layout = some { layout with bound, directories := layout.directories ∪ layout'.directories }
  left : other'.files = [] ∧ other'.size = 0

theorem absorbed_of_absorb {data other data' other' : ArchiveData}
    (hfits : data.canAbsorb checks other = some true) (h : data.absorb checks other = some (data', other')) :
    Absorbed checks data other data' other' := by
  unfold ArchiveData.canAbsorb at hfits
  unfold ArchiveData.absorb ArchiveData.absorbLayout at h
  cases hs : addU64 checks data.size other.size with
  | none => simp [hs] at h
  | some total =>
    simp only [hs, Option.bind_eq_bind, Option.bind_some, Option.pure_def] at hfits h
    rcases hl : data.layout with _ | layout
    · simp only [hl, Option.bind_some, Option.some.injEq, Prod.mk.injEq, Bool.and_true, decide_eq_true_eq] at hfits h
      obtain ⟨rfl, rfl⟩ := h
      exact ⟨hs, hfits, rfl, rfl, rfl, rfl, .inl ⟨hl.symm, .inl hl⟩, rfl, rfl⟩
    rcases hl' : other.layout with _ | layout'
    · simp only [hl, hl', Option.bind_some, Option.some.injEq, Prod.mk.injEq, Bool.and_true, decide_eq_true_eq]
        at hfits h
      obtain ⟨rfl, rfl⟩ := h
      exact ⟨hs, hfits, rfl, rfl, rfl, rfl, .inl ⟨hl.symm, .inr hl'⟩, rfl, rfl⟩
    cases hb : layout.mergedBound checks layout' with
    | none => simp [hl, hl', hb] at hfits
    | some bound =>
      simp only [hl, hl', hb, CappedLayout.absorb, Option.map_some, Option.bind_some, Option.some.injEq,
        Option.bind_eq_bind, Option.pure_def, Prod.mk.injEq, Bool.and_eq_true, decide_eq_true_eq] at hfits h
      obtain ⟨rfl, rfl⟩ := h
      exact ⟨hs, hfits.1, rfl, rfl, rfl, rfl,
        .inr ⟨layout, layout', bound, hl, hl', hb, hfits.2, rfl⟩, rfl, rfl⟩

/-- A join leaves both as they are, or one absorbs the other. -/
def Joined (checks : OverflowChecks) (wanted : Bool) (data other data' other' : ArchiveData) : Prop :=
  (data' = data ∧ other' = other) ∨ (wanted = true ∧ Absorbed checks data other data' other')

theorem join_cases {wanted : Bool} {data other data' other' : ArchiveData}
    (h : SplitArchives.join checks wanted data other = some (data', other')) :
    Joined checks wanted data other data' other' := by
  unfold SplitArchives.join at h
  cases wanted with
  | false =>
    simp only [Bool.false_eq_true, ↓reduceIte, Option.pure_def, Option.some.injEq, Prod.mk.injEq] at h
    exact .inl ⟨h.1.symm, h.2.symm⟩
  | true =>
    cases hfits : data.canAbsorb checks other with
    | none => simp [hfits] at h
    | some fits =>
      cases fits with
      | false =>
        simp only [↓reduceIte, hfits, Option.bind_eq_bind, Option.bind_some, Bool.false_eq_true, Option.pure_def,
          Option.some.injEq, Prod.mk.injEq] at h
        exact .inl ⟨h.1.symm, h.2.symm⟩
      | true =>
        simp only [↓reduceIte, hfits, Option.bind_eq_bind, Option.bind_some] at h
        exact .inr ⟨rfl, absorbed_of_absorb hfits h⟩

theorem absorbedType_ne_textures {type other : ArchiveType} (h : type ≠ .textures) :
    ArchiveData.absorbedType type other ≠ .textures := by
  cases type <;> cases other <;> simp_all [ArchiveData.absorbedType]

theorem Joined.archiveType {wanted : Bool} {data other data' other' : ArchiveData}
    (h : Joined checks wanted data other data' other') (htype : data.archiveType ≠ .textures) :
    data'.archiveType ≠ .textures := by
  rcases h with ⟨rfl, -⟩ | ⟨-, h⟩
  · exact htype
  · rw [h.archiveType]
    exact absorbedType_ne_textures htype

/-- What a merge can do: the Incompressible partition joins the Standard one or not, then the Textures
partition does. -/
theorem merge_cases {split : SplitArchives} {merge : MergeSettings} {archives : List ArchiveData}
    (h : split.merge checks merge = some archives) :
    ∃ standard incompressible merged textures,
      Joined checks merge.incompressible split.standard split.incompressible standard incompressible ∧
      Joined checks merge.textures standard split.textures merged textures ∧
      archives = (split.full ++ [merged, incompressible, textures]).filter fun archive => archive.files ≠ [] := by
  unfold SplitArchives.merge at h
  cases hi : SplitArchives.join checks merge.incompressible split.standard split.incompressible with
  | none => simp [hi] at h
  | some first =>
    cases ht : SplitArchives.join checks merge.textures first.1 split.textures with
    | none => simp [hi, ht] at h
    | some second =>
      simp only [hi, ht, Option.bind_eq_bind, Option.bind_some, Option.pure_def, Option.some.injEq] at h
      exact ⟨_, _, _, _, join_cases hi, join_cases ht, h.symm⟩

/-! ## The induction over a merge -/

variable {P : ArchiveData → List PackSource → Prop}

/-- An Archive that satisfies `P`, or what is left of one. -/
def OrEmptied (P : ArchiveData → List PackSource → Prop) (data : ArchiveData) (group : List PackSource) : Prop :=
  P data group ∨ (data.files = [] ∧ group = [])

theorem Joined.grouped {wanted : Bool} {data other data' other' : ArchiveData} {group group' : List PackSource}
    (habsorb : Absorbed checks data other data' other' → P data' (group ++ group'))
    (h : Joined checks wanted data other data' other') (hd : P data group) (ho : P other group') :
    ∃ joined left, P data' joined ∧ OrEmptied P other' left ∧ joined ++ left = group ++ group' := by
  rcases h with ⟨rfl, rfl⟩ | ⟨-, h⟩
  · exact ⟨group, group', hd, .inl ho, rfl⟩
  · exact ⟨group ++ group', [], habsorb h, .inr ⟨h.left.1, rfl⟩, List.append_nil _⟩

theorem forall₂_filter (hfiles : ∀ data group, P data group → data.files = group.map PackSource.path)
    {archives : List ArchiveData} {groups : List (List PackSource)}
    (h : List.Forall₂ (OrEmptied P) archives groups) :
    ∃ kept, List.Forall₂ P (archives.filter fun archive => archive.files ≠ []) kept ∧
      kept.flatten = groups.flatten := by
  induction h with
  | nil => exact ⟨[], .nil, rfl⟩
  | @cons archive group archives groups h _ ih =>
    obtain ⟨kept, hkept, hflat⟩ := ih
    by_cases hf : archive.files = []
    · have hgroup : group = [] := by
        rcases h with h | h
        · exact List.map_eq_nil_iff.mp ((hfiles _ _ h).symm.trans hf)
        · exact h.2
      exact ⟨kept, by rwa [List.filter_cons_of_neg (by simpa using hf)], by simp [hflat, hgroup]⟩
    · have hP : P archive group := h.resolve_right fun h => hf h.1
      exact ⟨group :: kept, by rw [List.filter_cons_of_pos (by simpa using hf)]; exact .cons hP hkept,
        by simp [hflat]⟩

/-- **The induction over a merge**: a property of one Archive that a join keeps is of every Archive of the
result, and these share out the sources again. -/
theorem merge_induction {split : SplitArchives} {full : List Group} {opened : Opened} {merge : MergeSettings}
    {archives : List ArchiveData} (hfiles : ∀ data group, P data group → data.files = group.map PackSource.path)
    (habsorb : ∀ {data other data' other' group group'}, P data group → P other group' →
      data.archiveType ≠ .textures → (group ++ group').Subperm (sharedOut full opened) → Absorbed checks data other data' other' →
      P data' (group ++ group'))
    (hg : Grouped P split full opened) (hm : split.merge checks merge = some archives) :
    ∃ groups, List.Forall₂ P archives groups ∧ groups.flatten.Perm (sharedOut full opened) := by
  obtain ⟨standard, incompressible, merged, textures, hi, ht, rfl⟩ := merge_cases hm
  have hstandard : P split.standard (opened .standard) := (hg.opened .standard).2
  have hincompressible : P split.incompressible (opened .incompressible) := (hg.opened .incompressible).2
  have htextures : P split.textures (opened .textures) := (hg.opened .textures).2
  have hsub : (opened .standard ++ opened .incompressible ++ opened .textures).Subperm (sharedOut full opened) := by
    rw [List.append_assoc]
    exact (List.sublist_append_right _ _).subperm
  have htype : split.standard.archiveType ≠ .textures := by
    have htype : split.standard.archiveType = .standard := (hg.opened .standard).1
    simp [htype]
  obtain ⟨first, left, hfirst, hleft, happend⟩ := hi.grouped
    (habsorb hstandard hincompressible htype ((List.sublist_append_left _ _).subperm.trans hsub)) hstandard hincompressible
  have hsub' : (first ++ opened .textures).Subperm (sharedOut full opened) := by
    refine List.Subperm.trans ?_ hsub
    rw [← happend]
    exact ((List.sublist_append_left first left).append_right _).subperm
  obtain ⟨second, left', hsecond, hleft', happend'⟩ := ht.grouped
    (habsorb hfirst htextures (hi.archiveType htype) hsub') hfirst htextures
  have hfull : List.Forall₂ (OrEmptied P) split.full (full.map Prod.snd) := by
    rw [List.forall₂_map_right_iff]
    exact hg.full.imp fun _ _ h => .inl h.2
  obtain ⟨kept, hkept, hflat⟩ := forall₂_filter hfiles
    (List.rel_append hfull (.cons (.inl hsecond) (.cons hleft (.cons hleft' .nil))))
  refine ⟨kept, hkept, hflat ▸ ?_⟩
  rw [List.perm_iff_count]
  intro source
  have hi := congrArg (List.count source) happend
  have ht := congrArg (List.count source) happend'
  simp only [sharedOut, List.flatMap, List.flatten_append, List.flatten_cons, List.flatten_nil, List.count_append,
    List.count_nil] at hi ht ⊢
  omega

/-! ## Nothing is lost, and every file is with its kind -/

/-- A file of an Archive is with files of its kind, but for what `merge` asks for. -/
structure WithItsKind (settings : Settings) (root : Path) (merge : MergeSettings) (inMerged : Prop)
    (archive : ArchiveData) (path : Path) : Prop where
  standard : fileType path root settings = .standard →
    archive.archiveType = .standard ∨ (merge.incompressible = true ∧ archive.archiveType = .incompressible)
  incompressible : fileType path root settings = .incompressible → archive.archiveType = .incompressible
  texture : fileType path root settings = .texture →
    archive.archiveType = .textures ∨ (merge.textures = true ∧ inMerged)
  packed : (packedAs (fileType path root settings)).isSome
  unmixed : ¬inMerged → packedAs (fileType path root settings) = some archive.archiveType

/-- The files of a group, all of one kind, in the container of that kind. -/
structure OneKind (settings : Settings) (root : Path) (data : ArchiveData) (group : List PackSource) : Prop where
  files : data.files = group.map PackSource.path
  kind : ∀ path ∈ data.files, packedAs (fileType path root settings) = some data.archiveType
  version : data.version = settings.versionFor data.archiveType

theorem oneKind_new (type : ArchiveType) : OneKind settings root (.new settings type) [] :=
  ⟨rfl, by simp [ArchiveData.new], rfl⟩

theorem OneKind.added {data data' : ArchiveData} {group : List PackSource} {source : PackSource}
    (h : OneKind settings root data group) (hkind : partitionOf settings root source = some data.archiveType)
    (ha : Added checks data source.path source.size data') :
    OneKind settings root data' (group ++ [source]) where
  files := by simp [ha.files, h.files]
  kind := by
    intro path hpath
    rw [ha.files, List.mem_append, List.mem_singleton] at hpath
    rw [ha.archiveType]
    rcases hpath with hpath | rfl
    · exact h.kind path hpath
    · exact hkind
  version := by rw [ha.version, ha.archiveType, h.version]

theorem WithItsKind.of_unmixed {merge : MergeSettings} {inMerged : Prop} {archive : ArchiveData} {path : Path}
    (h : packedAs (fileType path root settings) = some archive.archiveType) :
    WithItsKind settings root merge inMerged archive path where
  standard hf := .inl (by simpa [hf, packedAs, eq_comm] using h)
  incompressible hf := by simpa [hf, packedAs, eq_comm] using h
  texture hf := .inl (by simpa [hf, packedAs, eq_comm] using h)
  packed := by simp [h]
  unmixed _ := h

theorem Joined.version {wanted : Bool} {data other data' other' : ArchiveData}
    (h : Joined checks wanted data other data' other') : data'.version = data.version := by
  rcases h with ⟨rfl, -⟩ | ⟨-, h⟩
  · rfl
  · exact h.version

/-- What is left of an Archive that was joined is the Archive itself, or empty. -/
theorem Joined.left {wanted : Bool} {data other data' other' : ArchiveData}
    (h : Joined checks wanted data other data' other') : other' = other ∨ other'.files = [] := by
  rcases h with ⟨-, rfl⟩ | ⟨-, h⟩
  · exact .inl rfl
  · exact .inr h.left.1

/-- Where an entry of a filtered list stood, seen from one of its entries. -/
theorem getElem?_filter_append_cons {α : Type} {before after : List α} {p : α → Bool} {a b : α} {index : Nat}
    (h : ((before ++ a :: after).filter p)[index]? = some b) :
    p b = true ∧ (b ∈ before ∨ (index = (before.filter p).length ∧ b = a) ∨ b ∈ after) := by
  have hb := List.mem_of_getElem? h
  have hp := (List.mem_filter.mp hb).2
  refine ⟨hp, ?_⟩
  rw [List.filter_append, List.getElem?_append] at h
  split_ifs at h with hi
  · exact .inl (List.mem_of_mem_filter (List.mem_of_getElem? h))
  · refine .inr ?_
    rw [List.filter_cons] at h
    split_ifs at h with ha
    · rw [List.getElem?_cons] at h
      split_ifs at h with hz
      · exact .inl ⟨by omega, by simpa using h.symm⟩
      · exact .inr (List.mem_of_mem_filter (List.mem_of_getElem? h))
    · exact .inr (List.mem_of_mem_filter (List.mem_of_getElem? h))

/-- An Archive of the result is the merged one, or a partition of the split. -/
theorem merged_or_held {split : SplitArchives} {merge : MergeSettings}
    {standard incompressible merged textures archive : ArchiveData} {index : Nat}
    (hi : Joined checks merge.incompressible split.standard split.incompressible standard incompressible)
    (ht : Joined checks merge.textures standard split.textures merged textures)
    (h : ((split.full ++ [merged, incompressible, textures]).filter
      fun archive => archive.files ≠ [])[index]? = some archive) :
    (index = (split.full.filter fun archive => archive.files ≠ []).length ∧ archive = merged) ∨
      split.Holds archive := by
  obtain ⟨hfiles, ha⟩ := getElem?_filter_append_cons h
  have hfiles : archive.files ≠ [] := by simpa using hfiles
  rcases ha with ha | ha | ha
  · exact .inr (.inl ha)
  · exact .inl ha
  · rw [List.mem_cons, List.mem_singleton] at ha
    rcases ha with rfl | rfl
    · exact .inr (.inr ⟨.incompressible, hi.left.resolve_right hfiles⟩)
    · exact .inr (.inr ⟨.textures, ht.left.resolve_right hfiles⟩)

/-- The files of the merged Archive, each with its kind but for what was asked for. -/
theorem withItsKind_merged {split : SplitArchives} {merge : MergeSettings}
    {standard incompressible merged textures : ArchiveData} {inMerged : Prop}
    (hkind : ∀ type, ∀ path ∈ (split.partition type).files, packedAs (fileType path root settings) = some type)
    (htype : ∀ type, (split.partition type).archiveType = type)
    (hi : Joined checks merge.incompressible split.standard split.incompressible standard incompressible)
    (ht : Joined checks merge.textures standard split.textures merged textures) (hm : inMerged) :
    ∀ path ∈ merged.files, WithItsKind settings root merge inMerged merged path := by
  have hstandard : split.standard.archiveType = .standard := htype .standard
  have hincompressible : split.incompressible.archiveType = .incompressible := htype .incompressible
  have htextures : split.textures.archiveType = .textures := htype .textures
  -- The Standard partition holds Standard files, and Incompressible ones only once it is Incompressible.
  have hfirst : (standard.archiveType = .standard ∨
      merge.incompressible = true ∧ standard.archiveType = .incompressible) ∧
      ∀ path ∈ standard.files, packedAs (fileType path root settings) = some .standard ∨
        (packedAs (fileType path root settings) = some .incompressible ∧
          standard.archiveType = .incompressible) := by
    rcases hi with ⟨rfl, -⟩ | ⟨hwanted, hi⟩
    · exact ⟨.inl hstandard, fun path hpath => .inl (hkind .standard path hpath)⟩
    · have htype : standard.archiveType = .incompressible := by
        rw [hi.archiveType, hincompressible]
        simp [ArchiveData.absorbedType]
      refine ⟨.inr ⟨hwanted, htype⟩, fun path hpath => ?_⟩
      rw [hi.files, List.mem_append] at hpath
      rcases hpath with hpath | hpath
      · exact .inl (hkind .standard path hpath)
      · exact .inr ⟨hkind .incompressible path hpath, htype⟩
  have hsecond : merged.archiveType = standard.archiveType ∧ ∀ path ∈ merged.files, path ∈ standard.files ∨
      (merge.textures = true ∧ packedAs (fileType path root settings) = some .textures) := by
    rcases ht with ⟨rfl, -⟩ | ⟨hwanted, ht⟩
    · exact ⟨rfl, fun path hpath => .inl hpath⟩
    · refine ⟨?_, fun path hpath => ?_⟩
      · rw [ht.archiveType, htextures]
        rcases hfirst.1 with h | ⟨-, h⟩ <;> simp [ArchiveData.absorbedType, h]
      · rw [ht.files, List.mem_append] at hpath
        exact hpath.imp_right fun hpath => ⟨hwanted, hkind .textures path hpath⟩
  intro path hpath
  have hpacked : ∀ type, fileType path root settings = type → packedAs (fileType path root settings) = packedAs type :=
    fun type h => by rw [h]
  rcases hsecond.2 path hpath with hpath | ⟨hwanted, hpath⟩
  · rcases hfirst.2 path hpath with hk | ⟨hk, htype⟩
    · refine ⟨fun _ => hsecond.1 ▸ hfirst.1, fun hf => ?_, fun hf => ?_, by simp [hk], fun hn => absurd hm hn⟩
      · simp [hf, packedAs] at hk
      · simp [hf, packedAs] at hk
    · refine ⟨fun hf => ?_, fun _ => hsecond.1.trans htype, fun hf => ?_, by simp [hk], fun hn => absurd hm hn⟩
      · simp [hf, packedAs] at hk
      · simp [hf, packedAs] at hk
  · refine ⟨fun hf => ?_, fun hf => ?_, fun _ => .inr ⟨hwanted, hm⟩, by simp [hpath], fun hn => absurd hm hn⟩
    · simp [hf, packedAs] at hpath
    · simp [hf, packedAs] at hpath

/-- **Every file is with its kind**, but in one Archive at most, and there as the merge settings ask. -/
theorem split_merge_kinds {sources : List PackSource} {split : SplitArchives} {merge : MergeSettings}
    {archives : List ArchiveData} (hs : SplitArchives.split checks root sources settings = some (.ok split))
    (hm : split.merge checks merge = some archives) :
    ∃ mixed, ∀ (index : Nat) archive, archives[index]? = some archive →
      (archive.archiveType = .incompressible → archive.version = settings.versionFor .incompressible) ∧
      ∀ path ∈ archive.files, WithItsKind settings root merge (index = mixed) archive path := by
  obtain ⟨full, opened, hg, -⟩ := split_induction (P := OneKind settings root)
    oneKind_new (fun _ _ _ _ _ h hkind ha => h.added hkind ha) hs
  obtain ⟨standard, incompressible, merged, textures, hi, ht, rfl⟩ := merge_cases hm
  have htypes : ∀ type, (split.partition type).archiveType = type := fun type => (hg.opened type).1
  have hkind : ∀ type, ∀ path ∈ (split.partition type).files,
      packedAs (fileType path root settings) = some type := by
    intro type path hpath
    rw [(hg.opened type).2.kind path hpath, htypes]
  refine ⟨(split.full.filter fun archive => archive.files ≠ []).length, fun index archive hindex => ?_⟩
  rcases merged_or_held hi ht hindex with ⟨rfl, rfl⟩ | hheld
  · refine ⟨fun _ => ?_, withItsKind_merged hkind htypes hi ht rfl⟩
    rw [ht.version, hi.version]
    exact (hg.opened .standard).2.version.trans (by rw [htypes .standard]; rfl)
  · obtain ⟨group, hone⟩ := hg.holds hheld
    exact ⟨fun htype => by rw [hone.version, htype], fun path hpath => .of_unmixed (hone.kind path hpath)⟩

/-- **The sources that are packed are shared out.** -/
theorem split_merge_files {sources : List PackSource} {split : SplitArchives} {merge : MergeSettings}
    {archives : List ArchiveData} (hs : SplitArchives.split checks root sources settings = some (.ok split))
    (hm : split.merge checks merge = some archives) :
    (archives.flatMap ArchiveData.files).Perm ((sources.filter (isPacked settings root)).map PackSource.path) := by
  obtain ⟨full, opened, hg, hperm⟩ := split_induction
    (P := fun data group => data.files = group.map PackSource.path) (fun _ => rfl)
    (fun _ _ _ _ _ h _ ha => by rw [ha.files, h, List.map_append, List.map_singleton]) hs
  obtain ⟨groups, hgroups, hflat⟩ := merge_induction (fun _ _ h => h)
    (fun h h' _ _ ha => by rw [ha.files, h, h', List.map_append]) hg hm
  have hfiles : archives.flatMap ArchiveData.files = groups.flatten.map PackSource.path := by
    clear hflat hm
    induction hgroups with
    | nil => rfl
    | cons h _ ih => rw [List.flatMap_cons, List.flatten_cons, List.map_append, h, ih]
  rw [hfiles]
  exact (hflat.trans hperm).map _

theorem merge_ne_nil {split : SplitArchives} {merge : MergeSettings} {archives : List ArchiveData}
    (hm : split.merge checks merge = some archives) {archive : ArchiveData} (ha : archive ∈ archives) :
    archive.files ≠ [] := by
  obtain ⟨_, _, _, _, -, -, rfl⟩ := merge_cases hm
  simpa using (List.mem_filter.mp ha).2

/-- **Splitting and merging lose and duplicate nothing**: what is packed is shared out over non-empty
Archives, every file is with its kind but for what the merge settings ask for, an Incompressible file is
never compressed, and one Archive at most mixes kinds. -/
theorem split_merge_shares {game : Game} {requestedLimit : Option UInt64} {sources : List PackSource}
    {split : SplitArchives} {merge : MergeSettings} {archives : List ArchiveData}
    (hs : SplitArchives.split checks root sources (.forProfile game requestedLimit) = some (.ok split))
    (hm : split.merge checks merge = some archives) :
    (archives.flatMap ArchiveData.files).Perm
      ((sources.filter (isPacked (.forProfile game requestedLimit) root)).map PackSource.path) ∧
    (∀ archive ∈ archives, archive.files ≠ []) ∧
    (∀ archive ∈ archives, archive.archiveType = .incompressible → ∀ compress, archive.compressed compress = false) ∧
    ∃ mixed, ∀ (index : Nat) archive, archives[index]? = some archive → ∀ path ∈ archive.files,
      WithItsKind (.forProfile game requestedLimit) root merge (index = mixed) archive path := by
  obtain ⟨mixed, hkinds⟩ := split_merge_kinds hs hm
  refine ⟨split_merge_files hs hm, fun archive => merge_ne_nil hm, fun archive ha htype compress => ?_,
    mixed, fun index archive hindex => (hkinds index archive hindex).2⟩
  obtain ⟨index, hindex⟩ := List.mem_iff_getElem?.mp ha
  have hversion := (hkinds index archive hindex).1 htype
  rw [forProfile_versionFor] at hversion
  cases game <;> simp [ArchiveData.compressed, htype, hversion]

/-! ### A file of each kind -/

/-- A file of each kind that is packed, and one that is not. -/
def mixedSources : List PackSource := [
  ⟨pathOf ["m", "meshes", "a.nif"], 3, by decide, by decide⟩,
  ⟨pathOf ["m", "meshes", "b.xyz"], 1, by decide, by decide⟩,
  ⟨pathOf ["m", "scripts", "c.pex"], 2, by decide, by decide⟩,
  ⟨pathOf ["m", "textures", "d.dds"], 4, by decide, by decide⟩]

/-- The partitions of the sources of each kind. -/
def mixedSplit : SplitArchives :=
  match SplitArchives.placeAll .on (.forProfile .sse (some 6)) (pathOf ["m"]) (.start (.forProfile .sse (some 6)))
    mixedSources with
  | some (.ok split) => split
  | _ => .start (.forProfile .sse (some 6))

theorem split_mixedSources :
    SplitArchives.split .on (pathOf ["m"]) mixedSources (.forProfile .sse (some 6)) = some (.ok mixedSplit) := by
  rw [split_of_sorted (by decide +kernel)]
  decide +kernel

/-- The Archives of the sources of each kind. -/
def mixedArchives : List ArchiveData := (mixedSplit.merge .on ⟨true, true⟩).getD []

theorem merge_mixedSplit : mixedSplit.merge .on ⟨true, true⟩ = some mixedArchives := by decide +kernel

/-- The merge of a file of each kind. -/
theorem split_merge_shares_sample :
    (mixedArchives.flatMap ArchiveData.files).Perm
      ((mixedSources.filter (isPacked (.forProfile .sse (some 6)) (pathOf ["m"]))).map PackSource.path) :=
  (split_merge_shares split_mixedSources merge_mixedSplit).1

end Cao.Pack
