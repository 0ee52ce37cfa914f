import Cao.Pack.Bounds

/-!
# Where the size arithmetic overflows

Splitting overflows nowhere. A merge adds two summed sizes unguarded, so for a game without a cap it
overflows exactly where the open partitions it would join are that large.

* `addFile_total`, `split_total`: splitting never overflows;
* `lastGroupSize`, `partition_size`: the size of an open partition, from the sizes alone;
* **`neverOverflows_iff`**: what the sizes have to satisfy.
-/

namespace Cao.Pack

variable {checks : OverflowChecks} {settings : Settings} {root : Path}

/-- No addition of a split and its merge is out of range. -/
def NeverOverflows (settings : Settings) (root : Path) (sources : List PackSource) (merge : MergeSettings) : Prop :=
  SplitArchives.split .on root sources settings ≠ none ∧
  ∀ split, SplitArchives.split .on root sources settings = some (.ok split) → split.merge .on merge ≠ none

/-! ## Splitting -/

variable (checks) in
theorem addFile_total (hrules : CappedRules settings) {data : ArchiveData} {group : List PackSource}
    (h : Laid settings data group) (source : PackSource) :
    ∃ added, data.addFile checks source.path source.size = some added := by
  unfold ArchiveData.addFile
  split
  · exact ⟨_, rfl⟩
  · split_ifs
    · exact ⟨_, rfl⟩
    · cases hlayout : data.layout with
      | none => exact ⟨_, rfl⟩
      | some layout =>
        obtain ⟨added, hadded, -⟩ := add_layoutOf checks hrules (h.layout.symm.trans hlayout) source
        simp only [hadded, Option.bind_eq_bind, Option.bind_some]
        cases added <;> exact ⟨_, rfl⟩

variable (checks root) in
theorem place_total (hrules : CappedRules settings) {split : SplitArchives} {full : List Group} {opened : Opened}
    (h : Grouped (Laid settings) split full opened) (source : PackSource) :
    ∃ placed, split.place checks settings root source = some placed := by
  unfold SplitArchives.place
  cases packedAs (fileType source.path root settings) with
  | none => exact ⟨_, rfl⟩
  | some type =>
    obtain ⟨added, hadded⟩ := addFile_total checks hrules (h.opened type).2 source
    simp only [hadded, Option.bind_eq_bind, Option.bind_some]
    cases added with
    | some data => exact ⟨_, rfl⟩
    | none =>
      obtain ⟨fresh, hfresh⟩ := addFile_total checks hrules
        (laid_new hrules (split.partition type).archiveType) source
      simp only [hfresh, Option.bind_some]
      cases fresh <;> exact ⟨_, rfl⟩

theorem placeAll_total (hrules : CappedRules settings) {split : SplitArchives} {full : List Group} {opened : Opened}
    (h : Grouped (Laid settings) split full opened) (sources : List PackSource) :
    ∃ placed, SplitArchives.placeAll checks settings root split sources = some placed := by
  induction sources generalizing split full opened with
  | nil => exact ⟨_, rfl⟩
  | cons source sources ih =>
    obtain ⟨placed, hplaced⟩ := place_total checks root hrules h source
    unfold SplitArchives.placeAll
    simp only [hplaced, Option.bind_eq_bind, Option.bind_some]
    cases placed with
    | error e => exact ⟨_, rfl⟩
    | ok split' =>
      obtain ⟨full', opened', h', -⟩ := h.place (laid_new hrules) (fun _ _ _ hl _ ha => hl.added hrules ha) hplaced
      exact ih h'

theorem grouped_start {P : ArchiveData → List PackSource → Prop} (hnew : ∀ type, P (.new settings type) []) :
    Grouped P (.start settings) [] fun _ => [] :=
  ⟨.nil, fun type => by cases type <;> exact ⟨rfl, hnew _⟩⟩

variable (checks root) in
/-- **Splitting overflows nowhere.** -/
theorem split_total (hrules : CappedRules settings) (sources : List PackSource) :
    ∃ split, SplitArchives.split checks root sources settings = some split :=
  placeAll_total hrules (grouped_start (laid_new hrules)) _

/-! ## The open partitions -/

/-- The size of the last group, where each size joins the group before it while the limit allows it. -/
def lastGroupSize (limit : Nat) (sizes : List Nat) : Nat :=
  sizes.foldl (fun total size => if total + size ≤ limit then total + size else size) 0

/-- The sizes of the sources of a kind, in the order they are placed. -/
def sizesOf (settings : Settings) (root : Path) (sources : List PackSource) (type : ArchiveType) : List Nat :=
  (sources.filter fun source => partitionOf settings root source = some type).map PackSource.size

theorem lastGroupSize_concat (limit : Nat) (sizes : List Nat) (size : Nat) : lastGroupSize limit (sizes ++ [size]) =
    if lastGroupSize limit sizes + size ≤ limit then lastGroupSize limit sizes + size else size := by
  rw [lastGroupSize, List.foldl_append]
  rfl

theorem sizesOf_concat (sources : List PackSource) (source : PackSource) (type : ArchiveType) :
    sizesOf settings root (sources ++ [source]) type = sizesOf settings root sources type ++
      if partitionOf settings root source = some type then [source.size] else [] := by
  unfold sizesOf
  rw [List.filter_append, List.map_append]
  split_ifs with h
  · simp [h]
  · simp [h]

/-- Without a cap, only the limit refuses a file. -/
theorem limit_of_refused {data : ArchiveData} {path : Path} {size : Nat} (hlayout : data.layout = none)
    (hlimit : data.archiveLimit < u64Size) (h : data.addFile checks path size = some none) :
    data.archiveLimit < data.size + size := by
  unfold ArchiveData.addFile at h
  split at h
  · next htotal =>
    unfold checkedAdd at htotal
    split_ifs at htotal
    omega
  · next total htotal =>
    obtain ⟨-, rfl⟩ := checkedAdd_eq_some.mp htotal
    split_ifs at h with hroom
    · exact hroom.1
    · simp [hlayout] at h

theorem layout_none (hcap : settings.sizeCap = none) {data : ArchiveData} {group : List PackSource}
    (h : Laid settings data group) : data.layout = none := by
  rw [h.layout]
  unfold layoutOf
  rw [hcap]
  rfl

theorem place_size (hcap : settings.sizeCap = none) (hlimit : settings.archiveLimit < u64Size)
    {split split' : SplitArchives} {full : List Group} {opened : Opened} {done : List PackSource} {source : PackSource}
    (hg : Grouped (Kept settings) split full opened)
    (hsize : ∀ type, (split.partition type).size =
      lastGroupSize settings.archiveLimit (sizesOf settings root done type))
    (hp : split.place checks settings root source = some (.ok split')) (type : ArchiveType) :
    (split'.partition type).size =
      lastGroupSize settings.archiveLimit (sizesOf settings root (done ++ [source]) type) := by
  rw [sizesOf_concat]
  rcases place_cases hp with ⟨htype, rfl⟩ | ⟨type', data, htype, hcases⟩
  · rw [htype, if_neg (by simp), List.append_nil, hsize]
  · have hkept := (hg.opened type').2
    -- The open partition of the source's kind changes as the last group does.
    have hdata : data.size =
        lastGroupSize settings.archiveLimit (sizesOf settings root done type' ++ [source.size]) := by
      rw [lastGroupSize_concat, ← hsize type', ← hkept.archiveLimit]
      rcases hcases with ⟨ha, -⟩ | ⟨ha, hf, -⟩
      · have hadded := added_of_addFile ha
        rcases hadded.room with hroom | hempty
        · rw [if_pos hroom, hadded.size_eq]
        · have hzero : (split.partition type').size = 0 := by
            have hgroup : opened type' = [] := List.map_eq_nil_iff.mp (hkept.files.symm.trans hempty)
            rw [hkept.size, hgroup]
            rfl
          rw [hadded.size_eq, hzero]
          split_ifs <;> omega
      · have hover := limit_of_refused (layout_none hcap hkept.toLaid) (hkept.archiveLimit ▸ hlimit) ha
        rw [if_neg (not_le.mpr hover), (added_of_addFile hf).size_eq]
        exact Nat.zero_add _
    have hpartition : split'.partition type = if type = type' then data else split.partition type := by
      rcases hcases with ⟨-, rfl⟩ | ⟨-, -, rfl⟩
      · exact partition_setPartition ..
      · rw [← partition_setPartition]
        cases type <;> rfl
    rw [hpartition, htype]
    by_cases heq : type = type'
    · rw [if_pos heq, if_pos (by rw [heq]), hdata, heq]
    · rw [if_neg heq, if_neg (fun h => heq (Option.some.inj h).symm), List.append_nil, hsize]

/-- **The size of an open partition**, from the sizes of the sources of its kind alone. -/
theorem partition_size (hcap : settings.sizeCap = none) (hlimit : settings.archiveLimit < u64Size)
    (hrules : CappedRules settings) {sources : List PackSource} {split : SplitArchives}
    (hs : SplitArchives.split checks root sources settings = some (.ok split)) (type : ArchiveType) :
    (split.partition type).size =
      lastGroupSize settings.archiveLimit (sizesOf settings root (SplitArchives.sortSources sources) type) := by
  have hrun : ∀ sources (split : SplitArchives) full opened done, Grouped (Kept settings) split full opened →
      (∀ type, (split.partition type).size = lastGroupSize settings.archiveLimit (sizesOf settings root done type)) →
      ∀ split', SplitArchives.placeAll checks settings root split sources = some (.ok split') →
      ∀ type, (split'.partition type).size =
        lastGroupSize settings.archiveLimit (sizesOf settings root (done ++ sources) type) := by
    intro sources
    induction sources with
    | nil =>
      intro split full opened done _ hsize split' h
      simp only [SplitArchives.placeAll, Option.pure_def, Option.some.injEq, Except.ok.injEq] at h
      subst h
      simpa using hsize
    | cons source sources ih =>
      intro split full opened done hg hsize split' h
      unfold SplitArchives.placeAll at h
      cases hp : split.place checks settings root source with
      | none => simp [hp] at h
      | some o =>
        cases o with
        | error e => simp [hp] at h
        | ok split₁ =>
          simp only [hp, Option.bind_eq_bind, Option.bind_some] at h
          obtain ⟨full₁, opened₁, hg₁, -⟩ := hg.place (kept_new hrules) (fun _ _ _ hk _ ha => hk.added hrules ha) hp
          rw [List.append_cons]
          exact ih split₁ full₁ opened₁ _ hg₁ (place_size hcap hlimit hg hsize hp) split' h
  have hstart : ∀ type, ((SplitArchives.start settings).partition type).size = 0 := by
    intro type
    cases type <;> rfl
  have h := hrun _ _ _ _ [] (grouped_start (kept_new hrules)) hstart split hs type
  rwa [List.nil_append] at h

/-! ## Merging without a cap -/

theorem canAbsorb_uncapped {data other : ArchiveData} (hlayout : data.layout = none) :
    data.canAbsorb checks other =
      (addU64 checks data.size other.size).map fun total => decide (total < data.archiveLimit) := by
  unfold ArchiveData.canAbsorb
  simp only [hlayout, Option.bind_eq_bind, Option.bind_some, Option.pure_def, Bool.and_true]
  cases addU64 checks data.size other.size <;> rfl

/-- **Without a cap, a join overflows exactly where the two sizes do.** -/
theorem join_uncapped {wanted : Bool} {data other : ArchiveData} (hlayout : data.layout = none) :
    SplitArchives.join .on wanted data other = none ↔ wanted = true ∧ u64Size ≤ data.size + other.size := by
  unfold SplitArchives.join
  cases wanted with
  | false => simp
  | true =>
    simp only [↓reduceIte, canAbsorb_uncapped hlayout, true_and]
    by_cases hfits : data.size + other.size < u64Size
    · rw [addU64_of_lt hfits]
      simp only [Option.map_some, Option.bind_eq_bind, Option.bind_some]
      refine iff_of_false ?_ (not_le.mpr hfits)
      split_ifs
      · simp [ArchiveData.absorb, addU64_of_lt hfits, ArchiveData.absorbLayout, hlayout]
      · simp
    · have hnone : addU64 .on data.size other.size = none := if_neg hfits
      simp only [hnone, Option.map_none, Option.bind_eq_bind, Option.bind_none, true_iff]
      exact not_lt.mp hfits

/-- The size of an Archive another was asked to join. -/
def joinedSize (limit : Nat) (wanted : Bool) (size other : Nat) : Nat :=
  if wanted = true ∧ size + other < limit then size + other else size

theorem joined_uncapped {wanted : Bool} {data other data' other' : ArchiveData} (hlayout : data.layout = none)
    (h : SplitArchives.join .on wanted data other = some (data', other')) :
    data'.size = joinedSize data.archiveLimit wanted data.size other.size ∧ data'.layout = none ∧
      data'.archiveLimit = data.archiveLimit := by
  unfold SplitArchives.join at h
  unfold joinedSize
  cases wanted with
  | false =>
    simp only [Bool.false_eq_true, ↓reduceIte, Option.pure_def, Option.some.injEq, Prod.mk.injEq] at h
    obtain ⟨rfl, rfl⟩ := h
    exact ⟨by simp, hlayout, rfl⟩
  | true =>
    simp only [↓reduceIte, canAbsorb_uncapped hlayout] at h
    by_cases hfits : data.size + other.size < u64Size
    · rw [addU64_of_lt hfits] at h
      simp only [Option.map_some, Option.bind_eq_bind, Option.bind_some, decide_eq_true_eq] at h
      split_ifs at h with hroom
      · simp only [ArchiveData.absorb, addU64_of_lt hfits, ArchiveData.absorbLayout, hlayout, Option.bind_eq_bind,
          Option.bind_some, Option.pure_def, Option.some.injEq, Prod.mk.injEq] at h
        obtain ⟨rfl, rfl⟩ := h
        exact ⟨by simp [hroom], rfl, rfl⟩
      · simp only [Option.pure_def, Option.some.injEq, Prod.mk.injEq] at h
        obtain ⟨rfl, rfl⟩ := h
        exact ⟨by simp [hroom], hlayout, rfl⟩
    · have hnone : addU64 .on data.size other.size = none := if_neg hfits
      simp [hnone] at h

/-! ## Merging under a cap -/

theorem Kept.size_le {cap record : Nat} (hcap : settings.sizeCap = some cap)
    (hrecord : folderRecord settings.format = some record) {data : ArchiveData} {group : List PackSource}
    (h : Kept settings data group) : data.size ≤ cap := by
  have hfits := h.fits cap record hcap hrecord
  have hsizes : (group.map PackSource.size).sum ≤ (group.map fileSize).sum := by
    refine List.sum_le_sum fun source _ => ?_
    unfold fileSize
    omega
  rw [h.size]
  unfold structuralBound at hfits
  omega

variable (checks) in
/-- **Under a cap, a join never overflows.** -/
theorem join_capped (hrules : CappedRules settings) {cap record : Nat} (hcap : settings.sizeCap = some cap)
    (hrecord : folderRecord settings.format = some record) {data other : ArchiveData}
    {group group' : List PackSource} (h : Kept settings data group) (h' : Kept settings other group') (wanted : Bool) :
    ∃ joined, SplitArchives.join checks wanted data other = some joined := by
  have htwice := hrules.cap_lt cap hcap
  have htwice : 2 * cap < u64Size := by unfold u64Size; omega
  have hsize := h.size_le hcap hrecord
  have hsize' := h'.size_le hcap hrecord
  have hlayout := h.layout.trans (layoutOf_of_capped hcap hrecord group)
  have hlayout' := h'.layout.trans (layoutOf_of_capped hcap hrecord group')
  have hbound := mergedBound_laidOut checks (folderRecord_le hrecord) htwice
    (h.fits cap record hcap hrecord) (h'.fits cap record hcap hrecord)
  have hadd : addU64 checks data.size other.size = some (data.size + other.size) := addU64_of_lt (by omega)
  unfold SplitArchives.join
  cases wanted with
  | false => exact ⟨_, rfl⟩
  | true =>
    simp only [↓reduceIte, ArchiveData.canAbsorb, hlayout, hlayout', hbound, hadd, Option.map_some,
      Option.bind_eq_bind, Option.bind_some, Option.pure_def]
    split_ifs
    · simp only [ArchiveData.absorb, ArchiveData.absorbLayout, CappedLayout.absorb, hlayout, hlayout', hbound, hadd,
        Option.map_some, Option.bind_eq_bind, Option.bind_some, Option.pure_def]
      exact ⟨_, rfl⟩
    · exact ⟨_, rfl⟩

/-! ## Splitting without a cap -/

variable (checks root) in
theorem place_uncapped (hcap : settings.sizeCap = none) {split : SplitArchives} {full : List Group} {opened : Opened}
    (hrules : CappedRules settings) (hg : Grouped (Laid settings) split full opened) (source : PackSource) :
    ∃ split', split.place checks settings root source = some (.ok split') := by
  have hfresh : ∀ type, ∃ data, (ArchiveData.new settings type).addFile checks source.path source.size =
      some (some data) := by
    intro type
    have htotal : checkedAdd (ArchiveData.new settings type).size source.size = some (0 + source.size) :=
      checkedAdd_eq_some.mpr ⟨by simpa [ArchiveData.new] using source.size_lt, rfl⟩
    unfold ArchiveData.addFile
    rw [htotal]
    simp [ArchiveData.new, hcap]
  obtain ⟨placed, hplaced⟩ := place_total checks root hrules hg source
  cases placed with
  | ok split' => exact ⟨split', hplaced⟩
  | error e =>
    exfalso
    unfold SplitArchives.place at hplaced
    cases htype : packedAs (fileType source.path root settings) with
    | none => simp [htype] at hplaced
    | some type =>
      obtain ⟨data, hdata⟩ := hfresh (split.partition type).archiveType
      simp only [htype, hdata] at hplaced
      obtain ⟨added, hadded⟩ := addFile_total checks hrules (hg.opened type).2 source
      cases added <;> simp [hadded] at hplaced

variable (checks root) in
/-- Without a cap, splitting takes every file. -/
theorem split_uncapped (hcap : settings.sizeCap = none) (hrules : CappedRules settings) (sources : List PackSource) :
    ∃ split, SplitArchives.split checks root sources settings = some (.ok split) := by
  have hrun : ∀ sources (split : SplitArchives) full opened, Grouped (Laid settings) split full opened →
      ∃ split', SplitArchives.placeAll checks settings root split sources = some (.ok split') := by
    intro sources
    induction sources with
    | nil => intro split full opened _; exact ⟨split, rfl⟩
    | cons source sources ih =>
      intro split full opened hg
      obtain ⟨split₁, hp⟩ := place_uncapped checks root hcap hrules hg source
      obtain ⟨full₁, opened₁, hg₁, -⟩ := hg.place (laid_new hrules) (fun _ _ _ hl _ ha => hl.added hrules ha) hp
      unfold SplitArchives.placeAll
      simp only [hp, Option.bind_eq_bind, Option.bind_some]
      exact ih split₁ full₁ opened₁ hg₁
  exact hrun _ _ _ _ (grouped_start (laid_new hrules))

/-! ## Where a merge overflows -/

/-- The sums of the open partitions that a merge is asked to join are in range. -/
def AdditionsFit (settings : Settings) (root : Path) (sources : List PackSource) (merge : MergeSettings) : Prop :=
  let size type :=
    lastGroupSize settings.archiveLimit (sizesOf settings root (SplitArchives.sortSources sources) type)
  (merge.incompressible = true → size .standard + size .incompressible < u64Size) ∧
  (merge.textures = true →
    joinedSize settings.archiveLimit merge.incompressible (size .standard) (size .incompressible) + size .textures <
      u64Size)

theorem merge_eq_none {split : SplitArchives} {merge : MergeSettings} : split.merge checks merge = none ↔
    SplitArchives.join checks merge.incompressible split.standard split.incompressible = none ∨
    ∃ standard incompressible,
      SplitArchives.join checks merge.incompressible split.standard split.incompressible =
        some (standard, incompressible) ∧
      SplitArchives.join checks merge.textures standard split.textures = none := by
  unfold SplitArchives.merge
  cases SplitArchives.join checks merge.incompressible split.standard split.incompressible with
  | none => simp
  | some first =>
    cases ht : SplitArchives.join checks merge.textures first.1 split.textures with
    | none => exact iff_of_true (by simp [ht]) (.inr ⟨first.1, first.2, rfl, ht⟩)
    | some second => simp [ht, Prod.ext_iff]

theorem merge_uncapped (hcap : settings.sizeCap = none) (hrules : CappedRules settings)
    (hlimit : settings.archiveLimit < u64Size) {sources : List PackSource} {split : SplitArchives}
    {merge : MergeSettings} (hs : SplitArchives.split .on root sources settings = some (.ok split)) :
    split.merge .on merge ≠ none ↔ AdditionsFit settings root sources merge := by
  have hsize := partition_size hcap hlimit hrules hs
  have hstandard : split.standard.size = _ := hsize .standard
  have hincompressible : split.incompressible.size = _ := hsize .incompressible
  have htextures : split.textures.size = _ := hsize .textures
  obtain ⟨full, opened, hg, -⟩ := split_induction (P := Kept settings)
    (kept_new hrules) (fun _ _ _ _ _ h _ ha => h.added hrules ha) hs
  have hkept : Kept settings split.standard _ := (hg.opened .standard).2
  have hlayout := layout_none hcap hkept.toLaid
  have hadditions : AdditionsFit settings root sources merge ↔
      (merge.incompressible = true → split.standard.size + split.incompressible.size < u64Size) ∧
      (merge.textures = true → joinedSize split.standard.archiveLimit merge.incompressible split.standard.size
        split.incompressible.size + split.textures.size < u64Size) := by
    unfold AdditionsFit
    rw [hstandard, hincompressible, htextures, hkept.archiveLimit]
  rw [hadditions, Ne, merge_eq_none, join_uncapped hlayout]
  cases hi : SplitArchives.join .on merge.incompressible split.standard split.incompressible with
  | none =>
    obtain ⟨hwanted, hover⟩ := (join_uncapped hlayout).mp hi
    exact iff_of_false (fun h => h (.inl ⟨hwanted, hover⟩)) fun h => absurd (h.1 hwanted) (not_lt.mpr hover)
  | some first =>
    obtain ⟨standard, incompressible⟩ := first
    obtain ⟨hjoined, hlayout', -⟩ := joined_uncapped hlayout hi
    have hfirst : ¬(merge.incompressible = true ∧ u64Size ≤ split.standard.size + split.incompressible.size) := by
      rw [← join_uncapped hlayout, hi]
      simp
    have hsecond : (∃ standard' incompressible', some (standard, incompressible) = some (standard', incompressible') ∧
        SplitArchives.join .on merge.textures standard' split.textures = none) ↔
        merge.textures = true ∧ u64Size ≤ standard.size + split.textures.size := by
      rw [← join_uncapped hlayout']
      constructor
      · rintro ⟨_, _, h, hnone⟩
        cases h
        exact hnone
      · exact fun h => ⟨standard, incompressible, rfl, h⟩
    rw [hsecond, ← hjoined]
    constructor
    · intro h
      exact ⟨fun hw => not_le.mp fun hover => hfirst ⟨hw, hover⟩, fun hw => not_le.mp fun hover => h (.inr ⟨hw, hover⟩)⟩
    · rintro ⟨-, h⟩ (hover | ⟨hw, hover⟩)
      · exact hfirst hover
      · exact absurd (h hw) (not_lt.mpr hover)

theorem merge_capped (hrules : CappedRules settings) {cap record : Nat} (hcap : settings.sizeCap = some cap)
    (hrecord : folderRecord settings.format = some record) {sources : List PackSource} {split : SplitArchives}
    {merge : MergeSettings} (hs : SplitArchives.split checks root sources settings = some (.ok split)) :
    split.merge checks merge ≠ none := by
  have htwice := hrules.cap_lt cap hcap
  obtain ⟨full, opened, hg, -⟩ := split_induction (P := Kept settings)
    (kept_new hrules) (fun _ _ _ _ _ h _ ha => h.added hrules ha) hs
  have hstandard : Kept settings split.standard (opened .standard) := (hg.opened .standard).2
  have hincompressible : Kept settings split.incompressible (opened .incompressible) := (hg.opened .incompressible).2
  have htextures : Kept settings split.textures (opened .textures) := (hg.opened .textures).2
  have htype : split.standard.archiveType ≠ .textures := by
    have htype : split.standard.archiveType = .standard := (hg.opened .standard).1
    simp [htype]
  have hsum : ((opened .standard ++ opened .incompressible).map PackSource.size).sum < u64Size := by
    have hs := hstandard.size_le hcap hrecord
    have hi := hincompressible.size_le hcap hrecord
    rw [hstandard.size] at hs
    rw [hincompressible.size] at hi
    rw [List.map_append, List.sum_append]
    unfold u64Size
    omega
  rw [Ne, merge_eq_none]
  rintro (hi | ⟨standard, incompressible, hi, ht⟩)
  · obtain ⟨joined, hjoined⟩ := join_capped checks hrules hcap hrecord hstandard hincompressible
      merge.incompressible
    rw [hjoined] at hi
    cases hi
  · obtain ⟨first, left, hfirst, -⟩ := (join_cases hi).grouped
      (hstandard.absorbed hrules hincompressible htype hsum) hstandard hincompressible
    obtain ⟨joined, hjoined⟩ := join_capped checks hrules hcap hrecord hfirst htextures
      merge.textures
    rw [hjoined] at ht
    cases ht

/-- **Where the size arithmetic is in range**: always for a game with a cap; for Fallout 4 exactly where the
sums of the open partitions that are to be joined are. -/
theorem neverOverflows_iff (game : Game) (requestedLimit : Option UInt64) (root : Path) (sources : List PackSource)
    (merge : MergeSettings) : NeverOverflows (.forProfile game requestedLimit) root sources merge ↔
      (game = .fo4 → AdditionsFit (.forProfile game requestedLimit) root sources merge) := by
  have hrules := forProfile_cappedRules game requestedLimit
  unfold NeverOverflows
  obtain ⟨split, hs⟩ := split_total .on root hrules sources
  rw [hs]
  by_cases hgame : game = .fo4
  · subst hgame
    have hcap : (Settings.forProfile .fo4 requestedLimit).sizeCap = none := forProfile_sizeCap
    obtain ⟨split', hs'⟩ := split_uncapped .on root hcap hrules sources
    rw [hs, Option.some.injEq] at hs'
    subst hs'
    have hmerge : split'.merge .on merge ≠ none ↔ _ := merge_uncapped hcap hrules forProfile_archiveLimit_lt hs
    simp [← hmerge]
  · have hrecord : ∃ cap record, (Settings.forProfile game requestedLimit).sizeCap = some cap ∧
        folderRecord (Settings.forProfile game requestedLimit).format = some record := by
      cases game <;> simp [forProfile_sizeCap] at hgame ⊢ <;> exact ⟨_, rfl⟩
    obtain ⟨cap, record, hcap, hrecord⟩ := hrecord
    refine iff_of_true ⟨by simp, fun split' hs' => ?_⟩ fun h => absurd h hgame
    rw [← hs] at hs'
    exact merge_capped hrules hcap hrecord hs'

/-- A Standard file of almost all the range, and an Incompressible file of one byte. -/
def hugeSources : List PackSource := [
  ⟨pathOf ["m", "meshes", "huge.nif"], 2 ^ 64 - 1, by decide, by decide⟩,
  ⟨pathOf ["m", "scripts", "b.pex"], 1, one_lt_u64Size, by decide⟩]

/-- The partitions of these. -/
def hugeSplit : SplitArchives :=
  match SplitArchives.placeAll .on (.forProfile .fo4 none) (pathOf ["m"]) (.start (.forProfile .fo4 none))
    hugeSources with
  | some (.ok split) => split
  | _ => .start (.forProfile .fo4 none)

/-- Joining them overflows. -/
theorem hugeSources_overflow : ¬ ∀ game requestedLimit root sources merge,
    NeverOverflows (.forProfile game requestedLimit) root sources merge := by
  intro h
  have hsplit : SplitArchives.split .on (pathOf ["m"]) hugeSources (.forProfile .fo4 none) = some (.ok hugeSplit) := by
    rw [split_of_sorted (by decide +kernel)]
    decide +kernel
  exact (h .fo4 none (pathOf ["m"]) hugeSources ⟨false, true⟩).2 hugeSplit hsplit (by decide +kernel)

end Cao.Pack
