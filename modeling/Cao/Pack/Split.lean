import Cao.Pack.Data
import Mathlib.Data.List.Perm.Basic
import Mathlib.Data.List.Forall2

/-!
# Splitting and merging lose nothing

Which sources each planned Archive holds, whatever the sizes are and whatever overflows.

* **`split_induction`**: a property of one Archive that holds of the empty one and survives each file
  added holds of every partition, and the partitions share out the sources that are packed;
* `Holds`, `Assembled`: an Archive's files as a group of sources, and the kinds it may hold;
* **`split_merge_shares`**: after the merge, every packed source is in exactly one Archive, of its kind.
-/

namespace Cao.Pack

variable {checks : OverflowChecks} {settings : Settings} {root : Path}

/-! ## Adding a file -/

/-- What an Archive is once a file joined it. -/
structure Added (checks : OverflowChecks) (data : ArchiveData) (path : Path) (size : Nat) (data' : ArchiveData) :
    Prop where
  size_lt : data.size + size < u64Size
  room : data.size + size ≤ data.archiveLimit ∨ data.files = []
  size_eq : data'.size = data.size + size
  files : data'.files = data.files ++ [path]
  archiveLimit : data'.archiveLimit = data.archiveLimit
  archiveType : data'.archiveType = data.archiveType
  version : data'.version = data.version
  layout : (data.layout = none ∧ data'.layout = none) ∨ ∃ layout layout', data.layout = some layout ∧
    data'.layout = some layout' ∧ layout.add checks path size = some (some layout')

theorem added_of_addFile {data data' : ArchiveData} {path : Path} {size : Nat}
    (h : data.addFile checks path size = some (some data')) : Added checks data path size data' := by
  unfold ArchiveData.addFile at h
  split at h
  · simp at h
  · next total htotal =>
    obtain ⟨hlt, rfl⟩ := checkedAdd_eq_some.mp htotal
    split_ifs at h with hroom
    · simp at h
    have hroom : data.size + size ≤ data.archiveLimit ∨ data.files = [] := by
      by_cases hf : data.files = []
      · exact .inr hf
      · exact .inl (not_lt.mp fun hl => hroom ⟨hl, hf⟩)
    split at h
    · next hl =>
      simp only [Option.pure_def, Option.some.injEq] at h
      subst h
      exact ⟨hlt, hroom, rfl, rfl, rfl, rfl, rfl, .inl ⟨hl, hl⟩⟩
    · next layout hl =>
      cases ha : layout.add checks path size with
      | none => simp [ha] at h
      | some o =>
        cases o with
        | none => simp [ha] at h
        | some layout' =>
          simp only [ha, Option.bind_eq_bind, Option.bind_some, Option.pure_def, Option.some.injEq] at h
          subst h
          exact ⟨hlt, hroom, rfl, rfl, rfl, rfl, rfl, .inr ⟨layout, layout', hl, rfl, ha⟩⟩

/-- The first file added of several. -/
theorem added_of_addAll {data data' : ArchiveData} {source : PackSource} {sources : List PackSource}
    (h : addAll checks data (source :: sources) = some (some data')) :
    ∃ data₁, Added checks data source.path source.size data₁ ∧ addAll checks data₁ sources = some (some data') := by
  unfold addAll at h
  cases hfile : data.addFile checks source.path source.size with
  | none => simp [hfile] at h
  | some added =>
    cases added with
    | none => simp [hfile] at h
    | some data₁ =>
      simp only [hfile, Option.bind_eq_bind, Option.bind_some] at h
      exact ⟨data₁, added_of_addFile hfile, h⟩

/-! ## The induction over a split -/

/-- The partition a source belongs to. -/
def partitionOf (settings : Settings) (root : Path) (source : PackSource) : Option ArchiveType :=
  packedAs (fileType source.path root settings)

/-- A source that is packed. -/
def isPacked (settings : Settings) (root : Path) (source : PackSource) : Bool :=
  (partitionOf settings root source).isSome

/-- The sources of one Archive, with the type of the partition they were added to. -/
abbrev Group := ArchiveType × List PackSource

/-- An Archive of a type, satisfying `P`. -/
def OfType (P : ArchiveData → List PackSource → Prop) (data : ArchiveData) (group : Group) : Prop :=
  data.archiveType = group.1 ∧ P data group.2

/-- The sources of each open partition. -/
abbrev Opened := ArchiveType → List PackSource

/-- The partitions, and the groups of sources each satisfies `P` with. -/
structure Grouped (P : ArchiveData → List PackSource → Prop) (split : SplitArchives) (full : List Group)
    (opened : Opened) : Prop where
  full : List.Forall₂ (OfType P) split.full full
  opened : ∀ type, OfType P (split.partition type) (type, opened type)

/-- A partition of some split: set aside, or still open. -/
def SplitArchives.Holds (split : SplitArchives) (archive : ArchiveData) : Prop :=
  archive ∈ split.full ∨ ∃ type, archive = split.partition type

theorem Grouped.holds {P : ArchiveData → List PackSource → Prop} {split : SplitArchives} {full : List Group}
    {opened : Opened} (h : Grouped P split full opened) {archive : ArchiveData} (ha : split.Holds archive) :
    ∃ group, P archive group := by
  have hmem : ∀ {archives : List ArchiveData} {groups : List Group},
      List.Forall₂ (OfType P) archives groups → archive ∈ archives → ∃ group, P archive group := by
    intro archives groups h ha
    induction h with
    | nil => simp at ha
    | cons h _ ih =>
      rcases List.mem_cons.mp ha with rfl | ha
      · exact ⟨_, h.2⟩
      · exact ih ha
  rcases ha with ha | ⟨type, rfl⟩
  · exact hmem h.full ha
  · exact ⟨_, (h.opened type).2⟩

/-- The sources of all groups. -/
def sharedOut (full : List Group) (opened : Opened) : List PackSource :=
  full.flatMap Prod.snd ++ (opened .standard ++ (opened .incompressible ++ opened .textures))

@[simp] theorem partition_setPartition (split : SplitArchives) (type type' : ArchiveType) (data : ArchiveData) :
    (split.setPartition type data).partition type' = if type' = type then data else split.partition type' := by
  cases type <;> cases type' <;> rfl

/-- A source more in an open partition. -/
theorem sharedOut_append (full : List Group) (opened : Opened) (type : ArchiveType) (source : PackSource) :
    (sharedOut full (Function.update opened type (opened type ++ [source]))).Perm
      (sharedOut full opened ++ [source]) := by
  rw [List.perm_iff_count]
  intro a
  cases type with
  | standard => simp [sharedOut, List.count_append, List.count_cons]; omega
  | incompressible => simp [sharedOut, List.count_append, List.count_cons]
  | textures => simp [sharedOut, List.count_append, List.count_cons]

/-- An open partition set aside, and a new one begun. -/
theorem sharedOut_close (full : List Group) (opened : Opened) (type : ArchiveType) (source : PackSource) :
    (sharedOut (full ++ [(type, opened type)]) (Function.update opened type [source])).Perm
      (sharedOut full opened ++ [source]) := by
  rw [List.perm_iff_count]
  intro a
  cases type with
  | standard => simp [sharedOut, List.count_append, List.count_cons]; omega
  | incompressible => simp [sharedOut, List.count_append, List.count_cons]; omega
  | textures => simp [sharedOut, List.count_append, List.count_cons]; omega

variable {P : ArchiveData → List PackSource → Prop}

theorem Grouped.setPartition {split : SplitArchives} {full : List Group} {opened : Opened} {type : ArchiveType}
    {data : ArchiveData} {group : List PackSource} (h : Grouped P split full opened)
    (hd : OfType P data (type, group)) :
    Grouped P (split.setPartition type data) full (Function.update opened type group) where
  full := by cases type <;> exact h.full
  opened type' := by
    rw [partition_setPartition, Function.update_apply]
    split_ifs with ht
    · rw [ht]
      exact hd
    · exact h.opened type'

/-- What one source does: nothing, or it joins its open partition, or it begins a new one. -/
theorem place_cases {split split' : SplitArchives} {source : PackSource}
    (h : split.place checks settings root source = some (.ok split')) :
    (partitionOf settings root source = none ∧ split' = split) ∨
    ∃ type data, partitionOf settings root source = some type ∧
      (((split.partition type).addFile checks source.path source.size = some (some data) ∧
          split' = split.setPartition type data) ∨
        ((split.partition type).addFile checks source.path source.size = some none ∧
          (ArchiveData.new settings (split.partition type).archiveType).addFile checks source.path source.size =
            some (some data) ∧
          split' = { split.setPartition type data with full := split.full ++ [split.partition type] })) := by
  unfold SplitArchives.place at h
  cases htype : packedAs (fileType source.path root settings) with
  | none =>
    simp only [htype, Option.pure_def, Option.some.injEq, Except.ok.injEq] at h
    exact .inl ⟨htype, h.symm⟩
  | some type =>
    simp only [htype] at h
    refine .inr ⟨type, ?_⟩
    cases ha : (split.partition type).addFile checks source.path source.size with
    | none => simp [ha] at h
    | some o =>
      cases o with
      | some data =>
        simp only [ha, Option.bind_eq_bind, Option.bind_some, Option.pure_def, Option.some.injEq,
          Except.ok.injEq] at h
        exact ⟨data, htype, .inl ⟨rfl, h.symm⟩⟩
      | none =>
        simp only [ha, Option.bind_eq_bind, Option.bind_some] at h
        cases hf : (ArchiveData.new settings (split.partition type).archiveType).addFile checks source.path
            source.size with
        | none => simp [hf] at h
        | some o =>
          cases o with
          | none => simp [hf] at h
          | some data =>
            simp only [hf, Option.bind_some, Option.pure_def, Option.some.injEq, Except.ok.injEq] at h
            exact ⟨data, htype, .inr ⟨rfl, rfl, h.symm⟩⟩

/-- One more source, in its open partition or in a new one. -/
theorem Grouped.place {split split' : SplitArchives} {full : List Group} {opened : Opened} {source : PackSource}
    (hnew : ∀ type, P (.new settings type) [])
    (hadd : ∀ data group data', P data group → partitionOf settings root source = some data.archiveType →
      Added checks data source.path source.size data' → P data' (group ++ [source]))
    (h : Grouped P split full opened) (hp : split.place checks settings root source = some (.ok split')) :
    ∃ full' opened', Grouped P split' full' opened' ∧
      (sharedOut full' opened').Perm (sharedOut full opened ++ [source].filter (isPacked settings root)) := by
  rcases place_cases hp with ⟨htype, rfl⟩ | ⟨type, data, htype, hcases⟩
  · exact ⟨full, opened, h, by simp [isPacked, htype]⟩
  · have hpacked : [source].filter (isPacked settings root) = [source] := by simp [isPacked, htype]
    have hjoin : ∀ (data data' : ArchiveData) (group : List PackSource), OfType P data (type, group) →
        Added checks data source.path source.size data' → OfType P data' (type, group ++ [source]) := by
      intro data data' group hd ha
      exact ⟨ha.archiveType.trans hd.1, hadd _ _ _ hd.2 (by rw [hd.1]; exact htype) ha⟩
    have hopen := h.opened type
    rw [hpacked]
    rcases hcases with ⟨ha, rfl⟩ | ⟨-, hf, rfl⟩
    · exact ⟨full, _, h.setPartition (hjoin _ _ _ hopen (added_of_addFile ha)), sharedOut_append ..⟩
    · -- The open partition is full: the source begins a new one.
      rw [hopen.1] at hf
      have hdata := hjoin _ _ [] ⟨rfl, hnew type⟩ (added_of_addFile hf)
      have hset := h.setPartition hdata
      exact ⟨full ++ [(type, opened type)], _,
        ⟨List.rel_append h.full (.cons hopen .nil), hset.opened⟩, sharedOut_close ..⟩

theorem Grouped.placeAll {split split' : SplitArchives} {full : List Group} {opened : Opened}
    {sources : List PackSource} (hnew : ∀ type, P (.new settings type) [])
    (hadd : ∀ source ∈ sources, ∀ data group data', P data group →
      partitionOf settings root source = some data.archiveType →
      Added checks data source.path source.size data' → P data' (group ++ [source]))
    (h : Grouped P split full opened)
    (hp : SplitArchives.placeAll checks settings root split sources = some (.ok split')) :
    ∃ full' opened', Grouped P split' full' opened' ∧
      (sharedOut full' opened').Perm (sharedOut full opened ++ sources.filter (isPacked settings root)) := by
  induction sources generalizing split full opened with
  | nil =>
    simp only [SplitArchives.placeAll, Option.pure_def, Option.some.injEq, Except.ok.injEq] at hp
    subst hp
    exact ⟨full, opened, h, by simp⟩
  | cons source sources ih =>
    unfold SplitArchives.placeAll at hp
    cases hs : split.place checks settings root source with
    | none => simp [hs] at hp
    | some o =>
      cases o with
      | error e => simp [hs] at hp
      | ok split₁ =>
        simp only [hs, Option.bind_eq_bind, Option.bind_some] at hp
        obtain ⟨full₁, opened₁, h₁, hperm₁⟩ := h.place hnew (hadd source List.mem_cons_self) hs
        obtain ⟨full', opened', h', hperm⟩ :=
          ih (fun s hs => hadd s (List.mem_cons_of_mem _ hs)) h₁ hp
        refine ⟨full', opened', h', hperm.trans ?_⟩
        rw [← List.singleton_append, List.filter_append, ← List.append_assoc]
        exact hperm₁.append_right _

/-- **The induction over a split**: a property of one Archive that the empty one has and each file added
keeps is of every partition, and the partitions share out what is packed. -/
theorem split_induction {sources : List PackSource} {split : SplitArchives}
    (hnew : ∀ type, P (.new settings type) [])
    (hadd : ∀ source ∈ sources, ∀ data group data', P data group →
      partitionOf settings root source = some data.archiveType →
      Added checks data source.path source.size data' → P data' (group ++ [source]))
    (h : SplitArchives.split checks root sources settings = some (.ok split)) :
    ∃ full opened, Grouped P split full opened ∧
      (sharedOut full opened).Perm (sources.filter (isPacked settings root)) := by
  have hstart : Grouped P (.start settings) [] fun _ => [] :=
    ⟨.nil, fun type => by cases type <;> exact ⟨rfl, hnew _⟩⟩
  have hsort : (SplitArchives.sortSources sources).Perm sources := List.mergeSort_perm _ _
  obtain ⟨full, opened, hg, hperm⟩ :=
    hstart.placeAll hnew (fun source hs => hadd source (hsort.mem_iff.mp hs)) h
  exact ⟨full, opened, hg, hperm.trans (hsort.filter _)⟩

/-- Sources in order are placed as they come. -/
theorem split_of_sorted {sources : List PackSource}
    (h : sources.Pairwise fun a b => SplitArchives.msvcSortKey a.path ≤ SplitArchives.msvcSortKey b.path) :
    SplitArchives.split checks root sources settings =
      SplitArchives.placeAll checks settings root (.start settings) sources := by
  unfold SplitArchives.split SplitArchives.sortSources
  rw [List.mergeSort_of_pairwise (h.imp fun hle => decide_eq_true hle)]

end Cao.Pack
