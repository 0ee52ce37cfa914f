import Cao.Finalize.Plan
import Cao.Pack.Merge

/-!
# What planning gets of the packer

The Archives that splitting and merging give with the merge planning asks for.

* `partition_cases`: the planned Archives, beside those of the merge;
* **`partition_packed`**: their files are sources of a kind that is packed;
* **`partition_containers`**: each is written as a container its files may be in.
-/

namespace Cao.Finalize

open Pack

variable {checks : OverflowChecks} {settings : Settings} {root : Path} {sources : List PackSource}

/-! ## Planned Archives -/

theorem forall₂_of_mapM {α β : Type} {f : α → Option β} {l : List α} {l' : List β} (h : l.mapM f = some l') :
    List.Forall₂ (fun a b => f a = some b) l l' := by
  induction l generalizing l' with
  | nil =>
    rw [List.mapM_nil, Option.pure_def, Option.some.injEq] at h
    exact h ▸ .nil
  | cons a l ih =>
    rw [List.mapM_cons] at h
    cases ha : f a with
    | none => simp [ha] at h
    | some b =>
      cases hl : l.mapM f with
      | none => simp [ha, hl] at h
      | some bs =>
        simp only [ha, hl, Option.bind_eq_bind, Option.bind_some, Option.pure_def, Option.some.injEq] at h
        exact h ▸ .cons ha (ih hl)

theorem mem_of_forall₂ {α β : Type} {r : α → β → Prop} {l : List α} {l' : List β} (h : List.Forall₂ r l l') {b : β}
    (hb : b ∈ l') : ∃ (index : Nat) (a : α), l[index]? = some a ∧ r a b := by
  induction h with
  | nil => cases hb
  | @cons a b' l l' hab h ih =>
    rcases List.mem_cons.mp hb with rfl | hb
    · exact ⟨0, a, rfl, hab⟩
    · obtain ⟨index, a', hindex, ha⟩ := ih hb
      exact ⟨index + 1, a', hindex, ha⟩

/-- A planned Archive, of an Archive of the merge: its kind, and its files as they were offered. -/
structure PlannedFrom (sources : List PackSource) (archive : ArchiveData) (plan : PlannedArchive) : Prop where
  kind : plan.kind = archive.archiveType
  files : plan.files.map PackSource.path = archive.files
  offered : ∀ file ∈ plan.files, file ∈ sources

theorem plannedFrom_of_planned {archive : ArchiveData} {plan : PlannedArchive}
    (h : planned sources archive = some plan) : PlannedFrom sources archive plan := by
  unfold planned at h
  obtain ⟨files, hfiles, rfl⟩ := Option.map_eq_some_iff.mp h
  have hfound : List.Forall₂ (fun path file => file.path = path ∧ file ∈ sources) archive.files files := by
    refine (forall₂_of_mapM hfiles).imp fun path file hf => ?_
    exact ⟨by simpa using List.find?_some hf, List.mem_reverse.mp (List.mem_of_find?_eq_some hf)⟩
  refine ⟨rfl, ?_, fun file hfile => ?_⟩
  · have hpaths : List.Forall₂ (fun path other => path = other) (files.map PackSource.path) archive.files :=
      List.forall₂_map_left_iff.mpr (hfound.flip.imp fun _ _ h => h.1)
    rwa [List.forall₂_eq_eq_eq] at hpaths
  · obtain ⟨_, _, -, -, hoffered⟩ := mem_of_forall₂ hfound hfile
    exact hoffered

/-- What a partition is made of. -/
theorem partition_cases {merge : MergeSettings} {plans : List PlannedArchive}
    (h : GameArchivePacker.partition checks settings root sources merge = some (.ok plans)) :
    ∃ split archives, SplitArchives.split checks root sources settings = some (.ok split) ∧
      split.merge checks merge = some archives ∧ List.Forall₂ (PlannedFrom sources) archives plans := by
  unfold GameArchivePacker.partition at h
  cases hs : SplitArchives.split checks root sources settings with
  | none => simp [hs] at h
  | some split =>
    cases split with
    | error e => simp [hs] at h
    | ok split =>
      cases hm : split.merge checks merge with
      | none => simp [hs, hm] at h
      | some archives =>
        cases hp : archives.mapM (planned sources) with
        | none => simp [hs, hm, hp] at h
        | some plans' =>
          simp only [hs, hm, hp, Option.bind_eq_bind, Option.bind_some, Option.pure_def, Option.some.injEq,
            Except.ok.injEq] at h
          subst h
          exact ⟨split, archives, rfl, hm, (forall₂_of_mapM hp).imp fun _ _ => plannedFrom_of_planned⟩

/-- **A planned file is a source of a kind that is packed.** -/
theorem partition_packed {merge : MergeSettings} {plans : List PlannedArchive}
    (h : GameArchivePacker.partition checks settings root sources merge = some (.ok plans)) {plan : PlannedArchive}
    (hplan : plan ∈ plans) {file : PackSource} (hfile : file ∈ plan.files) :
    file ∈ sources ∧ isPacked settings root file = true := by
  obtain ⟨split, archives, hs, hm, hplans⟩ := partition_cases h
  obtain ⟨index, archive, hindex, hfrom⟩ := mem_of_forall₂ hplans hplan
  obtain ⟨mixed, hkinds⟩ := split_merge_kinds hs hm
  have hpath : file.path ∈ archive.files := hfrom.files ▸ List.mem_map_of_mem hfile
  exact ⟨hfrom.offered file hfile, ((hkinds index archive hindex).2 file.path hpath).packed⟩

/-! ## Containers -/

/-- Some files may be in a container: only Textures in one for textures, and none in another where the game keeps
them separate. -/
structure RightContainer (settings : Settings) (root : Path) (container : ArchiveVersion) (files : List PackSource) :
    Prop where
  textures : container = .fo4Dx → ∀ file ∈ files, fileType file.path root settings = .texture
  general : settings.keepsTexturesSeparate = true → ∀ file ∈ files,
    fileType file.path root settings = .texture → container = .fo4Dx

theorem addAll_version {data data' : ArchiveData} {files : List PackSource}
    (h : addAll checks data files = some (some data')) : data'.version = data.version := by
  induction files generalizing data with
  | nil =>
    simp only [addAll, Option.pure_def, Option.some.injEq] at h
    rw [h]
  | cons file files ih =>
    unfold addAll at h
    cases ha : data.addFile checks file.path file.size with
    | none => simp [ha] at h
    | some added =>
      cases added with
      | none => simp [ha] at h
      | some added =>
        simp only [ha, Option.bind_eq_bind, Option.bind_some] at h
        rw [ih h, (added_of_addFile ha).version]

/-- Fallout 4 alone keeps its Textures separate, and its Texture container alone is for textures. -/
theorem forProfile_containers (game : Game) (requestedLimit : Option UInt64) (kind : ArchiveType) :
    ((Settings.forProfile game requestedLimit).versionFor kind = .fo4Dx ↔ game = .fo4 ∧ kind = .textures) ∧
      ((Settings.forProfile game requestedLimit).keepsTexturesSeparate = true ↔ game = .fo4) := by
  unfold Settings.keepsTexturesSeparate
  rw [forProfile_versionFor, forProfile_versionFor, forProfile_versionFor]
  cases game <;> cases kind <;> decide

/-- **Every file is in a container of its kind**: what is planned as a container for textures holds Textures only,
a game that keeps its Textures separate has none in another, and an Archive planned again is that container. -/
theorem partition_containers {game : Game} {requestedLimit : Option UInt64} {choices : ArchiveFinalizationChoices}
    {plans : List PlannedArchive}
    (h : GameArchivePacker.partition checks (.forProfile game requestedLimit) root sources
      (planMerge choices (GameArchivePacker.rules (.forProfile game requestedLimit))) = some (.ok plans)) :
    ∀ plan ∈ plans,
      RightContainer (.forProfile game requestedLimit) root
        ((Settings.forProfile game requestedLimit).versionFor plan.kind) plan.files ∧
      ∀ data, GameArchivePacker.rebuild checks (.forProfile game requestedLimit) plan = some (some data) →
        data.version = (Settings.forProfile game requestedLimit).versionFor plan.kind := by
  intro plan hplan
  obtain ⟨split, archives, hs, hm, hplans⟩ := partition_cases h
  obtain ⟨index, archive, hindex, hfrom⟩ := mem_of_forall₂ hplans hplan
  obtain ⟨mixed, hkinds⟩ := split_merge_kinds hs hm
  have hkind : ∀ file ∈ plan.files, WithItsKind (.forProfile game requestedLimit) root
      (planMerge choices (GameArchivePacker.rules (.forProfile game requestedLimit))) (index = mixed) archive
      file.path := by
    intro file hfile
    exact (hkinds index archive hindex).2 _ (hfrom.files ▸ List.mem_map_of_mem hfile)
  refine ⟨⟨fun hdx file hfile => ?_, fun hseparate file hfile htexture => ?_⟩, fun data hdata => addAll_version hdata⟩
  · -- Only an Archive of Textures is a texture container, and nothing else joined one.
    have htextures := ((forProfile_containers game requestedLimit plan.kind).1.mp hdx).2
    rw [hfrom.kind] at htextures
    have hwith := hkind file hfile
    have hpacked := hwith.packed
    cases htype : fileType file.path root (.forProfile game requestedLimit) with
    | texture => rfl
    | standard =>
      rcases hwith.standard htype with hstandard | ⟨-, hincompressible⟩
      · rw [htextures] at hstandard
        cases hstandard
      · rw [htextures] at hincompressible
        cases hincompressible
    | incompressible =>
      have hincompressible := hwith.incompressible htype
      rw [htextures] at hincompressible
      cases hincompressible
    | unpackable => simp [htype, packedAs] at hpacked
    | plugin => simp [htype, packedAs] at hpacked
    | archive => simp [htype, packedAs] at hpacked
  · -- Planning never asks this game's packer to merge Textures.
    have hgame := (forProfile_containers game requestedLimit plan.kind).2.mp hseparate
    refine (forProfile_containers game requestedLimit plan.kind).1.mpr ⟨hgame, ?_⟩
    rw [hfrom.kind]
    rcases (hkind file hfile).texture htexture with htextures | ⟨hmerge, -⟩
    · exact htextures
    · simp [planMerge, GameArchivePacker.rules, hseparate] at hmerge

/-- The choices that merge whatever can be merged. -/
def mergingChoices : ArchiveFinalizationChoices := ⟨true, true, true, true, true⟩

/-- The planned Archives of a file of each kind, in Fallout 4. -/
def mixedPlans : List PlannedArchive := [
  ⟨.incompressible, [mixedSources[0], mixedSources[2]]⟩,
  ⟨.textures, [mixedSources[3]]⟩]

/-- A file of each kind: Textures stay in a container of their own. -/
theorem partition_containers_sample :
    RightContainer (.forProfile .fo4 none) (pathOf ["m"]) ((Settings.forProfile .fo4 none).versionFor .textures)
      [mixedSources[3]] := by
  have hsplit : GameArchivePacker.partition .on (.forProfile .fo4 none) (pathOf ["m"]) mixedSources
      (planMerge mergingChoices (GameArchivePacker.rules (.forProfile .fo4 none))) = some (.ok mixedPlans) := by
    unfold GameArchivePacker.partition
    rw [split_of_sorted (by decide +kernel)]
    decide +kernel
  have htextures : ⟨.textures, [mixedSources[3]]⟩ ∈ mixedPlans := List.mem_cons_of_mem _ List.mem_cons_self
  exact (partition_containers hsplit _ htextures).1

end Cao.Finalize
