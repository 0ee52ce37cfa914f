import Cao.Finalize.Partition
import Cao.Finalize.Sources

/-!
# What a plan holds

Planning only reads, and what it freezes it found in the tree.

* `chooseName`, `chooseNames`: the names of outputs, of what stands in the tree; **`chooseNames_free`**: each is
  free, and spelled as no other;
* `IsListed`, `NamingPlugins`: the plugins outputs are named after;
* `IsOutput`, `PlanHolds`: an output and a plan; **`reads_planFinalization`**: what planning returns.
-/

namespace Cao.Finalize

open Pack

variable {K : Type} [DecidableEq K] {V : Volume K} {P ε : Type} {disk : Disk V} {seams : FinalizationSeams}
  {request : FinalizationRequest} {root : Path}

/-! ## The choice -/

/-- Nothing stands at a name, and no other output got it. -/
def isFree (disk : Disk V) (reserved : List Path) (candidate : ArchiveName) : Bool :=
  (disk.find candidate.fullPath).isNone && !reserved.contains candidate.fullPath

/-- The first candidate that is free. -/
def chooseName (disk : Disk V) (reserved : List Path) (candidates : List ArchiveName) : Option ArchiveName :=
  candidates.find? (isFree disk reserved)

/-- The names of some outputs, each with its candidates, and the output paths reserved before. -/
def chooseNames (disk : Disk V) : List Path → List (List ArchiveName) → Option (List ArchiveName)
  | _, [] => some []
  | reserved, candidates :: rest => do
    let name ← chooseName disk reserved candidates
    let names ← chooseNames disk (name.fullPath :: reserved) rest
    return name :: names

/-- The paths of some names. -/
abbrev pathsOf (names : List ArchiveName) : List Path := names.map ArchiveName.fullPath

theorem chooseName_eq_some {reserved : List Path} {candidates : List ArchiveName} {name : ArchiveName}
    (h : chooseName disk reserved candidates = some name) :
    name ∈ candidates ∧ disk.find name.fullPath = none ∧ name.fullPath ∉ reserved := by
  refine ⟨List.mem_of_find?_eq_some h, ?_⟩
  simpa [isFree] using List.find?_some h

theorem chooseName_eq_none {reserved : List Path} {candidates : List ArchiveName} :
    chooseName disk reserved candidates = none ↔
      ∀ name ∈ candidates, disk.find name.fullPath ≠ none ∨ name.fullPath ∈ reserved := by
  unfold chooseName
  rw [List.find?_eq_none]
  refine forall₂_congr fun name _ => ?_
  simp only [isFree, Bool.and_eq_true, Option.isNone_iff_eq_none, Bool.not_eq_true', List.contains_eq_mem,
    decide_eq_false_iff_not]
  tauto

theorem chooseNames_cons {reserved : List Path} {candidates : List ArchiveName} {rest : List (List ArchiveName)}
    {names : List ArchiveName} : chooseNames disk reserved (candidates :: rest) = some names ↔
      ∃ name others, chooseName disk reserved candidates = some name ∧
        chooseNames disk (name.fullPath :: reserved) rest = some others ∧ names = name :: others := by
  simp only [chooseNames, Option.bind_eq_bind, Option.bind_eq_some_iff, Option.pure_def, Option.some.injEq]
  constructor
  · rintro ⟨name, hname, others, hothers, rfl⟩
    exact ⟨name, others, hname, hothers, rfl⟩
  · rintro ⟨name, others, hname, hothers, rfl⟩
    exact ⟨name, hname, others, hothers, rfl⟩

/-- Choosing for some outputs and then for others. -/
theorem chooseNames_append {reserved : List Path} {offers offers' : List (List ArchiveName)}
    {names names' : List ArchiveName} (h : chooseNames disk reserved offers = some names)
    (h' : chooseNames disk ((pathsOf names).reverse ++ reserved) offers' = some names') :
    chooseNames disk reserved (offers ++ offers') = some (names ++ names') := by
  induction offers generalizing reserved names with
  | nil =>
    simp only [chooseNames, Option.some.injEq] at h
    subst h
    simpa using h'
  | cons candidates offers ih =>
    obtain ⟨name, others, hname, hothers, rfl⟩ := chooseNames_cons.mp h
    refine chooseNames_cons.mpr ⟨name, others ++ names', hname, ih hothers ?_, rfl⟩
    simpa [pathsOf] using h'

/-- **What is chosen is a free candidate, spelled as no other.** -/
theorem chooseNames_free {reserved : List Path} {offers : List (List ArchiveName)} {names : List ArchiveName}
    (h : chooseNames disk reserved offers = some names) :
    (∀ name ∈ names, (∃ candidates ∈ offers, name ∈ candidates) ∧ disk.find name.fullPath = none ∧
      name.fullPath ∉ reserved) ∧ (pathsOf names).Nodup := by
  induction offers generalizing reserved names with
  | nil =>
    simp only [chooseNames, Option.some.injEq] at h
    subst h
    simp
  | cons candidates offers ih =>
    obtain ⟨name, others, hname, hothers, rfl⟩ := chooseNames_cons.mp h
    obtain ⟨hmem, hfree, hunreserved⟩ := chooseName_eq_some hname
    obtain ⟨hrest, hnodup⟩ := ih hothers
    refine ⟨fun other hother => ?_, ?_⟩
    · rcases List.mem_cons.mp hother with rfl | hother
      · exact ⟨⟨candidates, List.mem_cons_self, hmem⟩, hfree, hunreserved⟩
      · obtain ⟨⟨offer, hoffer, hin⟩, hf, hr⟩ := hrest other hother
        exact ⟨⟨offer, List.mem_cons_of_mem _ hoffer, hin⟩, hf, fun h => hr (List.mem_cons_of_mem _ h)⟩
    · rw [pathsOf, List.map_cons, List.nodup_cons]
      refine ⟨fun hin => ?_, hnodup⟩
      obtain ⟨other, hother, heq⟩ := List.mem_map.mp hin
      exact (hrest other hother).2.2 (heq ▸ List.mem_cons_self)

/-! ## The choice planning makes -/

/-- The plugins the outputs of a Mod Root are named after: they stand in it, or the root gave its name. -/
structure NamingPlugins (settings : Settings) (disk : Disk V) (root : Path) (plugins : List ArchiveName) : Prop where
  nonempty : plugins ≠ []
  named : ∀ plugin ∈ plugins, plugin.dir = root ∧
    ((∃ entry n, disk.Has (root ++ [entry]) n ∧ FilePath.make (root ++ [entry]) settings .plugin = some plugin) ∨
      ∃ name, root.getLast?.bind OsStr.toStr = some name ∧ plugin = ⟨root, name, [], ".esp".toList, none⟩)

/-- The candidates of an output: of one kind, in a Mod Root as the volume spells it. -/
def IsOffer (request : FinalizationRequest) (disk : Disk V) (candidates : List ArchiveName) : Prop :=
  ∃ root n kind plugins, disk.find root = some (root, n) ∧ NamingPlugins request.settings disk root plugins ∧
    candidates = outputCandidates request.rules kind plugins

theorem make_dir {path : Path} {settings : Settings} {kind : NameKind} {archive : ArchiveName}
    (h : FilePath.make path settings kind = some archive) : archive.dir = path.dropLast := by
  unfold FilePath.make at h
  simp only [Option.bind_eq_bind, Option.bind_eq_some_iff] at h
  obtain ⟨_, -, _, -, h⟩ := h
  split_ifs at h
  cases h
  rfl

/-- A name listed in a directory: an entry of it, read as a name of the kind. -/
def IsListed (settings : Settings) (disk : Disk V) (dir : Path) (kind : NameKind) (name : ArchiveName) : Prop :=
  ∃ q entry n, disk.find dir = some (q, .dir) ∧ disk.Has (q ++ [entry]) n ∧
    FilePath.make (dir ++ [entry]) settings kind = some name

theorem reads_listName {settings : Settings} {dir q : Path} {kind : NameKind} {names : List ArchiveName} {entry : OsStr}
    {n : Node Leaf} (hdir : disk.find dir = some (q, .dir)) (hentry : disk.Has (q ++ [entry]) n)
    (h : ∀ name ∈ names, IsListed settings disk dir kind name) :
    Reads disk (listName seams settings dir kind names entry : Prog (Site V P) _ _)
      fun names => ∀ name ∈ names, IsListed settings disk dir kind name := by
  refine (reads_call _).mapError.bind fun _ _ => (reads_result (reads_statTarget _)).bind fun target _ => ?_
  split_ifs
  · exact reads_pure h
  · exact reads_failWith
  · refine reads_pure fun name hname => ?_
    rcases List.mem_append.mp hname with hname | hname
    · exact h name hname
    · exact ⟨q, entry, n, hdir, hentry, Option.mem_toList.mp hname⟩

/-- **What is listed stands in the directory.** -/
theorem reads_listNames {settings : Settings} {dir : Path} {kind : NameKind} :
    Reads disk (listNames seams settings dir kind : Prog (Site V P) _ _)
      fun names => ∀ name ∈ names, IsListed settings disk dir kind name := by
  refine (reads_inspectTree _).mapError.bind fun entries hentries => ?_
  unfold readDirectory at hentries
  split at hentries
  · next q hdir =>
    cases hentries
    refine Reads.foldEach_inv (fun names entry hmem h => ?_) (by simp)
    obtain ⟨⟨_, n⟩, hn, rfl⟩ := List.mem_map.mp hmem
    exact reads_listName hdir (PathTree.mem_children.mp hn) h
  · cases hentries

theorem IsListed.dir {settings : Settings} {dir : Path} {kind : NameKind} {name : ArchiveName}
    (h : IsListed settings disk dir kind name) : name.dir = dir := by
  obtain ⟨q, entry, n, -, -, hmake⟩ := h
  rw [make_dir hmake, List.dropLast_concat]

theorem reads_hasExactDummyBytes (path : Path) (bytes : Bytes) :
    Reads disk (hasExactDummyBytes seams path bytes : Prog (Site V P) (Thrown ε) _) fun _ => True := by
  refine (reads_result (reads_statEntry path)).bind fun metadata _ => ?_
  split
  · split_ifs
    · exact reads_pure trivial
    · refine (reads_result (reads_call _)).bind fun opened _ => ?_
      split
      · exact reads_pure trivial
      · exact (reads_result (reads_inspectTree _)).bind fun contents _ => reads_pure trivial
  · exact reads_pure trivial
  · exact reads_pure trivial

theorem reads_namingPlugins {n : Node Leaf} (hroot : disk.find root = some (root, n)) :
    Reads disk (namingPlugins seams request root : Prog (Site V P) _ _)
      (NamingPlugins request.settings disk root) := by
  refine reads_listNames.mapError.bind fun listed hlisted => ?_
  have hkeep : Reads disk (Prog.foldEach (keepPlugin seams request.rules) [] listed : Prog (Site V P) _ _)
      fun plugins => ∀ plugin ∈ plugins, IsListed request.settings disk root .plugin plugin := by
    refine Reads.foldEach_inv (fun plugins plugin hplugin h => ?_) (by simp)
    refine reads_checkCancelled.bind fun _ _ => (reads_hasExactDummyBytes _ _).bind fun dummy _ => reads_pure ?_
    split_ifs
    · exact h
    · intro other hother
      rcases List.mem_append.mp hother with hother | hother
      · exact h other hother
      · rw [List.mem_singleton.mp hother]
        exact hlisted plugin hplugin
  refine hkeep.bind fun plugins hplugins => ?_
  split_ifs with hne
  · refine reads_pure ⟨?_, fun plugin hplugin => ?_⟩
    · intro hnil
      have hlength := congrArg List.length hnil
      rw [sortPlugins, List.length_insertionSort, List.length_nil] at hlength
      exact hne (List.eq_nil_of_length_eq_zero hlength)
    · have hlist := hplugins plugin ((List.perm_insertionSort _ _).mem_iff.mp hplugin)
      refine ⟨hlist.dir, .inl ?_⟩
      obtain ⟨q, entry, m, hdir, hentry, hmake⟩ := hlist
      rw [hroot] at hdir
      cases hdir
      exact ⟨entry, m, hentry, hmake⟩
  · cases hname : root.getLast?.bind OsStr.toStr with
    | none => exact reads_failWith
    | some name =>
      refine reads_pure ⟨by simp, fun plugin hplugin => ?_⟩
      rw [List.mem_singleton.mp hplugin]
      exact ⟨rfl, .inr ⟨name, hname, rfl⟩⟩

/-- **The first available name is the one chosen.** -/
theorem reads_firstAvailable (reserved : List Path) (candidates : List ArchiveName) :
    Reads disk (firstAvailable seams reserved candidates : Prog (Site V P) _ _)
      fun name => name = chooseName disk reserved candidates := by
  induction candidates with
  | nil => exact reads_pure rfl
  | cons candidate candidates ih =>
    have havailable : Reads disk (available seams reserved candidate : Prog (Site V P) _ _)
        fun free => free = isFree disk reserved candidate := by
      refine (reads_statEntry _).mapError.bind fun found hfound => reads_pure ?_
      rw [hfound, isFree]
      cases disk.find candidate.fullPath <;> rfl
    refine reads_checkCancelled.bind fun _ _ => havailable.bind fun free hfree => ?_
    unfold chooseName
    rw [List.find?_cons]
    subst hfree
    cases hf : isFree disk reserved candidate with
    | true => exact reads_pure rfl
    | false => exact ih

/-! ## Outputs -/

/-- An output: a free name in a Mod Root, the names that load it, and files that may be packed. -/
structure IsOutput (request : FinalizationRequest) (disk : Disk V) (output : FinalizationOutput) : Prop where
  root : ∃ n, disk.find output.modRoot = some (output.modRoot, n)
  name : ∃ selected : ArchiveName, selected.dir = output.modRoot ∧ selected.ext = request.rules.extension ∧
    output.archivePath = selected.fullPath ∧ disk.find output.archivePath = none ∧
    output.loadingPluginPaths =
      if request.choices.createDummyPlugins then loadingPluginNames selected request.rules else []
  files : ∀ file ∈ output.archive.files, IsSource request disk output.modRoot file ∧
    isPacked request.settings output.modRoot file = true

/-- A plan in the making. -/
structure PlanHolds (request : FinalizationRequest) (disk : Disk V) (inputs : List Path) (planning : Planning) :
    Prop where
  names : ∃ offers names, (∀ candidates ∈ offers, IsOffer request disk candidates) ∧
    chooseNames disk [] offers = some names ∧
    planning.plan.outputs.map FinalizationOutput.archivePath = pathsOf names ∧
    planning.reserved = (pathsOf names).reverse
  outputs : ∀ output ∈ planning.plan.outputs, IsOutput request disk output
  roots : ∀ root ∈ planning.plan.roots, ∃ input ∈ inputs, ∃ n, disk.find input = some (root, n)
  within : ∀ output ∈ planning.plan.outputs, output.modRoot ∈ planning.plan.roots
  rules : planning.plan.rules = request.rules
  deleteSources : planning.plan.deleteSources = request.choices.deleteSources
  createDummies : planning.plan.createDummies = request.choices.createDummyPlugins

theorem outputCandidates_spec {rules : ArchiveNamingRules} {kind : ArchiveType} {plugins : List ArchiveName}
    {candidate : ArchiveName} (h : candidate ∈ outputCandidates rules kind plugins) :
    candidate.ext = rules.extension ∧ ∃ plugin ∈ plugins, candidate.dir = plugin.dir := by
  rcases List.mem_append.mp h with h | h
  · obtain ⟨plugin, hplugin, rfl⟩ := List.mem_map.mp h
    exact ⟨rfl, plugin, hplugin, rfl⟩
  · cases plugins with
    | nil => cases h
    | cons first plugins =>
      obtain ⟨counter, -, rfl⟩ := List.mem_map.mp h
      exact ⟨rfl, first, List.mem_cons_self, rfl⟩

theorem reads_isLoadingPlugin (path : Path) (strength : LoadingPluginStrength) :
    Reads disk (isLoadingPlugin seams path strength : Prog (Site V P) _ _) fun _ => True := by
  cases strength with
  | present => exact (reads_statTarget _).mapError.bind fun _ _ => reads_pure trivial
  | durableForSourceDeletion => exact (reads_statEntry _).mapError.bind fun _ _ => reads_pure trivial

theorem reads_findLoadingPlugin (strength : LoadingPluginStrength) (excluded : Option Path) (names : List Path) :
    Reads disk (findLoadingPlugin seams strength excluded names : Prog (Site V P) _ _) fun found =>
      ∀ name, found = some name → name ∈ names := by
  induction names with
  | nil => exact reads_pure nofun
  | cons name names ih =>
    have hlater : ∀ found, (∀ other, found = some other → other ∈ names) →
        ∀ other, found = some other → other ∈ name :: names :=
      fun found h other hother => List.mem_cons_of_mem _ (h other hother)
    unfold findLoadingPlugin
    split_ifs with hexcluded
    · exact ih.mono hlater
    · refine (reads_isLoadingPlugin name strength).bind fun loads _ => ?_
      split_ifs
      · exact reads_pure (by rintro _ ⟨rfl⟩; exact List.mem_cons_self)
      · exact ih.mono hlater

theorem reads_estimatePackedCapacity {output : FinalizationOutput} {dummyLength : Nat}
    {check : Prog (Site V P) (Thrown PlanningStop) Unit} (hcheck : Reads disk check fun _ => True) :
    Reads disk (estimatePackedCapacity seams output dummyLength check) fun _ => True := by
  refine Reads.foldEach_inv (fun estimate source _ _ => ?_) trivial
  refine hcheck.bind fun _ _ => (reads_statTarget _).mapError.bind fun found _ => ?_
  split
  · exact reads_failWith
  · exact reads_pure trivial

theorem reads_planPlugins (plan : FinalizationPlan) (selected : ArchiveName) :
    Reads disk (planPlugins seams plan selected : Prog (Site V P) _ _) fun planned =>
      planned.1 = if plan.createDummies then loadingPluginNames selected plan.rules else [] := by
  unfold planPlugins
  split_ifs
  · exact reads_checkCancelled.bind fun _ _ => (reads_findLoadingPlugin _ _ _).mapError.bind fun _ _ => reads_pure rfl
  · exact reads_pure rfl

variable {inputs : List Path} {planning : Planning}

theorem reads_planArchive {plugins : List ArchiveName} {archive : PlannedArchive} {n : Node Leaf}
    (hroot : disk.find root = some (root, n)) (hplugins : NamingPlugins request.settings disk root plugins)
    (hfiles : ∀ file ∈ archive.files, IsSource request disk root file ∧ isPacked request.settings root file = true)
    (hin : root ∈ planning.plan.roots) (h : PlanHolds request disk inputs planning) :
    Reads disk (planArchive seams root plugins planning archive : Prog (Site V P) _ _) fun planning' =>
      PlanHolds request disk inputs planning' ∧ planning'.plan.roots = planning.plan.roots := by
  obtain ⟨offers, names, hoffers, hnames, hpaths, hreserved⟩ := h.names
  refine reads_checkCancelled.bind fun _ _ => (reads_firstAvailable _ _).bind fun selected hselected => ?_
  cases selected with
  | none => exact reads_failWith
  | some selected =>
    refine (reads_planPlugins _ _).bind fun planned hplanned => ?_
    refine (reads_estimatePackedCapacity reads_checkCancelled).bind fun estimate _ => reads_pure ⟨?_, rfl⟩
    rw [h.rules] at hselected hplanned
    rw [h.createDummies] at hplanned
    obtain ⟨hmem, hfree, -⟩ := chooseName_eq_some hselected.symm
    obtain ⟨hext, plugin, hplugin, hdir⟩ := outputCandidates_spec hmem
    rw [(hplugins.named plugin hplugin).1] at hdir
    refine ⟨⟨offers ++ [outputCandidates request.rules archive.kind plugins], names ++ [selected], ?_, ?_, ?_, ?_⟩,
      ?_, h.roots, ?_, h.rules, h.deleteSources, h.createDummies⟩
    · intro candidates hcandidates
      rcases List.mem_append.mp hcandidates with hcandidates | hcandidates
      · exact hoffers candidates hcandidates
      · exact ⟨root, n, archive.kind, plugins, hroot, hplugins, List.mem_singleton.mp hcandidates⟩
    · refine chooseNames_append hnames (chooseNames_cons.mpr ⟨selected, [], ?_, rfl, rfl⟩)
      rw [List.append_nil, ← hreserved]
      exact hselected.symm
    · simp [hpaths, pathsOf]
    · simp [hreserved, pathsOf]
    · intro output houtput
      rcases List.mem_append.mp houtput with houtput | houtput
      · exact h.outputs output houtput
      · rw [List.mem_singleton.mp houtput]
        exact ⟨⟨n, hroot⟩, ⟨selected, hdir, hext, rfl, hfree, hplanned⟩, hfiles⟩
    · intro output houtput
      rcases List.mem_append.mp houtput with houtput | houtput
      · exact h.within output houtput
      · rw [List.mem_singleton.mp houtput]
        exact hin

theorem reads_dummyCapacity : Reads disk (dummyCapacity seams request root : Prog (Site V P) _ _) fun _ => True := by
  unfold dummyCapacity
  split_ifs
  · exact reads_checkCancelled.bind fun _ _ => reads_listNames.mapError.bind fun _ _ => reads_pure trivial
  · exact reads_pure trivial

omit [DecidableEq K] in
theorem reads_partitionSources (sources : List PackSource) :
    Reads disk (partitionSources request root sources : Prog (Site V P) _ _) fun archives =>
      ∀ archive ∈ archives, ∀ file ∈ archive.files, file ∈ sources ∧ isPacked request.settings root file = true := by
  unfold partitionSources
  split
  · exact reads_fail
  · exact reads_failWith
  · next archives hpartition => exact reads_pure fun archive ha file hf => partition_packed hpartition ha hf

theorem reads_planRoot {input : Path} (hinput : input ∈ inputs) (h : PlanHolds request disk inputs planning) :
    Reads disk (planRoot seams request planning input : Prog (Site V P) _ _) (PlanHolds request disk inputs) := by
  refine reads_checkCancelled.bind fun _ _ => (reads_inspectTree _).mapError.bind fun root hcanonical => ?_
  obtain ⟨n, hfind⟩ : ∃ n, disk.find input = some (root, n) := by
    simp only [treeView] at hcanonical
    split at hcanonical
    · next q n hfind =>
      cases hcanonical
      exact ⟨n, hfind⟩
    · cases hcanonical
  have hroot : disk.find root = some (root, n) := by
    rw [← hfind]
    exact PathTree.find_congr (PathTree.fold_of_find hfind)
  refine reads_dummyCapacity.bind fun capacity _ => ?_
  refine (reads_namingPlugins hroot).bind fun plugins hplugins => ?_
  refine (reads_collectSources hroot).bind fun sources hsources => ?_
  refine reads_checkCancelled.bind fun _ _ => (reads_partitionSources sources).bind fun archives harchives => ?_
  have hstart : PlanHolds request disk inputs { planning with plan := { planning.plan with
      roots := planning.plan.roots ++ [root]
      dummyCapacityByRoot := (root, capacity) :: planning.plan.dummyCapacityByRoot } } := by
    refine ⟨h.names, h.outputs, fun other hother => ?_, fun output houtput => ?_, h.rules, h.deleteSources,
      h.createDummies⟩
    · rcases List.mem_append.mp hother with hother | hother
      · exact h.roots other hother
      · rw [List.mem_singleton.mp hother]
        exact ⟨input, hinput, n, hfind⟩
    · exact List.mem_append_left _ (h.within output houtput)
  refine (Reads.foldEach_inv (J := fun planning' => PlanHolds request disk inputs planning' ∧
    root ∈ planning'.plan.roots) (fun planning' archive harchive hp => ?_) ⟨hstart, by simp⟩).mono fun _ hp => hp.1
  refine (reads_planArchive hroot hplugins (fun file hfile => ?_) hp.2 hp.1).mono fun _ hp' => ⟨hp'.1, hp'.2 ▸ hp.2⟩
  have hfile := harchives archive harchive file hfile
  exact ⟨hsources file hfile.1, hfile.2⟩

theorem planHolds_empty : PlanHolds request disk inputs ⟨emptyPlan request, []⟩ :=
  ⟨⟨[], [], by simp, rfl, rfl, rfl⟩, nofun, nofun, nofun, rfl, rfl, rfl⟩

/-- **Planning only reads, always ends, and freezes what it found in the tree.** -/
theorem reads_planFinalization (inputs : List Path) :
    Reads disk (planFinalization seams request inputs : Prog (Site V P) _ _) fun plan =>
      ∃ reserved, PlanHolds request disk inputs ⟨plan, reserved⟩ := by
  refine (Reads.foldEach_inv (fun planning input hinput h => reads_planRoot hinput h) planHolds_empty).bind
    fun planning h => ?_
  exact reads_checkCancelled.bind fun _ _ => reads_pure ⟨planning.reserved, h⟩

end Cao.Finalize
