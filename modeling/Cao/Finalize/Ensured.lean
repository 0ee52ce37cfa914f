import Cao.Finalize.Loading
import Cao.Finalize.Skeletons

/-!
# The plugin that is ensured

What `ensure_output_loading_plugin` has established when it succeeds, and what it leaves of what stood there.

* `LoadsAt`: what stands at a name loads an Archive, at a strength;
* `KeepsEntries`: nothing that stood is overwritten or removed;
* `reads_probe`, `reads_settledDestination`, `reads_takenPlugin`: what the probes tell;
* **`ensureOutputLoadingPlugin_loads`**: the plugin ensured, and the plugin pinned before sources are deleted.
-/

namespace Cao.Finalize

open Pack
open Prog (Spec spec_bind)

variable {K : Type} [DecidableEq K] {V : Volume K} {P ε : Type} {disk disk' : Disk V} {seams : FinalizationSeams}

/-- What stands at a name loads an Archive: any regular file, following a link; where sources will be deleted, an
ordinary file that is not empty. -/
def LoadsAt (seams : FinalizationSeams) (disk : Disk V) (path : Path) : LoadingPluginStrength → Prop
  | .durableForSourceDeletion => ∃ q data links, disk.find path = some (q, .leaf (.file data links)) ∧ data ≠ []
  | .present => (∃ q data links, disk.find path = some (q, .leaf (.file data links))) ∨
      (∃ q, disk.find path = some (q, .leaf .link)) ∧ ∃ n node, seams.follow n path = some node ∧ isFileNode node = true

/-- The strength that the deletion of sources requires. -/
def strengthOf (plan : FinalizationPlan) : LoadingPluginStrength :=
  if plan.deleteSources then .durableForSourceDeletion else .present

/-- What stood still stands, as it was. -/
def KeepsEntries (disk disk' : Disk V) : Prop := ∀ p n, disk.Has p n → disk'.Has p n

omit [DecidableEq K] in
theorem KeepsEntries.refl (disk : Disk V) : KeepsEntries disk disk := fun _ _ h => h

/-! ## Probes -/

theorem isFileNode_iff {node : Node Leaf} : isFileNode node = true ↔ ∃ data links, node = .leaf (.file data links) := by
  cases node with
  | dir => simp [isFileNode]
  | leaf value => cases value <;> simp [isFileNode]

theorem isDurablePlugin_iff {node : Node Leaf} :
    isDurablePlugin node = true ↔ ∃ data links, node = .leaf (.file data links) ∧ data ≠ [] := by
  unfold isDurablePlugin
  rw [Bool.and_eq_true, isFileNode_iff, decide_eq_true_eq]
  constructor
  · rintro ⟨⟨data, links, rfl⟩, hlength⟩
    exact ⟨data, links, rfl, fun hnil => hlength (by rw [hnil]; rfl)⟩
  · rintro ⟨data, links, rfl, hne⟩
    exact ⟨⟨data, links, rfl⟩, fun hlength => hne (List.eq_nil_of_length_eq_zero hlength)⟩

/-- What a path leads to, if it is a file, is the file there or that of a link there. -/
theorem reads_target (path : Path) :
    Reads disk (statTarget seams path : Prog (Site V P) _ _) fun found =>
      ∀ node, found = some node → isFileNode node = true → LoadsAt seams disk path .present := by
  refine (reads_statEntry path).bind fun found hfound => ?_
  split
  · next hlink =>
    refine reads_nextCall.bind fun n _ => reads_pure fun node hnode hfile => .inr ⟨?_, n, node, hnode, hfile⟩
    obtain ⟨⟨q, m⟩, hfind, rfl⟩ := Option.map_eq_some_iff.mp hfound.symm
    exact ⟨q, hfind⟩
  · refine reads_pure fun node hnode hfile => .inl ?_
    subst hnode
    obtain ⟨data, links, rfl⟩ := isFileNode_iff.mp hfile
    obtain ⟨⟨q, m⟩, hfind, rfl⟩ := Option.map_eq_some_iff.mp hfound.symm
    exact ⟨q, data, links, hfind⟩

/-- A probe that succeeds found what loads. -/
theorem reads_probe (path : Path) (strength : LoadingPluginStrength) :
    Reads disk (isLoadingPlugin seams path strength : Prog (Site V P) _ _) fun loads =>
      loads = true → LoadsAt seams disk path strength := by
  cases strength with
  | present =>
    refine (reads_target path).mapError.bind fun found hfound => reads_pure fun hloads => ?_
    obtain ⟨node, hnode, hfile⟩ := Option.any_eq_true _ _ |>.mp hloads
    exact hfound node hnode hfile
  | durableForSourceDeletion =>
    refine (reads_statEntry path).mapError.bind fun found hfound => reads_pure fun hloads => ?_
    obtain ⟨node, hnode, hdurable⟩ := Option.any_eq_true _ _ |>.mp hloads
    obtain ⟨data, links, rfl, hne⟩ := isDurablePlugin_iff.mp hdurable
    rw [hfound] at hnode
    obtain ⟨⟨q, m⟩, hfind, hm⟩ := Option.map_eq_some_iff.mp hnode
    cases hm
    exact ⟨q, data, links, hfind, hne⟩

theorem reads_loadedElsewhere (strength : LoadingPluginStrength) (excluded : Option Path) (names : List Path) :
    Reads disk (findLoadingPlugin seams strength excluded names : Prog (Site V P) _ _) fun found =>
      ∀ name, found = some name → name ∈ names ∧ LoadsAt seams disk name strength := by
  induction names with
  | nil => exact reads_pure nofun
  | cons name names ih =>
    have hlater : ∀ found, (∀ other, found = some other → other ∈ names ∧ LoadsAt seams disk other strength) →
        ∀ other, found = some other → other ∈ name :: names ∧ LoadsAt seams disk other strength :=
      fun found h other hother => ⟨List.mem_cons_of_mem _ (h other hother).1, (h other hother).2⟩
    unfold findLoadingPlugin
    split_ifs with hexcluded
    · exact ih.mono hlater
    · refine (reads_probe name strength).bind fun loads hloads => ?_
      split_ifs with htrue
      · exact reads_pure (by rintro _ ⟨rfl⟩; exact ⟨List.mem_cons_self, hloads htrue⟩)
      · exact ih.mono hlater

/-- The first free name is one, and free. -/
theorem reads_freeName (names : List Path) :
    Reads disk (firstFreeName seams names : Prog (Site V P) _ _) fun free =>
      ∀ name, free = some name → name ∈ names ∧ disk.find name = none := by
  induction names with
  | nil => exact reads_pure nofun
  | cons name names ih =>
    refine (reads_entryExists name).bind fun occupied hoccupied => ?_
    split_ifs with htrue
    · exact ih.mono fun free h other hother => ⟨List.mem_cons_of_mem _ (h other hother).1, (h other hother).2⟩
    · refine reads_pure ?_
      rintro _ ⟨rfl⟩
      rw [hoccupied, Option.not_isSome_iff_eq_none] at htrue
      exact ⟨List.mem_cons_self, htrue⟩

/-- **Where the fallback goes is a recognized name; where sources will be deleted, nothing stands there that does not
load.** -/
theorem reads_settledDestination {strength : LoadingPluginStrength} {names : List Path} {plugin : Path}
    (hplugin : plugin ∈ names) :
    Reads disk (dummyDestination seams strength names plugin : Prog (Site V P) _ _) fun name => name ∈ names ∧
      (strength = .durableForSourceDeletion → disk.find name = none ∨ LoadsAt seams disk name strength) := by
  unfold dummyDestination
  split_ifs with hstrength
  · refine (reads_entryExists plugin).bind fun occupied hoccupied => ?_
    split_ifs with hfree
    · refine reads_pure ⟨hplugin, fun _ => .inl ?_⟩
      rw [hoccupied, Bool.not_eq_true', Option.isSome_eq_false_iff, Option.isNone_iff_eq_none] at hfree
      exact hfree
    · refine (reads_probe plugin strength).bind fun durable hdurable => ?_
      split_ifs with htrue
      · exact reads_pure ⟨hplugin, fun _ => .inr (hdurable htrue)⟩
      · refine (reads_freeName names).bind fun free hfree => ?_
        cases free with
        | none => exact reads_failWith
        | some name => exact reads_pure ⟨(hfree name rfl).1, fun _ => .inl (hfree name rfl).2⟩
  · exact reads_pure ⟨hplugin, fun h => absurd h hstrength⟩

/-- What stands at the fallback's own name is taken only if it leads to a file. -/
theorem reads_takenPlugin (output : FinalizationOutput) (plugin : Path) (bytes : Bytes) :
    Reads disk (occupiedPlugin seams output plugin bytes : Prog (Site V P) _ _) fun name =>
      name = plugin ∧ LoadsAt seams disk plugin .present := by
  unfold occupiedPlugin
  split_ifs
  on_goal 1 => refine (reads_hasExactDummyBytes plugin bytes).bind fun exact _ => ?_
  on_goal 2 => refine (reads_pure trivial : Reads disk _ fun _ => True).bind fun exact _ => ?_
  -- whatever the bytes, the plugin must lead to a file
  all_goals
    dsimp only
    split_ifs
    · exact reads_failWith
    · refine (reads_result (reads_target plugin)).bind fun metadata hmetadata => ?_
      split
      · split_ifs with hfile
        · exact reads_pure ⟨rfl, hmetadata _ rfl _ rfl hfile⟩
        · exact reads_failWith
      · exact reads_failWith
      · exact reads_failWith

/-! ## The plugin ensured -/

variable {s s' : Site V Finalization} {plan : FinalizationPlan} {output : FinalizationOutput}

/-- A dummy plugin that was created stands there, and all that stood still does. -/
theorem PluginCreated.ensured {root destination : Path} {released : Bool}
    (hbytes : plan.rules.dummyPlugin ≠ [])
    (h : PluginCreated root destination plan.rules.dummyPlugin released s s') (strength : LoadingPluginStrength) :
    LoadsAt seams s'.disk destination strength ∧ KeepsEntries s.disk s'.disk := by
  obtain ⟨q, hcreate⟩ := h.tree
  obtain ⟨hhas, hq, -, hfold, -, -⟩ := PathTree.create_eq_some hcreate
  have hdestination : destination ≠ [] := by
    rintro rfl
    exact hq (List.map_eq_nil_iff.mp hfold)
  have hfind : s'.disk.find destination = some (q, .leaf (.file plan.rules.dummyPlugin 1)) :=
    (PathTree.find_eq_some hdestination).mpr ⟨(hhas _ _).mpr (.inr ⟨rfl, rfl⟩), hfold⟩
  refine ⟨?_, fun p n hp => (hhas p n).mpr (.inl hp)⟩
  cases strength with
  | present => exact .inl ⟨q, _, _, hfind⟩
  | durableForSourceDeletion => exact ⟨q, _, _, hfind, hbytes⟩

/-- The plugin is a recognized name that loads the Archive, and nothing that stood was touched. -/
structure Ensured (seams : FinalizationSeams) (plan : FinalizationPlan) (output : FinalizationOutput) (plugin : Path)
    (s s' : Site V Finalization) : Prop where
  recognized : plugin ∈ output.loadingPluginPaths
  loads : LoadsAt seams s'.disk plugin (strengthOf plan)
  keeps : KeepsEntries s.disk s'.disk

theorem spec_ensured (hbytes : plan.rules.dummyPlugin ≠ []) :
    Spec (ensureOutputLoadingPlugin seams plan output) s (fun plugin s' => Ensured seams plan output plugin s s')
      (fun _ s' => KeepsEntries s.disk s'.disk) fun _ => False := by
  have hidle : ∀ {s' : Site V Finalization}, Idle s s' → KeepsEntries s.disk s'.disk := fun h => by
    rw [h.disk]
    exact .refl _
  unfold ensureOutputLoadingPlugin
  dsimp only
  cases hlast : output.loadingPluginPaths.getLast? with
  | none => exact .refl _
  | some plugin =>
    have hplugin : plugin ∈ output.loadingPluginPaths := List.mem_of_getLast? hlast
    refine spec_bind.mpr ((reads_loadedElsewhere (strengthOf plan) _ _ s rfl).mono ?_ (fun _ s' h => hidle h)
      fun _ h => h)
    rintro elsewhere s₁ ⟨h₁, helsewhere⟩
    cases elsewhere with
    | some loaded =>
      obtain ⟨hin, hloads⟩ := helsewhere loaded rfl
      exact ⟨hin, by rw [h₁.disk]; exact hloads, hidle h₁⟩
    | none =>
      refine spec_bind.mpr ((@reads_settledDestination _ _ _ _ _ _ (strengthOf plan) _ _ hplugin s₁ rfl).mono ?_
        (fun _ s' h => hidle (h₁.trans h)) fun _ h => h)
      rintro destination s₂ ⟨h₂, hin, hsettled⟩
      have h₁₂ : Idle s s₂ := h₁.trans h₂
      rw [h₁.disk] at hsettled
      -- a dummy plugin is published at the destination
      have hcreate : ∀ {s₃ : Site V Finalization}, Idle s s₃ →
          Spec (do
            let published ← publishDummyPlugin seams output.modRoot destination plan.rules.dummyPlugin
            if published.completed then return destination else failWith published.detail) s₃
          (fun plugin s' => Ensured seams plan output plugin s s') (fun _ s' => KeepsEntries s.disk s'.disk)
          fun _ => False := by
        intro s₃ h₃
        have hlogged : ∀ {s' : Site V Finalization}, Logged [] s₃ s' → KeepsEntries s.disk s'.disk := fun h => by
          rw [h.disk, h₃.disk]
          exact .refl _
        refine spec_bind.mpr (spec_publishDummyPlugin.mono ?_ (fun _ s' h' => hlogged h') fun _ h => h)
        rintro published s' (⟨hcompleted, h'⟩ | ⟨released, hcompleted, h'⟩)
        · rw [hcompleted]
          exact hlogged h'
        · have hmade : LoadsAt seams s'.disk destination (strengthOf plan) ∧ KeepsEntries s₃.disk s'.disk :=
            h'.ensured hbytes _
          obtain ⟨hloads, hkeeps⟩ := hmade
          rw [h₃.disk] at hkeeps
          rw [hcompleted]
          cases released with
          | true => exact ⟨hin, hloads, hkeeps⟩
          | false => exact hkeeps
      split_ifs with hsame
      · subst hsame
        refine spec_bind.mpr ((reads_entryExists destination s₂ rfl).mono ?_ (fun _ s' h => hidle (h₁₂.trans h))
          fun _ h => h)
        rintro occupied s₃ ⟨h₃, hoccupied⟩
        have h₁₃ : Idle s s₃ := h₁₂.trans h₃
        split_ifs with htrue
        · -- what stands there is taken as it is
          refine (reads_takenPlugin _ _ _ s₃ rfl).mono ?_ (fun _ s' h' => hidle (h₁₃.trans h')) fun _ h => h
          rintro _ s' ⟨h', rfl, hpresent⟩
          refine ⟨hin, ?_, hidle (h₁₃.trans h')⟩
          rw [h'.disk]
          cases hstrength : strengthOf plan with
          | present => exact hpresent
          | durableForSourceDeletion =>
            rw [h₁₃.disk]
            rw [hoccupied, h₁₂.disk] at htrue
            rcases hsettled hstrength with hnone | hdurable
            · rw [hnone] at htrue
              cases htrue
            · rwa [hstrength] at hdurable
        · exact hcreate h₁₃
      · exact hcreate h₁₂

/-- The dummy plugin of every game has bytes. -/
theorem dummyPlugin_ne_nil (game : Game) (requestedLimit : Option UInt64) :
    (GameArchivePacker.rules (.forProfile game requestedLimit)).dummyPlugin ≠ [] := by
  cases game <;> exact fun h => by cases h

/-- **The plugin ensured is a recognized name that loads the Archive, and nothing that stood is touched.** Where sources
will be deleted, it is pinned before the first of them goes. -/
theorem ensureOutputLoadingPlugin_loads (seams : FinalizationSeams) (plan : FinalizationPlan)
    (output : FinalizationOutput) (s : Site V Finalization) (game : Game) (requestedLimit : Option UInt64)
    (hrules : plan.rules = GameArchivePacker.rules (.forProfile game requestedLimit)) :
    Spec (ensureOutputLoadingPlugin seams plan output) s (fun plugin s' => Ensured seams plan output plugin s s')
      (fun _ s' => KeepsEntries s.disk s'.disk) (fun _ => False) ∧
    Spec (loadPublished seams plan output) s
      (fun _ s' => KeepsEntries s.disk s'.disk ∧ (plan.deleteSources = true → output.loadingPluginPaths ≠ [] →
        ∃ plugin s₀ s₁, s₀.disk = s.disk ∧ ensureOutputLoadingPlugin seams plan output s₀ = (.done plugin, s₁) ∧
          Ensured seams plan output plugin s₀ s₁ ∧ s'.log = s₁.log ++ [.pluginPinned plugin] ∧ s'.disk = s₁.disk))
      (fun _ s' => KeepsEntries s.disk s'.disk) fun _ => False := by
  have hbytes : plan.rules.dummyPlugin ≠ [] := by
    rw [hrules]
    exact dummyPlugin_ne_nil game requestedLimit
  refine ⟨spec_ensured hbytes, spec_bind.mpr (Prog.spec_modify.mpr ?_)⟩
  split_ifs with hnames hdelete
  · exact ⟨.refl _, fun _ hne => absurd hnames hne⟩
  · refine spec_bind.mpr (Prog.spec_mapError.mpr ((spec_ensured hbytes).ran.mono ?_ (fun _ s' h => h) fun _ h => h))
    rintro plugin s₁ ⟨hensured, hrun⟩
    refine Prog.spec_mapError.mpr (spec_loadingPluginPin.mono ?_ (fun _ s' h => ?_) fun _ h => h)
    · rintro _ s' ⟨hpinned, -⟩
      refine ⟨?_, fun _ _ => ⟨plugin, _, s₁, ?_, hrun, hensured, hpinned.log, hpinned.disk⟩⟩
      · rw [hpinned.disk]
        exact hensured.keeps
      · rfl
    · rw [h.disk]
      exact hensured.keeps
  · refine spec_bind.mpr (Prog.spec_mapError.mpr ((spec_ensured hbytes).mono ?_ (fun _ s' h => h) fun _ h => h))
    intro plugin s₁ hensured
    exact ⟨hensured.keeps, fun h => absurd h hdelete⟩

/-- A plan that deletes its sources. -/
def deletingPlan : FinalizationPlan where
  outputs := []
  roots := [["m".toList].map OsStr.ofText]
  rules := GameArchivePacker.rules (.forProfile .sse none)
  compress := true
  deleteSources := true
  createDummies := true
  dummyCapacityByRoot := []

/-- Its output, with one recognized name. -/
def deletingOutput : FinalizationOutput where
  modRoot := ["m".toList].map OsStr.ofText
  archivePath := ["m".toList, "m.bsa".toList].map OsStr.ofText
  archive := ⟨.standard, []⟩
  pluginPath := some (["m".toList, "m.esp".toList].map OsStr.ofText)
  estimatedCapacityBytes := 0
  loadingPluginPaths := [["m".toList, "m.esp".toList].map OsStr.ofText]

/-- The site of the sample. -/
def deletingSite : Site asciiVolume Finalization := ⟨skeletonDisk, [], ⟨.start, .default, []⟩, 0, []⟩

theorem ensureOutputLoadingPlugin_loads_sample :
    Spec (ensureOutputLoadingPlugin allowing deletingPlan deletingOutput) deletingSite
      (fun plugin s' => Ensured allowing deletingPlan deletingOutput plugin deletingSite s')
      (fun _ s' => KeepsEntries deletingSite.disk s'.disk) (fun _ => False) :=
  (ensureOutputLoadingPlugin_loads allowing deletingPlan deletingOutput deletingSite .sse none rfl).1

end Cao.Finalize
