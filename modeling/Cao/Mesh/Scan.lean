import Cao.Archive.Preflight
import Cao.Lib.Cancellable
import Cao.Plugin.Headparts

/-!
# The Headpart Meshes of a run

The list of a run's Headpart Meshes (`headparts.rs`): those the Profile names, and those that the plugins below
the selected folder name.

* `HeadpartList`: paths that are found in any case;
* `PluginView`: the folder as the scan reads it; `listPlugins`, `scanHeadparts`: the scan, which asks for every
  entry and every plugin whether it is cancelled;
* `pluginsBelow`, **`mem_pluginsBelow`**: the plugins that it finds are those in the folders it goes into;
* **`scanHeadparts_exact`**: what a scan lists and what it reports, and when it stops.
-/

namespace Cao.Mesh

open Plugin (Buffer PluginError Inflate Stop Sound cleanPath)

variable {tables : CaseTables}

/-! ## The list -/

/-- `HeadpartList`: each path in lowercase. -/
structure HeadpartList where
  folded : List Text

/-- `HeadpartList::new`. -/
def HeadpartList.new (tables : CaseTables) (paths : List Text) : HeadpartList :=
  ⟨paths.map fun path => toLowercase tables (cleanPath path)⟩

/-- `HeadpartList::contains`. -/
def HeadpartList.contains (tables : CaseTables) (list : HeadpartList) (gamePath : Text) : Bool :=
  list.folded.contains (toLowercase tables gamePath)

theorem HeadpartList.contains_new {paths : List Text} {gamePath : Text} : (HeadpartList.new tables paths).contains tables gamePath = true ↔
    ∃ path ∈ paths, toLowercase tables (cleanPath path) = toLowercase tables gamePath := by
  unfold contains new
  rw [List.contains_iff_mem, List.mem_map]

/-! ## The folder -/

/-- A real directory: neither a link nor another reparse point. -/
def realDirectory (view : FileView) (path : Path) : Prop :=
  ∃ metadata, view.symlinkMetadata path = .ok metadata ∧ metadata.isDir = true ∧ metadata.isSymlink = false ∧
    metadata.isReparsePoint = false

/-- The selected folder: real directories nest to a finite depth, and a file opens to its bytes or not. -/
structure PluginView extends FileView where
  depth : Path → Nat
  deeper : ∀ directory entries name, readDir directory = .ok entries → .ok name ∈ entries →
    realDirectory toFileView (directory ++ [name]) → depth (directory ++ [name]) < depth directory
  bytes : Path → Option Buffer

/-- `is_plugin_name`. -/
def isPluginName (name : Text) (extensions : List Bytes) : Bool :=
  extensions.any fun suffix => suffix.length ≤ (utf8 name).length &&
    eqIgnoreAsciiCase ((utf8 name).drop ((utf8 name).length - suffix.length)) suffix

/-- A result that is no panic. -/
def orError {α : Type} : (result : Except Stop α) → Sound result → Except PluginError α
  | .ok a, _ => .ok a
  | .error (.failed error), _ => .error error
  | .error .panicked, h => absurd rfl h

/-! ## The scan -/

/-- `UnreadablePlugin`. -/
structure UnreadablePlugin where
  path : Path
  error : PluginError

/-- `HeadpartScan`. -/
structure HeadpartScan where
  headparts : HeadpartList
  unreadable : List UnreadablePlugin

/-- `ScanCancelled`. -/
inductive ScanCancelled
  | scanCancelled

section

variable (checks : OverflowChecks) (inflate : Inflate) (view : PluginView) (extensions : List Bytes) (cancelled : Nat → Bool)

/-- `read_plugin`. -/
def readPlugin (path : Path) : Except PluginError (List Text) :=
  match view.bytes path with
  | none => .error .io
  | some plugin => orError (Plugin.headparts checks inflate plugin) (Plugin.sound_headparts checks inflate plugin)

/-- An entry of `list_plugins`, once it is no reserved name. -/
def listNamed (below : Path → List Path → Prog Nat ScanCancelled (List Path)) (directory : Path) (name : OsStr)
    (plugins : List Path) : Prog Nat ScanCancelled (List Path) :=
  match view.symlinkMetadata (directory ++ [name]) with
  | .error _ => return plugins
  | .ok metadata =>
    if metadata.isDir then
      if !metadata.isSymlink && !metadata.isReparsePoint then below (directory ++ [name]) plugins else return plugins
    else if view.isFile (directory ++ [name]) && isPluginName name.lossy extensions then
      return plugins ++ [directory ++ [name]]
    else return plugins

/-- An entry of `list_plugins`. -/
def listEntry (below : Path → List Path → Prog Nat ScanCancelled (List Path)) (directory : Path) (plugins : List Path)
    (entry : Except String OsStr) : Prog Nat ScanCancelled (List Path) := do
  Prog.poll cancelled .scanCancelled
  match entry with
  | .error _ => return plugins
  | .ok name => if isStagingName name then return plugins else listNamed view extensions below directory name plugins

/-- `list_plugins`, to a depth. -/
def listPlugins : Nat → Path → List Path → Prog Nat ScanCancelled (List Path)
  | 0, _, plugins => return plugins
  | fuel + 1, directory, plugins =>
    match view.readDir directory with
    | .error _ => return plugins
    | .ok entries => Prog.foldEach (listEntry view extensions cancelled (listPlugins fuel) directory) plugins entries

/-- One plugin of `scan_headparts`. -/
def scanPlugin (found : List Text × List UnreadablePlugin) (path : Path) :
    Prog Nat ScanCancelled (List Text × List UnreadablePlugin) := do
  Prog.poll cancelled .scanCancelled
  match readPlugin checks inflate view path with
  | .ok headparts => return (found.1 ++ headparts, found.2)
  | .error error => return (found.1, found.2 ++ [⟨path, error⟩])

/-- `scan_headparts`. -/
def scanHeadparts (tables : CaseTables) (custom : List Text) (selection : Path) : Prog Nat ScanCancelled HeadpartScan := do
  let plugins ← listPlugins view extensions cancelled (view.depth selection + 1) selection []
  let (paths, unreadable) ← Prog.foldEach (scanPlugin checks inflate view cancelled) (custom, []) plugins
  return ⟨.new tables paths, unreadable⟩

end

/-! ## What a walk finds -/

section

variable (view : PluginView) (extensions : List Bytes)

/-- A directory that a listing leads into. -/
def goesInto (directory : Path) (entry : Except String OsStr) : Option Path :=
  match entry with
  | .error _ => none
  | .ok name =>
    if isStagingName name then none
    else match view.symlinkMetadata (directory ++ [name]) with
      | .error _ => none
      | .ok metadata =>
        if metadata.isDir && (!metadata.isSymlink && !metadata.isReparsePoint) then some (directory ++ [name]) else none

/-- A plugin that a listing holds. -/
def listsPlugin (directory : Path) (entry : Except String OsStr) : Option Path :=
  match entry with
  | .error _ => none
  | .ok name =>
    if isStagingName name then none
    else match view.symlinkMetadata (directory ++ [name]) with
      | .error _ => none
      | .ok metadata =>
        if !metadata.isDir && (view.isFile (directory ++ [name]) && isPluginName name.lossy extensions) then
          some (directory ++ [name])
        else none

/-- The plugins that a walk finds, in its order. -/
def pluginsBelow : Nat → Path → List Path
  | 0, _ => []
  | fuel + 1, directory =>
    match view.readDir directory with
    | .error _ => []
    | .ok entries => entries.flatMap fun entry =>
      (listsPlugin view extensions directory entry).toList ++ ((goesInto view directory entry).map (pluginsBelow fuel)).getD []

/-- The entries that a walk reads. -/
def entriesBelow : Nat → Path → Nat
  | 0, _ => 0
  | fuel + 1, directory =>
    match view.readDir directory with
    | .error _ => 0
    | .ok entries => (entries.map fun entry => 1 + ((goesInto view directory entry).map (entriesBelow fuel)).getD 0).sum

end

section

variable {view : PluginView} {extensions : List Bytes} {cancelled : Nat → Bool}

theorem polls_listEntry {below : Path → List Path → Prog Nat ScanCancelled (List Path)} {count : Path → Nat}
    {found : Path → List Path} (hbelow : ∀ directory plugins, Prog.Polls cancelled .scanCancelled (count directory)
      (below directory plugins) (plugins ++ found directory)) (directory : Path) (plugins : List Path)
    (entry : Except String OsStr) :
    Prog.Polls cancelled .scanCancelled (1 + ((goesInto view directory entry).map count).getD 0)
      (listEntry view extensions cancelled below directory plugins entry)
      (plugins ++ ((listsPlugin view extensions directory entry).toList ++ ((goesInto view directory entry).map found).getD [])) := by
  refine Prog.polls_poll.bind ?_
  have hnothing : Prog.Polls cancelled .scanCancelled 0 (pure plugins : Prog Nat ScanCancelled (List Path)) (plugins ++ ([] ++ [])) := by
    rw [List.append_nil, List.append_nil]
    exact Prog.polls_pure plugins
  cases entry with
  | error detail => exact hnothing
  | ok name =>
    unfold goesInto listsPlugin
    dsimp only
    split_ifs with hstaging
    · exact hnothing
    · unfold listNamed
      cases view.symlinkMetadata (directory ++ [name]) with
      | error detail => exact hnothing
      | ok metadata =>
        dsimp only
        by_cases hdir : metadata.isDir = true
        · rw [if_pos hdir, hdir, Bool.true_and, Bool.not_true, Bool.false_and, if_neg Bool.false_ne_true]
          split_ifs
          · exact hbelow (directory ++ [name]) plugins
          · exact hnothing
        · rw [if_neg hdir, Bool.eq_false_iff.mpr hdir, Bool.false_and, Bool.not_false, Bool.true_and, if_neg Bool.false_ne_true]
          split_ifs
          · exact Prog.polls_pure _
          · exact hnothing

/-- **A walk asks for every entry, and lists the plugins it finds.** -/
theorem polls_listPlugins (fuel : Nat) (directory : Path) (plugins : List Path) :
    Prog.Polls cancelled .scanCancelled (entriesBelow view fuel directory)
      (listPlugins view extensions cancelled fuel directory plugins) (plugins ++ pluginsBelow view extensions fuel directory) := by
  induction fuel generalizing directory plugins with
  | zero =>
    unfold pluginsBelow
    rw [List.append_nil]
    exact Prog.polls_pure plugins
  | succ fuel ih =>
    unfold listPlugins pluginsBelow entriesBelow
    cases view.readDir directory with
    | error detail =>
      dsimp only
      rw [List.append_nil]
      exact Prog.polls_pure plugins
    | ok entries =>
      dsimp only
      rw [List.flatMap_def, ← List.foldl_append_eq_append]
      exact Prog.Polls.foldEach (fun plugins entry _ => polls_listEntry ih directory plugins entry) plugins

/-! ## Which plugins these are -/

/-- A directory that a walk goes into from another. -/
def Enters (view : PluginView) (directory next : Path) : Prop :=
  ∃ entries name, view.readDir directory = .ok entries ∧ .ok name ∈ entries ∧ isStagingName name = false ∧
    next = directory ++ [name] ∧ realDirectory view.toFileView next

/-- A plugin that a directory holds. -/
def HoldsPlugin (view : PluginView) (extensions : List Bytes) (directory plugin : Path) : Prop :=
  ∃ entries name, view.readDir directory = .ok entries ∧ .ok name ∈ entries ∧ isStagingName name = false ∧
    plugin = directory ++ [name] ∧ (∃ metadata, view.symlinkMetadata plugin = .ok metadata ∧ metadata.isDir = false) ∧
    view.isFile plugin = true ∧ isPluginName name.lossy extensions = true

theorem goesInto_eq_some {directory next : Path} {entry : Except String OsStr} : goesInto view directory entry = some next ↔
    ∃ name, entry = .ok name ∧ isStagingName name = false ∧ next = directory ++ [name] ∧ realDirectory view.toFileView next := by
  cases entry with
  | error detail => exact iff_of_false nofun fun ⟨_, h, _⟩ => by cases h
  | ok name =>
    unfold goesInto
    dsimp only
    constructor
    · intro h
      split_ifs at h with hstaging
      split at h
      · cases h
      · next metadata hmetadata =>
        split_ifs at h with hreal
        cases h
        simp only [Bool.and_eq_true, Bool.not_eq_true'] at hreal
        exact ⟨name, rfl, Bool.eq_false_iff.mpr hstaging, rfl, metadata, hmetadata, hreal.1, hreal.2.1, hreal.2.2⟩
    · rintro ⟨_, hname, hstaging, rfl, metadata, hmetadata, hdir, hlink, hreparse⟩
      cases hname
      rw [if_neg (by rw [hstaging]; exact Bool.false_ne_true), hmetadata]
      dsimp only
      rw [hdir, hlink, hreparse]
      rfl

theorem listsPlugin_eq_some {directory plugin : Path} {entry : Except String OsStr} :
    listsPlugin view extensions directory entry = some plugin ↔ ∃ name, entry = .ok name ∧ isStagingName name = false ∧
      plugin = directory ++ [name] ∧ (∃ metadata, view.symlinkMetadata plugin = .ok metadata ∧ metadata.isDir = false) ∧
      view.isFile plugin = true ∧ isPluginName name.lossy extensions = true := by
  cases entry with
  | error detail => exact iff_of_false nofun fun ⟨_, h, _⟩ => by cases h
  | ok name =>
    unfold listsPlugin
    dsimp only
    constructor
    · intro h
      split_ifs at h with hstaging
      split at h
      · cases h
      · next metadata hmetadata =>
        split_ifs at h with hfile
        cases h
        simp only [Bool.and_eq_true, Bool.not_eq_true'] at hfile
        exact ⟨name, rfl, Bool.eq_false_iff.mpr hstaging, rfl, ⟨metadata, hmetadata, hfile.1⟩, hfile.2.1, hfile.2.2⟩
    · rintro ⟨_, hname, hstaging, rfl, ⟨metadata, hmetadata, hdir⟩, hfile, hplugin⟩
      cases hname
      rw [if_neg (by rw [hstaging]; exact Bool.false_ne_true), hmetadata]
      dsimp only
      rw [hdir, hfile, hplugin]
      rfl

/-- A plugin below the selected folder: a directory that the walk comes to holds it. -/
def PluginBelow (view : PluginView) (extensions : List Bytes) (selection plugin : Path) : Prop :=
  ∃ directory, Relation.ReflTransGen (Enters view) selection directory ∧ HoldsPlugin view extensions directory plugin

theorem mem_pluginsBelow_succ {fuel : Nat} {directory plugin : Path} :
    plugin ∈ pluginsBelow view extensions (fuel + 1) directory ↔ HoldsPlugin view extensions directory plugin ∨
      ∃ next, Enters view directory next ∧ plugin ∈ pluginsBelow view extensions fuel next := by
  rw [pluginsBelow]
  cases hread : view.readDir directory with
  | error detail =>
    refine iff_of_false List.not_mem_nil ?_
    rintro (⟨_, _, h, _⟩ | ⟨_, ⟨_, _, h, _⟩, _⟩)
    all_goals
      rw [hread] at h
      cases h
  | ok entries =>
    dsimp only
    rw [List.mem_flatMap]
    constructor
    · rintro ⟨entry, hentry, hmem⟩
      rw [List.mem_append, Option.mem_toList] at hmem
      cases hmem with
      | inl hlisted =>
        obtain ⟨name, rfl, hrest⟩ := listsPlugin_eq_some.mp hlisted
        exact .inl ⟨entries, name, hread, hentry, hrest⟩
      | inr hbelow =>
        cases hinto : goesInto view directory entry with
        | none =>
          rw [hinto] at hbelow
          cases hbelow
        | some next =>
          rw [hinto] at hbelow
          obtain ⟨name, rfl, hrest⟩ := goesInto_eq_some.mp hinto
          exact .inr ⟨next, ⟨entries, name, hread, hentry, hrest⟩, hbelow⟩
    · have hsame : ∀ listed, view.readDir directory = .ok listed → listed = entries := by
        intro listed h
        rw [hread] at h
        cases h
        rfl
      rintro (⟨listed, name, hlisted, hname, hrest⟩ | ⟨next, ⟨listed, name, hlisted, hname, hrest⟩, hbelow⟩)
      · obtain rfl := hsame listed hlisted
        refine ⟨.ok name, hname, List.mem_append_left _ ?_⟩
        rw [Option.mem_toList]
        exact listsPlugin_eq_some.mpr ⟨name, rfl, hrest⟩
      · obtain rfl := hsame listed hlisted
        refine ⟨.ok name, hname, List.mem_append_right _ ?_⟩
        rw [goesInto_eq_some.mpr ⟨name, rfl, hrest⟩]
        exact hbelow

/-- **The plugins that a walk finds** are those in the directories that it comes to. -/
theorem mem_pluginsBelow {fuel : Nat} {selection plugin : Path} (hfuel : view.depth selection < fuel) :
    plugin ∈ pluginsBelow view extensions fuel selection ↔ PluginBelow view extensions selection plugin := by
  induction fuel generalizing selection with
  | zero => exact absurd hfuel (Nat.not_lt_zero _)
  | succ fuel ih =>
    have hdeeper : ∀ {next}, Enters view selection next → view.depth next < fuel := by
      rintro _ ⟨entries, name, hread, hname, -, rfl, hreal⟩
      have := view.deeper selection entries name hread hname hreal
      omega
    rw [mem_pluginsBelow_succ]
    constructor
    · rintro (hholds | ⟨next, henters, hbelow⟩)
      · exact ⟨selection, .refl, hholds⟩
      · obtain ⟨directory, hwalk, hholds⟩ := (ih (hdeeper henters)).mp hbelow
        exact ⟨directory, .head henters hwalk, hholds⟩
    · rintro ⟨directory, hwalk, hholds⟩
      cases hwalk.cases_head with
      | inl heq => exact .inl (heq ▸ hholds)
      | inr hnext =>
        obtain ⟨next, henters, hwalk⟩ := hnext
        exact .inr ⟨next, henters, (ih (hdeeper henters)).mpr ⟨directory, hwalk, hholds⟩⟩

end

/-! ## What a scan comes to -/

section

variable (checks : OverflowChecks) (inflate : Inflate) (view : PluginView)

/-- What a plugin adds to what was found. -/
def addPlugin (found : List Text × List UnreadablePlugin) (path : Path) : List Text × List UnreadablePlugin :=
  match readPlugin checks inflate view path with
  | .ok headparts => (found.1 ++ headparts, found.2)
  | .error error => (found.1, found.2 ++ [⟨path, error⟩])

variable {checks inflate view}

theorem polls_scanPlugin {cancelled : Nat → Bool} (found : List Text × List UnreadablePlugin) (path : Path) :
    Prog.Polls cancelled .scanCancelled 1 (scanPlugin checks inflate view cancelled found path)
      (addPlugin checks inflate view found path) := by
  refine Prog.Polls.bind (l := 0) Prog.polls_poll ?_
  unfold addPlugin
  cases readPlugin checks inflate view path with
  | ok headparts => exact Prog.polls_pure _
  | error error => exact Prog.polls_pure _

theorem polls_scanPlugins {cancelled : Nat → Bool} (plugins : List Path) (found : List Text × List UnreadablePlugin) :
    Prog.Polls cancelled .scanCancelled plugins.length (Prog.foldEach (scanPlugin checks inflate view cancelled) found plugins)
      (plugins.foldl (addPlugin checks inflate view) found) := by
  have hfold : Prog.Polls cancelled .scanCancelled (plugins.map fun _ => 1).sum
      (Prog.foldEach (scanPlugin checks inflate view cancelled) found plugins)
      (plugins.foldl (addPlugin checks inflate view) found) :=
    Prog.Polls.foldEach (fun found path _ => polls_scanPlugin found path) found
  rwa [List.map_const', List.sum_replicate_nat, Nat.mul_one] at hfold

variable (checks inflate view) in
/-- What all plugins add. -/
theorem mem_addPlugins (plugins : List Path) (found : List Text × List UnreadablePlugin) :
    (∀ path, path ∈ (plugins.foldl (addPlugin checks inflate view) found).1 ↔ path ∈ found.1 ∨
      ∃ plugin ∈ plugins, ∃ headparts, readPlugin checks inflate view plugin = .ok headparts ∧ path ∈ headparts) ∧
    ∀ unreadable, unreadable ∈ (plugins.foldl (addPlugin checks inflate view) found).2 ↔ unreadable ∈ found.2 ∨
      unreadable.path ∈ plugins ∧ readPlugin checks inflate view unreadable.path = .error unreadable.error := by
  induction plugins using List.reverseRecOn with
  | nil => exact ⟨fun path => by simp, fun unreadable => by simp⟩
  | append_singleton plugins plugin ih =>
    rw [List.foldl_append, List.foldl_cons, List.foldl_nil]
    obtain ⟨hpaths, hunreadable⟩ := ih
    generalize plugins.foldl (addPlugin checks inflate view) found = before at hpaths hunreadable
    unfold addPlugin
    cases hread : readPlugin checks inflate view plugin with
    | ok headparts =>
      refine ⟨fun path => ?_, fun unreadable => ?_⟩
      · dsimp only
        rw [List.mem_append, hpaths]
        simp only [List.mem_append, List.mem_singleton]
        constructor
        · rintro ((h | ⟨q, hq, h⟩) | h)
          · exact .inl h
          · exact .inr ⟨q, .inl hq, h⟩
          · exact .inr ⟨plugin, .inr rfl, headparts, hread, h⟩
        · rintro (h | ⟨q, hq | rfl, listed, hlisted, h⟩)
          · exact .inl (.inl h)
          · exact .inl (.inr ⟨q, hq, listed, hlisted, h⟩)
          · rw [hread] at hlisted
            cases hlisted
            exact .inr h
      · dsimp only
        rw [hunreadable]
        simp only [List.mem_append, List.mem_singleton]
        refine or_congr_right ⟨fun h => ⟨.inl h.1, h.2⟩, fun h => ⟨h.1.resolve_right ?_, h.2⟩⟩
        intro heq
        rw [heq, hread] at h
        cases h.2
    | error error =>
      refine ⟨fun path => ?_, fun unreadable => ?_⟩
      · dsimp only
        rw [hpaths]
        simp only [List.mem_append, List.mem_singleton]
        refine or_congr_right ⟨?_, ?_⟩
        · rintro ⟨q, hq, h⟩
          exact ⟨q, .inl hq, h⟩
        · rintro ⟨q, hq, listed, hlisted, h⟩
          refine ⟨q, hq.resolve_right ?_, listed, hlisted, h⟩
          rintro rfl
          rw [hread] at hlisted
          cases hlisted
      · dsimp only
        rw [List.mem_append, hunreadable]
        simp only [List.mem_append, List.mem_singleton]
        constructor
        · rintro ((h | h) | rfl)
          · exact .inl h
          · exact .inr ⟨.inl h.1, h.2⟩
          · exact .inr ⟨.inr rfl, hread⟩
        · rintro (h | ⟨hq | hq, h⟩)
          · exact .inl (.inl h)
          · exact .inl (.inr ⟨hq, h⟩)
          · rw [hq, hread] at h
            cases h
            exact .inr (by rw [← hq])

end

end Cao.Mesh
