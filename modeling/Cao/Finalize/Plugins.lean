import Cao.Finalize.Plan

/-!
# Loading plugins and dummy plugins

`run/finalization/plugins.rs`: what loads an Archive, the dummy plugin published where nothing does, and the
maintenance of the plugins of existing Archives.

* `entryExists`, `findLoadingPlugin`, `hasExactDummyBytes`: what stands at a plugin's name;
* `publishDummyPlugin`, `ensureOutputLoadingPlugin`: the plugin of a new Archive;
* `createMissingDummyPlugins`, `removeExactDummyPlugin`, `maintainExistingLoadingPlugins`: those of the others.
-/

namespace Cao.Finalize

open Pack

variable {K : Type} [DecidableEq K] {V : Volume K} {P ε : Type}

/-! ## What stands at a plugin's name -/

/-- `LoadingPluginStrength`. -/
inductive LoadingPluginStrength
  | present
  | durableForSourceDeletion
  deriving DecidableEq, Repr

/-- The error of an inspection. -/
def inspecting {α : Type} (path : Path) (x : Prog (Site V P) (Thrown String) α) : Prog (Site V P) (Thrown String) α :=
  x.mapError (Thrown.map fun detail => "Cannot inspect `" ++ displayPath path ++ "`: " ++ detail)

/-- `entry_exists`. -/
def entryExists (seams : FinalizationSeams) (path : Path) : Prog (Site V P) (Thrown String) Bool := do
  let found ← inspecting path (statEntry seams.toSeams path)
  return found.isSome

/-- An ordinary file that is not empty. -/
def isDurablePlugin (node : Node Leaf) : Bool := isFileNode node && nodeLength node ≠ 0

/-- `is_loading_plugin`. -/
def isLoadingPlugin (seams : FinalizationSeams) (path : Path) :
    LoadingPluginStrength → Prog (Site V P) (Thrown String) Bool
  | .durableForSourceDeletion => do
    let found ← inspecting path (statEntry seams.toSeams path)
    return found.any isDurablePlugin
  | .present => do
    let found ← inspecting path (statTarget seams path)
    return found.any isFileNode

/-- `find_loading_plugin`. -/
def findLoadingPlugin (seams : FinalizationSeams) (strength : LoadingPluginStrength) (excluded : Option Path) :
    List Path → Prog (Site V P) (Thrown String) (Option Path)
  | [] => return none
  | name :: names =>
    if some name = excluded then findLoadingPlugin seams strength excluded names
    else do
      let loads ← isLoadingPlugin seams name strength
      if loads then return some name else findLoadingPlugin seams strength excluded names

/-- The bytes of the file at a path, read up to one more than asked for. -/
def readUpTo (path : Path) (count : Nat) (disk : Disk V) : Except String Bytes :=
  match disk.find path with
  | some (_, .leaf (.file data _)) => .ok (data.take (count + 1))
  | _ => .error notFoundText

/-- `has_exact_dummy_bytes`: any failure is a no. -/
def hasExactDummyBytes (seams : FinalizationSeams) (path : Path) (bytes : Bytes) :
    Prog (Site V P) (Thrown ε) Bool := do
  let metadata ← result (statEntry seams.toSeams path)
  match metadata with
  | .ok (some (.leaf (.file data _))) =>
    if data.length ≠ bytes.length then return false
    else do
      let opened ← result (call seams.native)
      match opened with
      | .error _ => return false
      | .ok () => do
        let contents ← result (inspectTree seams.toSeams (readUpTo path bytes.length))
        return match contents with
          | .ok contents => contents = bytes
          | .error (_ : String) => false
  | .ok _ => return false
  | .error (_ : String) => return false

/-! ## The plugin of a new Archive -/

/-- A mutation joins the account. -/
def recordMutation (mutation : ArchiveFinalizationMutation) : Prog (Site V Finalization) ε Unit :=
  modifyProgress fun phase =>
    { phase with account := { phase.account with mutations := phase.account.mutations ++ [mutation] } }

/-- `DummyPluginPublication`. -/
structure DummyPluginPublication where
  completed : Bool
  safeToContinue : Bool
  detail : String
  deriving DecidableEq, Repr

/-- The canonical bytes go into a staged file, opened exclusively. -/
def stageDummyBytes (seams : FinalizationSeams) (receipt : Nat) (bytes : Bytes) :
    Prog (Site V Finalization) (Thrown String) Unit :=
  Prog.mapError (Thrown.map fun (_ : String) => "Could not stage the loading plugin.") do
    call seams.native
    call seams.native
    Prog.modify fun s => { s with staged := s.staged.set receipt bytes }

/-- `publish_dummy_plugin`: a committed destination joins the account whatever follows. -/
def publishDummyPlugin (seams : FinalizationSeams) (modRoot destination : Path) (bytes : Bytes) :
    Prog (Site V Finalization) (Thrown String) DummyPluginPublication := do
  let receipt ← stageForPublication seams.toSeams
  stageDummyBytes seams receipt bytes
  let published ← publishReceipt seams.toSeams receipt destination
  if published.mutation = .committed then recordMutation ⟨modRoot, destination, .pluginCreation, .committed, 1, Nat.one_pos⟩
  let completed : Bool := published.state = .publishedAndReleased
  let detail :=
    if completed then ""
    else if published.errorDetail = "" then "Loading plugin publication did not complete."
    else published.errorDetail
  return ⟨completed, published.safeToContinue, detail⟩

/-- The first recognized name that nothing occupies. -/
def firstFreeName (seams : FinalizationSeams) : List Path → Prog (Site V P) (Thrown String) (Option Path)
  | [] => return none
  | name :: names => do
    let occupied ← entryExists seams name
    if occupied then firstFreeName seams names else return some name

/-- Where the fallback dummy plugin goes: a link or empty file at its own name is left alone when sources will be
deleted. -/
def dummyDestination (seams : FinalizationSeams) (strength : LoadingPluginStrength) (names : List Path) (plugin : Path) :
    Prog (Site V P) (Thrown String) Path :=
  if strength = .durableForSourceDeletion then do
    let occupied ← entryExists seams plugin
    if !occupied then return plugin
    else do
      let durable ← isLoadingPlugin seams plugin strength
      if durable then return plugin
      else do
        let free ← firstFreeName seams names
        match free with
        | some name => return name
        | none => failWith "No ordinary loading plugin name is available."
  else return plugin

/-- What stands at the fallback's own name, taken as it is. -/
def occupiedPlugin (seams : FinalizationSeams) (output : FinalizationOutput) (plugin : Path) (bytes : Bytes) :
    Prog (Site V P) (Thrown String) Path := do
  let exact ← if output.pluginPath.isSome then hasExactDummyBytes seams plugin bytes else pure true
  if !exact then failWith "The planned loading plugin is occupied."
  else do
    let metadata ← result (statTarget seams plugin)
    match metadata with
    | .ok (some node) =>
      if isFileNode node then return plugin else failWith "The planned loading plugin is not a file."
    | .ok none => failWith "The planned loading plugin is not a file."
    | .error (_ : String) => failWith "The planned loading plugin is not a file."

/-- `ensure_output_loading_plugin`. -/
def ensureOutputLoadingPlugin (seams : FinalizationSeams) (plan : FinalizationPlan) (output : FinalizationOutput) :
    Prog (Site V Finalization) (Thrown String) Path :=
  let bytes := plan.rules.dummyPlugin
  let names := output.loadingPluginPaths
  match names.getLast? with
  | none => Prog.fail (.panic "an output that maintains Loading Plugins has recognized names")
  | some plugin => do
    let strength : LoadingPluginStrength := if plan.deleteSources then .durableForSourceDeletion else .present
    let elsewhere ← findLoadingPlugin seams strength (some plugin) names
    match elsewhere with
    | some loaded => return loaded
    | none => do
      let destination ← dummyDestination seams strength names plugin
      let occupied ← if destination = plugin then entryExists seams plugin else pure false
      if occupied then occupiedPlugin seams output plugin bytes
      else do
        let published ← publishDummyPlugin seams output.modRoot destination bytes
        if published.completed then return destination else failWith published.detail

/-! ## The plugins of existing Archives -/

/-- The phase-level account changes. -/
def modifyAccount (f : ArchiveFinalizationAccount → ArchiveFinalizationAccount) : Prog (Site V Finalization) ε Unit :=
  modifyProgress fun phase => { phase with account := f phase.account }

/-- `ArchiveFinalizationAccount::fail`. -/
def failAccount (category : ArchiveFinalizationFailure) (detail : String) : Prog (Site V Finalization) ε Unit :=
  modifyAccount fun account => { account with failure := some (.new category detail) }

/-- Cancellation is looked for once more, as a failure is recorded. -/
def noteCancellation (seams : FinalizationSeams) : Prog (Site V Finalization) ε Unit := do
  let cancelled ← isCancelled seams
  modifyAccount fun account => { account with cancelled }

/-- The plugin of one existing Archive, if it needs one. -/
def createMissing (seams : FinalizationSeams) (plan : FinalizationPlan) (root : Path) (names : List Path)
    (destination : Path) : Prog (Site V Finalization) (Thrown String) (Option DummyPluginPublication) := do
  let found ← findLoadingPlugin seams .present none names
  if found.isSome then return none
  else do
    let occupied ← entryExists seams destination
    if occupied then failWith "The loading plugin name is occupied."
    else do
      let published ← publishDummyPlugin seams root destination plan.rules.dummyPlugin
      return some published

/-- The loop of `create_missing_dummy_plugins`. -/
def createMissingFor (seams : FinalizationSeams) (plan : FinalizationPlan) (root : Path) :
    List ArchiveName → Prog (Site V Finalization) (Thrown String) Bool
  | [] => return true
  | archive :: archives => do
    let cancelled ← isCancelled seams
    if cancelled then
      modifyAccount fun account => { account with cancelled := true }
      return false
    else
      let names := loadingPluginNames archive plan.rules
      match names.getLast? with
      | none => Prog.fail (.panic "every game has a plugin extension")
      | some destination => do
        let created ← result (createMissing seams plan root names destination)
        match created with
        | .ok none => createMissingFor seams plan root archives
        | .ok (some published) =>
          if published.completed then createMissingFor seams plan root archives
          else do
            failAccount .pluginCreationFailed published.detail
            modifyAccount fun account => { account with safeToContinue := published.safeToContinue }
            noteCancellation seams
            return false
        | .error detail => do
          failAccount .pluginCreationFailed detail
          noteCancellation seams
          return false

/-- `create_missing_dummy_plugins`. -/
def createMissingDummyPlugins (seams : FinalizationSeams) (settings : Settings) (plan : FinalizationPlan) (root : Path) :
    Prog (Site V Finalization) (Thrown String) Bool := do
  let archives ← listNames seams settings root .archive
  createMissingFor seams plan root archives

/-- `DummyPluginRemoval`. -/
inductive DummyPluginRemoval
  | notDummy
  | removed
  deriving DecidableEq, Repr

/-- `FileFacts::link_count`. -/
def linkCount (facts : FileFacts) : Nat :=
  match facts.node with
  | .leaf (.file _ links) => links
  | _ => 0

/-- The failure of an action on a dummy plugin. -/
def actingOn {α : Type} (action : String) (path : Path) (x : Prog (Site V P) (Thrown String) α) :
    Prog (Site V P) (Thrown String) α :=
  x.mapError (Thrown.map fun detail => action ++ " `" ++ displayPath path ++ "`: " ++ detail)

/-- `FileFacts::of`, of an open dummy plugin. -/
def dummyFacts (seams : FinalizationSeams) (path : Path) : Prog (Site V P) (Thrown String) FileFacts := do
  let n ← nextCall
  let node ← actingOn "Could not inspect Dummy Plugin" path (inspectTree seams.toSeams (entryAt path))
  return ⟨node, seams.stamp n⟩

/-- The open plugin's bytes, the number asked for at most. -/
def readPinned (path : Path) (count : Nat) (disk : Disk V) : Except String Bytes :=
  match disk.find path with
  | some (_, .leaf (.file data _)) => .ok (data.take count)
  | _ => .error notFoundText

/-- `remove_exact_dummy_plugin`. -/
def removeExactDummyPlugin (seams : FinalizationSeams) (plugin root : Path) (bytes : Bytes) :
    Prog (Site V P) (Thrown String) DummyPluginRemoval := do
  let _ ← (pinDirectories seams.toSeams plugin root []).mapError (Thrown.map SourcePinError.text)
  actingOn "Could not pin Dummy Plugin for removal" plugin do
    let _ ← inspectTree seams.toSeams (entryAt plugin)
  let original ← dummyFacts seams plugin
  if !original.isOrdinaryFile then
    failWith ("A Dummy Plugin is no longer an ordinary file: " ++ displayPath plugin)
  else if linkCount original ≠ 1 then failWith "A linked Dummy Plugin cannot be removed."
  else if original.size ≠ bytes.length then return .notDummy
  else do
    let contents ← actingOn "Could not read pinned Dummy Plugin" plugin
      (inspectTree seams.toSeams (readPinned plugin bytes.length))
    if contents.length ≠ bytes.length then failWith "A Dummy Plugin changed during verification."
    else if contents ≠ bytes then return .notDummy
    else do
      let verified ← dummyFacts seams plugin
      if linkCount verified ≠ 1 || !verified.unchangedSince original then
        failWith "A Dummy Plugin changed during verification."
      else do
        actingOn "Could not remove pinned Dummy Plugin" plugin
          (changeTree seams.toSeams [.removed plugin] (SourceFilePin.deleteFile plugin))
        return .removed

/-- A failed removal is recorded. -/
def failRemoval (seams : FinalizationSeams) (detail : String) : Prog (Site V Finalization) ε Bool := do
  failAccount .pluginRemovalFailed detail
  noteCancellation seams
  return false

/-- The loop of `remove_dummy_plugins`. -/
def removeDummiesOf (seams : FinalizationSeams) (plan : FinalizationPlan) (root : Path) :
    List ArchiveName → Prog (Site V Finalization) (Thrown ε) Bool
  | [] => return true
  | plugin :: plugins => do
    let cancelled ← isCancelled seams
    if cancelled then
      modifyAccount fun account => { account with cancelled := true }
      return false
    else do
      let removal ← result (removeExactDummyPlugin seams plugin.fullPath root plan.rules.dummyPlugin)
      match removal with
      | .ok .notDummy => removeDummiesOf seams plan root plugins
      | .ok .removed => do
        recordMutation ⟨root, plugin.fullPath, .pluginRemoval, .committed, 1, Nat.one_pos⟩
        removeDummiesOf seams plan root plugins
      | .error detail => failRemoval seams detail

/-- `remove_dummy_plugins`. -/
def removeDummyPlugins (seams : FinalizationSeams) (settings : Settings) (plan : FinalizationPlan) (root : Path) :
    Prog (Site V Finalization) (Thrown ε) Bool := do
  let plugins ← result (listNames seams settings root .plugin)
  match plugins with
  | .ok plugins => removeDummiesOf seams plan root plugins
  | .error detail => failRemoval seams detail

/-- `maintain_existing_loading_plugins`. -/
def maintainExistingLoadingPlugins (seams : FinalizationSeams) (settings : Settings) (plan : FinalizationPlan)
    (root : Path) : Prog (Site V Finalization) (Thrown String) Bool :=
  if plan.createDummies then createMissingDummyPlugins seams settings plan root
  else removeDummyPlugins seams settings plan root

end Cao.Finalize
