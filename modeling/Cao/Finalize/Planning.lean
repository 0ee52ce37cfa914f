import Cao.Finalize.Plugins
import Mathlib.Data.List.Sort

/-!
# Planning

`plan_finalization` (`run/finalization/planning.rs`): every Mod Root's sources, partition, output names and
capacity, frozen before anything is changed.

* `collectSources`: the files that may be packed;
* `chooseName`, `outputCandidates`: the names an output may get, and the first that is available;
* `estimatePackedCapacity`, `planArchive`, `planRoot`, `planFinalization`: the plan.
-/

namespace Cao.Finalize

open Pack

/-- `PlanningStop`. -/
inductive PlanningStop
  | cancelled
  | failed (detail : String)
  deriving DecidableEq, Repr

/-- `NAME_COUNTERS`. -/
def nameCounters : Nat := 255

/-- `CAPACITY_ALLOWANCE`. -/
def capacityAllowance : Nat := 65536

/-- What the phase is given: the packer's rules and the run's choices. -/
structure FinalizationRequest where
  settings : Settings
  checks : OverflowChecks
  choices : ArchiveFinalizationChoices
  /-- `str::to_lowercase`. -/
  lowercase : Text → Text
  /-- The Packing Exclusions, lowercase with `/` separators. -/
  filesToNotPack : List Text

namespace FinalizationRequest

/-- The packer's naming rules. -/
def rules (request : FinalizationRequest) : ArchiveNamingRules := GameArchivePacker.rules request.settings

end FinalizationRequest

variable {K : Type} [DecidableEq K] {V : Volume K} {P ε α : Type}

/-- Cancellation is polled between inputs. -/
def checkCancelled (seams : FinalizationSeams) : Prog (Site V P) (Thrown PlanningStop) Unit := do
  let cancelled ← isCancelled seams
  if cancelled then failWith .cancelled else return ()

/-- A failure of planning. -/
def orFailed (x : Prog (Site V P) (Thrown String) α) : Prog (Site V P) (Thrown PlanningStop) α :=
  x.mapError (Thrown.map .failed)

/-! ## Sources -/

/-- `is_packing_excluded`. -/
def isPackingExcluded (request : FinalizationRequest) (relative : Path) : Bool :=
  let text := request.lowercase (gamePathText relative)
  request.filesToNotPack.any fun rule => rule ≠ [] && decide (rule <:+: text)

/-- A file offered for packing, its size as it was measured. -/
def offered (path : Path) (size : Nat) : Option PackSource :=
  if h : size < u64Size ∧ nameBytes path < stringLimit then some ⟨path, size, h.1, h.2⟩ else none

/-- The failure of an inspected input. -/
def inspectingInput (path : Path) (x : Prog (Site V P) (Thrown String) α) : Prog (Site V P) (Thrown PlanningStop) α :=
  x.mapError (Thrown.map fun detail =>
    .failed ("Cannot inspect finalization input `" ++ displayPath path ++ "`: " ++ detail))

/-- What a walk holds: the files collected, and the directories still to read, the last one first. -/
structure Collected where
  sources : List PackSource
  pending : List Path
  deriving DecidableEq

/-- One entry of a directory. -/
def collectEntry (seams : FinalizationSeams) (request : FinalizationRequest) (root directory : Path)
    (collected : Collected) (entry : OsStr) : Prog (Site V P) (Thrown PlanningStop) Collected := do
  checkCancelled seams
  inspectingInput directory (call seams.native)
  let path := directory ++ [entry]
  let relative := (relativeTo root path).getD path
  let node ← inspectingInput path (inspectTree seams.toSeams (entryAt path))
  if hasStagingComponent relative then return collected
  else
    match node with
    | .leaf .link => return collected
    | .leaf .other => return collected
    | .dir => return { collected with pending := path :: collected.pending }
    | .leaf (.file data _) =>
      if relative.length < 2 || isPackingExcluded request relative then return collected
      else
        match offered path data.length with
        | some source => return { collected with sources := collected.sources ++ [source] }
        | none => failWith (.failed ("Cannot inspect finalization input `" ++ displayPath path ++ "`"))

/-- One directory of a walk. -/
def collectDirectory (seams : FinalizationSeams) (request : FinalizationRequest) (root directory : Path)
    (collected : Collected) : Prog (Site V P) (Thrown PlanningStop) Collected := do
  let entries ← inspectingInput directory (inspectTree seams.toSeams (readDirectory directory))
  Prog.foldEach (collectEntry seams request root directory) collected entries

/-- The loop of `collect_sources`. Every directory read is another entry of the tree, which bounds it. -/
def collectFrom (seams : FinalizationSeams) (request : FinalizationRequest) (root : Path) :
    Nat → Collected → Prog (Site V P) (Thrown PlanningStop) (List PackSource)
  | 0, _ => Prog.crash
  | fuel + 1, ⟨sources, pending⟩ =>
    match pending with
    | [] => return sources
    | directory :: pending => do
      let collected ← collectDirectory seams request root directory ⟨sources, pending⟩
      collectFrom seams request root fuel collected

/-- `collect_sources`. -/
def collectSources (seams : FinalizationSeams) (request : FinalizationRequest) (root : Path) :
    Prog (Site V P) (Thrown PlanningStop) (List PackSource) := do
  let s ← Prog.get
  collectFrom seams request root (s.disk.entries.length + 2) ⟨[], [root]⟩

/-! ## Output names -/

/-- The names an output may get: after each plugin, then numbered after the first. -/
def outputCandidates (rules : ArchiveNamingRules) (kind : ArchiveType) (plugins : List ArchiveName) : List ArchiveName :=
  plugins.map (outputName rules kind) ++
    match plugins with
    | [] => []
    | first :: _ => (List.range nameCounters).map fun counter =>
      { outputName rules kind first with counter := some counter }

/-- Whether an output may get a name: nothing stands there, and it is not reserved. -/
def available (seams : FinalizationSeams) (reserved : List Path) (candidate : ArchiveName) :
    Prog (Site V P) (Thrown PlanningStop) Bool := do
  let path := candidate.fullPath
  let found ← (statEntry seams.toSeams path).mapError (Thrown.map fun detail =>
    .failed ("Cannot plan output Archive `" ++ displayPath path ++ "`: " ++ detail))
  return found.isNone && !reserved.contains path

/-- The first name that is available. -/
def firstAvailable (seams : FinalizationSeams) (reserved : List Path) :
    List ArchiveName → Prog (Site V P) (Thrown PlanningStop) (Option ArchiveName)
  | [] => return none
  | candidate :: candidates => do
    checkCancelled seams
    let free ← available seams reserved candidate
    if free then return some candidate else firstAvailable seams reserved candidates

/-- What plugin names are sorted by, in one directory: their text byte by byte, and no counter first. -/
def pluginKey (plugin : ArchiveName) : List (List Nat) :=
  [strKey plugin.name, strKey plugin.suffix, strKey plugin.ext, plugin.counter.toList]

/-- `plugins.sort()`. -/
def sortPlugins (plugins : List ArchiveName) : List ArchiveName :=
  plugins.insertionSort fun a b => pluginKey a ≤ pluginKey b

/-- A plugin planning keeps: any but a proven dummy. -/
def keepPlugin (seams : FinalizationSeams) (rules : ArchiveNamingRules) (plugins : List ArchiveName)
    (plugin : ArchiveName) : Prog (Site V P) (Thrown PlanningStop) (List ArchiveName) := do
  checkCancelled seams
  let dummy ← hasExactDummyBytes seams plugin.fullPath rules.dummyPlugin
  return if dummy then plugins else plugins ++ [plugin]

/-- The plugins outputs are named after: those of the Mod Root, or one with its name. -/
def namingPlugins (seams : FinalizationSeams) (request : FinalizationRequest) (root : Path) :
    Prog (Site V P) (Thrown PlanningStop) (List ArchiveName) := do
  let listed ← orFailed (listNames seams request.settings root .plugin)
  let plugins ← Prog.foldEach (keepPlugin seams request.rules) [] listed
  if plugins ≠ [] then return sortPlugins plugins
  else
    match root.getLast?.bind OsStr.toStr with
    | some name => return [⟨root, name, [], ".esp".toList, none⟩]
    | none => failWith (.failed ("The Mod Root name of `" ++ displayPath root ++ "` is not valid Unicode."))

/-! ## Capacity -/

/-- What one packed source adds to an estimate. -/
def estimateSource (seams : FinalizationSeams) (check : Prog (Site V P) (Thrown PlanningStop) Unit) (root : Path)
    (estimate : Nat) (source : PackSource) : Prog (Site V P) (Thrown PlanningStop) Nat := do
  check
  let sizing := "Cannot size packed source `" ++ displayPath source.path ++ "`: "
  let found ← (statTarget seams source.path).mapError (Thrown.map fun detail => .failed (sizing ++ detail))
  match found with
  | none => failWith (.failed (sizing ++ notFoundText))
  | some node =>
    let name := nameBytes ((relativeTo root source.path).getD source.path)
    let overhead := saturatingAdd capacityAllowance (saturatingMul name 3)
    return saturatingAdd estimate (saturatingAdd (saturatingMul (nodeLength node) 2) overhead)

/-- `estimate_packed_capacity`. -/
def estimatePackedCapacity (seams : FinalizationSeams) (output : FinalizationOutput) (dummyLength : Nat)
    (check : Prog (Site V P) (Thrown PlanningStop) Unit) : Prog (Site V P) (Thrown PlanningStop) Nat :=
  let start := if output.loadingPluginPaths ≠ [] then saturatingAdd capacityAllowance dummyLength else capacityAllowance
  Prog.foldEach (estimateSource seams check output.modRoot) start output.archive.files

/-! ## The plan -/

/-- A plan in the making, and the output names it reserved. -/
structure Planning where
  plan : FinalizationPlan
  reserved : List Path
  deriving DecidableEq

/-- The names that load an output, and its fallback where none does yet. -/
def planPlugins (seams : FinalizationSeams) (plan : FinalizationPlan) (selected : ArchiveName) :
    Prog (Site V P) (Thrown PlanningStop) (List Path × Option Path) :=
  if plan.createDummies then do
    checkCancelled seams
    let names := loadingPluginNames selected plan.rules
    let found ← orFailed (findLoadingPlugin seams .present none names)
    return (names, if found.isNone then names.getLast? else none)
  else return ([], none)

/-- One planned Archive gets its name, its plugins and its estimate. -/
def planArchive (seams : FinalizationSeams) (root : Path) (plugins : List ArchiveName) (planning : Planning)
    (archive : PlannedArchive) : Prog (Site V P) (Thrown PlanningStop) Planning := do
  checkCancelled seams
  let rules := planning.plan.rules
  let selected ← firstAvailable seams planning.reserved (outputCandidates rules archive.kind plugins)
  match selected with
  | none => failWith (.failed "No available output Archive name.")
  | some selected => do
    let archivePath := selected.fullPath
    let (loadingPluginPaths, pluginPath) ← planPlugins seams planning.plan selected
    let output : FinalizationOutput :=
      { modRoot := root, archivePath, archive, pluginPath, estimatedCapacityBytes := 0, loadingPluginPaths }
    let estimate ← estimatePackedCapacity seams output rules.dummyPlugin.length (checkCancelled seams)
    let output := { output with estimatedCapacityBytes := estimate }
    return { plan := { planning.plan with outputs := planning.plan.outputs ++ [output] },
             reserved := archivePath :: planning.reserved }

/-- The plugin allowance of a Mod Root: one for each existing Archive. -/
def dummyCapacity (seams : FinalizationSeams) (request : FinalizationRequest) (root : Path) :
    Prog (Site V P) (Thrown PlanningStop) Nat :=
  if request.choices.createDummyPlugins then do
    checkCancelled seams
    let existing ← orFailed (listNames seams request.settings root .archive)
    return saturatingMul existing.length request.rules.dummyPlugin.length
  else return 0

/-- The packer's partition of a Mod Root's sources. -/
def partitionSources (request : FinalizationRequest) (root : Path) (sources : List PackSource) :
    Prog (Site V P) (Thrown PlanningStop) (List PlannedArchive) :=
  match GameArchivePacker.partition request.checks request.settings root sources
      (planMerge request.choices request.rules) with
  | none => Prog.fail (.panic "attempt to add with overflow")
  | some (.error e) => failWith (.failed (archiveErrorText e))
  | some (.ok archives) => return archives

/-- One Mod Root. -/
def planRoot (seams : FinalizationSeams) (request : FinalizationRequest) (planning : Planning) (inputRoot : Path) :
    Prog (Site V P) (Thrown PlanningStop) Planning := do
  checkCancelled seams
  let root ← orFailed (inspectTree seams.toSeams fun disk => (treeView disk).canonical inputRoot)
  let capacity ← dummyCapacity seams request root
  let plan := { planning.plan with
    roots := planning.plan.roots ++ [root]
    dummyCapacityByRoot := (root, capacity) :: planning.plan.dummyCapacityByRoot }
  let plugins ← namingPlugins seams request root
  let sources ← collectSources seams request root
  checkCancelled seams
  let archives ← partitionSources request root sources
  Prog.foldEach (planArchive seams root plugins) { planning with plan } archives

/-- The plan before any Mod Root. -/
def emptyPlan (request : FinalizationRequest) : FinalizationPlan where
  outputs := []
  roots := []
  rules := request.rules
  compress := request.choices.compress
  deleteSources := request.choices.deleteSources
  createDummies := request.choices.createDummyPlugins
  dummyCapacityByRoot := []

/-- `plan_finalization`. -/
def planFinalization (seams : FinalizationSeams) (request : FinalizationRequest) (roots : List Path) :
    Prog (Site V P) (Thrown PlanningStop) FinalizationPlan := do
  let planning ← Prog.foldEach (planRoot seams request) ⟨emptyPlan request, []⟩ roots
  checkCancelled seams
  return planning.plan

end Cao.Finalize
