import Cao.Archive.Extract
import Cao.Pack.Data
import Cao.Pack.Names
import Cao.Run.Capacity

/-!
# Finalization plans

What Archive Finalization plans, keeps account of and works through (`run/finalization/mod.rs`,
`planning.rs`): its choices, its outputs, the account of its phase, and the seams its operations go through.

* `ArchiveFinalizationChoices`, `planMerge`: the choices, and the merge they ask the packer for;
* `FinalizationOutput`, `FinalizationPlan`: what planning freezes;
* `AttemptProgress`, `ArchiveFinalizationAccount`, `Finalization`: what an attempt and the phase keep;
* `FinalizationSeams`, `statEntry`, `statTarget`, `listNames`: the operations, over those of every attempt.
-/

namespace Cao.Finalize

open Pack

/-! ## Plans -/

/-- `ArchiveFinalizationChoices`. -/
structure ArchiveFinalizationChoices where
  compress : Bool
  deleteSources : Bool
  createDummyPlugins : Bool
  mergeIncompressible : Bool
  mergeTextures : Bool
  deriving DecidableEq, Repr

/-- The merge planning asks for: some games never merge Textures, whatever was asked. -/
def planMerge (choices : ArchiveFinalizationChoices) (rules : ArchiveNamingRules) : MergeSettings where
  incompressible := choices.mergeIncompressible
  textures := choices.mergeTextures && !rules.separateTextures

/-- `FinalizationOutput`. -/
structure FinalizationOutput where
  modRoot : Path
  archivePath : Path
  archive : PlannedArchive
  pluginPath : Option Path
  estimatedCapacityBytes : Nat
  loadingPluginPaths : List Path
  deriving DecidableEq

/-- `FinalizationPlan`. -/
structure FinalizationPlan where
  outputs : List FinalizationOutput
  roots : List Path
  rules : ArchiveNamingRules
  compress : Bool
  deleteSources : Bool
  createDummies : Bool
  dummyCapacityByRoot : List (Path × Nat)
  deriving DecidableEq

/-! ## What the phase keeps -/

/-- `ArchiveFinalizationFailure`. -/
inductive ArchiveFinalizationFailure
  | insufficientCapacity
  | writeFailed
  | commitFailed
  | pluginCreationFailed
  | pluginRemovalFailed
  | sourceCleanupFailed
  | unexpectedException
  deriving DecidableEq, Repr

/-- `ArchiveFinalizationAttempt`. -/
structure ArchiveFinalizationAttempt where
  archivePath : Path
  modRoot : Path
  outcome : AttemptOutcome ArchiveFinalizationFailure
  deriving DecidableEq, Repr

/-- `ArchiveFinalizationMutationKind`. -/
inductive ArchiveFinalizationMutationKind
  | emptyDirectoryPruning
  | pluginCreation
  | pluginRemoval
  deriving DecidableEq, Repr

/-- `ArchiveFinalizationMutation`: a fact stands for the directories pruned, or for one effect. -/
structure ArchiveFinalizationMutation where
  modRoot : Path
  path : Path
  kind : ArchiveFinalizationMutationKind
  mutation : MutationState
  count : Nat
  counted : 0 < count
  deriving DecidableEq, Repr

/-- `ArchiveFinalizationAccount`. -/
structure ArchiveFinalizationAccount where
  failure : Option (OperationFailure ArchiveFinalizationFailure)
  cancelled : Bool
  safeToContinue : Bool
  mutations : List ArchiveFinalizationMutation
  deriving DecidableEq, Repr

/-- `ArchiveFinalizationAccount::default()`. -/
def ArchiveFinalizationAccount.default : ArchiveFinalizationAccount := ⟨none, false, true, []⟩

/-- `AttemptProgress`. -/
structure AttemptProgress where
  boundary : ArchiveFinalizationFailure
  removedSources : Nat
  mutation : MutationState
  claimedSafeToContinue : Bool
  deriving DecidableEq, Repr

/-- The progress of an attempt that starts. -/
def AttemptProgress.start : AttemptProgress := ⟨.writeFailed, 0, .none, true⟩

/-- What the phase keeps: the progress of its attempt, its account, and the attempts it recorded. -/
structure Finalization where
  progress : AttemptProgress
  account : ArchiveFinalizationAccount
  attempts : List ArchiveFinalizationAttempt
  deriving DecidableEq, Repr

/-! ## Seams -/

/-- What the calls of the phase come to, beside those of every attempt. -/
structure FinalizationSeams extends Seams where
  /-- What a link leads to, if it leads anywhere. -/
  follow : Nat → Path → Option (Node Leaf)
  /-- Whether a directory has the hidden attribute. -/
  hidden : Nat → Path → Bool
  cancelled : Nat → Bool
  /-- The shortage of a Capacity Check before creation. -/
  check : Nat → List (Path × Nat) → Option CapacityShortage
  /-- Run Evidence takes a fact, or refuses it. -/
  evidence : Nat → Except String Unit

variable {K : Type} [DecidableEq K] {V : Volume K} {P ε : Type}

/-- `cancelled`. -/
def isCancelled (seams : FinalizationSeams) : Prog (Site V P) ε Bool := do
  let n ← nextCall
  return seams.cancelled n

/-- `symlink_metadata`, of an entry that may be missing. -/
def statEntry (seams : Seams) (path : Path) : Prog (Site V P) (Thrown String) (Option (Node Leaf)) :=
  inspectTree seams fun disk => .ok ((disk.find path).map Prod.snd)

/-- `metadata`, which follows links, of an entry that may be missing. -/
def statTarget (seams : FinalizationSeams) (path : Path) : Prog (Site V P) (Thrown String) (Option (Node Leaf)) := do
  let found ← statEntry seams.toSeams path
  match found with
  | some (.leaf .link) => do
    let n ← nextCall
    return seams.follow n path
  | found => return found

/-- `Metadata::is_file`. -/
def isFileNode : Node Leaf → Bool
  | .leaf (.file ..) => true
  | _ => false

/-- `Metadata::len`. -/
def nodeLength : Node Leaf → Nat
  | .leaf (.file data _) => data.length
  | _ => 0

/-- `read_dir`: the names in a directory. -/
def readDirectory (path : Path) (disk : Disk V) : Except String (List OsStr) :=
  match disk.find path with
  | some (q, .dir) => .ok ((disk.children q).map Prod.fst)
  | _ => .error notFoundText

/-! ## Names in a directory -/

/-- `ArchiveError::to_string`, of the errors that name no system error. -/
def archiveErrorText : ArchiveError → String
  | .assetTooLarge path size cap => "`" ++ displayPath path ++ "` is " ++ toString size ++
      " bytes, too large for an Archive within its game's " ++ toString cap ++ "-byte Archive Size Cap"
  | .outsideRoot path root => "`" ++ displayPath path ++ "` is not inside `" ++ displayPath root ++ "`"
  | .nonUnicodeName path => "`" ++ displayPath path ++ "` is not a valid Unicode name"
  | .tes4 path => "`" ++ displayPath path ++ "`"
  | .fo4 path => "`" ++ displayPath path ++ "`"
  | .archiveTooLarge path => "`" ++ displayPath path ++
      "` would be too large for a BSA, which cannot exceed 4 GiB or hold a file of 1 GiB or more"
  | .archiveOverSizeCap path size cap => "`" ++ displayPath path ++ "` would be " ++ toString size ++
      " bytes, past the " ++ toString cap ++ "-byte limit its game can load"

/-- The `Io` error of a path. -/
def accessing {α : Type} (path : Path) (x : Prog (Site V P) (Thrown String) α) : Prog (Site V P) (Thrown String) α :=
  x.mapError (Thrown.map fun detail => "cannot access `" ++ displayPath path ++ "`: " ++ detail)

/-- One entry of `list`. -/
def listName (seams : FinalizationSeams) (settings : Settings) (dir : Path) (kind : NameKind)
    (names : List ArchiveName) (entry : OsStr) : Prog (Site V P) (Thrown String) (List ArchiveName) := do
  accessing dir (call seams.native)
  let target ← result (statTarget seams (dir ++ [entry]))
  if target matches .ok (some .dir) then return names
  else if entry.toStr = none then failWith (archiveErrorText (.nonUnicodeName (dir ++ [entry])))
  else return names ++ (FilePath.make (dir ++ [entry]) settings kind).toList

/-- `list_plugins` and `list_archives`. -/
def listNames (seams : FinalizationSeams) (settings : Settings) (dir : Path) (kind : NameKind) :
    Prog (Site V P) (Thrown String) (List ArchiveName) := do
  let entries ← accessing dir (inspectTree seams.toSeams (readDirectory dir))
  Prog.foldEach (listName seams settings dir kind) [] entries

end Cao.Finalize
