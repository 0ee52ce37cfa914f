import Cao.Archive.EntryPath
import Cao.Staging.Scope
import Cao.Word

/-!
# Archive discovery's preflight

`preflight` of `run/archives.rs`: every selected Archive's manifest is read and checked, the winner of
each game path frozen, the collisions calculated and the capacity checked, before any extraction.

* `FileView`, `Answer`: the file system it reads and the seam that lists an Archive;
* `matchingChild`, `validateExistingDestination`: what stands at a destination;
* `validateArchiveOrder`: an explicit Archive Precedence;
* `surveyRoot`, `freezeArchive`, `collisionsOf`, `conflictsWithPlanned`, `preflight`.
-/

namespace Cao

variable {table : UpcaseTable}

/-! ## What the preflight reads -/

/-- `symlink_metadata`, of an entry that may be a link. -/
structure Metadata where
  isDir : Bool
  isSymlink : Bool
  isReparsePoint : Bool
  deriving DecidableEq, Repr

/-- The file system, as the preflight reads it. -/
structure FileView where
  canonical : Path → Except String Path
  weaklyCanonical : Path → Except String Path
  readDir : Path → Except String (List (Except String OsStr))
  symlinkMetadata : Path → Except String Metadata
  /-- `Path::is_file`, which follows links. -/
  isFile : Path → Bool

/-- What a call through a seam comes to. -/
inductive Answer (α : Type)
  | ok (value : α)
  | error (detail : String)
  | panic (message : String)
  deriving DecidableEq, Repr

/-- `ArchiveEntry`. -/
structure ArchiveEntry where
  name : Text
  decompressedSize : Nat
  deriving DecidableEq, Repr

/-- `RootArchives`. -/
structure RootArchives (table : UpcaseTable) where
  root : Path
  archives : List Path
  loose : OrdSet (gamePathKey table)

/-- `ArchiveExtractionPlan`. -/
structure ArchiveExtractionPlan where
  archivePath : Path
  modRoot : Path
  entries : List Text
  mergeEntries : List Text
  estimatedCapacityBytes : Nat
  deriving DecidableEq, Repr

/-- `ArchiveCollision`. -/
structure ArchiveCollision where
  modRoot : Path
  gamePath : Text
  winningArchive : Path
  shadowedArchives : List Path
  looseAssetWins : Bool
  deriving DecidableEq, Repr

/-- `Preflight::Failed` and `Preflight::Cancelled`. -/
inductive PreflightStop
  | failed (failure : RunFailure)
  | cancelled
  deriving DecidableEq, Repr

/-- `CapacityVerdict`, as a check before extraction can give it. -/
inductive CapacityVerdict
  | fits
  | warn (warning : String)
  | failRun (failure : RunFailure)
  deriving DecidableEq, Repr

/-- `Preflight::Planned`. -/
structure Planned where
  plans : List ArchiveExtractionPlan
  collisions : List ArchiveCollision
  capacityWarning : Option String
  deriving DecidableEq, Repr

/-- `estimated_capacity_bytes`. -/
def estimatedCapacityBytes (entries : List ArchiveEntry) : Nat :=
  entries.foldl (fun total entry =>
    let overhead := saturatingAdd (saturatingMul (utf8 entry.name).length 8) 65536
    saturatingAdd total (saturatingAdd entry.decompressedSize overhead)) 65536

/-! ## Existing destinations -/

/-- The detail of two entries that differ only in case. -/
def ambiguousCasing : String := "Archive destination has ambiguous casing."

/-- One entry of a directory, after the match among those before it. -/
def matchEntry (table : UpcaseTable) (directory : Path) (name : OsStr) (found : Option Path)
    (entry : Except String OsStr) : Except String (Option Path) :=
  match entry with
  | .error e => .error e
  | .ok entry =>
    if (compareOrdinalIgnoreCase table entry name).isEq then
      if found.isSome then .error ambiguousCasing else .ok (some (directory ++ [entry]))
    else .ok found

/-- `matching_child`: the one entry of a directory whose name is equivalent. -/
def matchingChild (view : FileView) (table : UpcaseTable) (directory : Path) (name : OsStr) :
    Except String (Option Path) :=
  match view.readDir directory with
  | .error e => .error e
  | .ok entries => entries.foldlM (matchEntry table directory name) none

/-- The detail of an occupied destination. -/
def alreadyOccupied : String := "Archive destination is already occupied."

/-- The loop of `validate_existing_destination`, from `current` on. -/
def validateExisting (view : FileView) (table : UpcaseTable) (hasLooseFile : Bool) :
    Path → List OsStr → Except String Unit
  | _, [] => .ok ()
  | current, part :: parts =>
    match matchingChild view table current part with
    | .error e => .error e
    | .ok none => .ok ()
    | .ok (some existing) =>
      if parts = [] then
        if !hasLooseFile || !view.isFile existing then .error alreadyOccupied else .ok ()
      else
        match view.symlinkMetadata existing with
        | .error e => .error e
        | .ok metadata =>
          if metadata.isReparsePoint then .error "Archive destination parent is a reparse point."
          else if !metadata.isDir || metadata.isSymlink then
            .error "Archive destination parent is not an ordinary directory."
          else validateExisting view table hasLooseFile existing parts

/-- The detail of a destination outside its root. -/
def destinationOutside : String := "Archive destination is outside its Mod Root."

/-- `validate_existing_destination`. -/
def validateExistingDestination (view : FileView) (table : UpcaseTable) (root destination : Path)
    (hasLooseFile : Bool) : Except String Unit :=
  match containedParts root destination with
  | none => .error destinationOutside
  | some parts => validateExisting view table hasLooseFile root parts

/-! ## Explicit Archive Precedence -/

/-- `Component`. -/
inductive Component
  | normal (name : OsStr)
  | curDir
  | parentDir
  | rootDir
  | drive (text : OsStr)
  deriving DecidableEq, Repr

/-- One component of a requested path, after the parts before it. -/
def pushComponent (parts : Path) : Component → Option Path
  | .normal part => some (parts ++ [part])
  | .curDir => some parts
  | .parentDir => if parts = [] then none else some parts.dropLast
  | .rootDir => none
  | .drive _ => none

/-- `contained_relative`. -/
def containedRelative (path : List Component) : Option Path :=
  if path = [] then none else path.foldlM pushComponent []

/-- A path as the system writes it. -/
def nativeText (path : Path) : OsStr := [CodePoint.char '\\'].intercalate path

/-- The path of a requested precedence, as a failure names it. -/
def requestedPath (path : List Component) : Path := path.filterMap fun
  | .normal name => some name
  | _ => none

/-- One requested Archive, after the Archives ordered before it. -/
def orderArchive (view : FileView) (table : UpcaseTable) (root : Path) (archives : List Path)
    (ordered : List Path) (requested : List Component) : Except RunFailure (List Path) :=
  match containedRelative requested with
  | none => .error ⟨.archiveOrderOutsideRoot,
      "Archive Precedence paths must be relative and contained in the Mod Root.", requestedPath requested⟩
  | some normalized =>
    let candidate := root ++ normalized
    let outside := match view.canonical candidate with
      | .ok resolved => !root.isPrefixOf resolved
      | .error _ => false
    if outside then
      .error ⟨.archiveOrderOutsideRoot, "Required Archive resolves outside the Mod Root.", candidate⟩
    else
      match archives.find? fun archive =>
          (compareOrdinalIgnoreCase table (nativeText archive) (nativeText candidate)).isEq with
      | none => .error ⟨.archiveOrderExtra,
          "Archive Precedence names an Archive that is not enabled in this Mod Root.", candidate⟩
      | some found =>
        if found ∈ ordered then
          .error ⟨.archiveOrderDuplicate,
            "Archive Precedence names the same enabled Archive more than once.", candidate⟩
        else .ok (ordered ++ [found])

/-- `validate_archive_order`. -/
def validateArchiveOrder (view : FileView) (table : UpcaseTable) (root : Path) (archives : List Path)
    (order : List (List Component)) : Except RunFailure (List Path) :=
  match order.foldlM (orderArchive view table root archives) [] with
  | .error e => .error e
  | .ok ordered =>
    if ordered.length ≠ archives.length then
      .error ⟨.archiveOrderMissing,
        "Archive Precedence must include every enabled Archive in this Mod Root.", root⟩
    else .ok ordered

/-- `ArchivePrecedence`. -/
inductive ArchivePrecedence
  | default
  | explicitOrder (order : List (List Component))
  deriving DecidableEq, Repr

/-- The root with its Archives in the chosen order. -/
def orderRoot (view : FileView) (precedence : ArchivePrecedence) (root : RootArchives table) :
    Except RunFailure (RootArchives table) :=
  match precedence with
  | .default => .ok root
  | .explicitOrder order =>
    match validateArchiveOrder view table root.root root.archives order with
    | .error e => .error e
    | .ok ordered => .ok { root with archives := ordered }

/-! ## Planned outputs -/

/-- What stands before each `/` of a path. -/
def beforeSlashes : Text → List Text
  | [] => []
  | c :: s => (if c = '/' then [[]] else []) ++ (beforeSlashes s).map (c :: ·)

/-- `has_game_path_ancestor`. -/
def hasGamePathAncestor (table : UpcaseTable) (path ancestor : Text) : Bool :=
  (beforeSlashes path).any fun before =>
    (compareOrdinalIgnoreCase table (OsStr.ofText before) (OsStr.ofText ancestor)).isEq

/-- `conflicts_with_planned`. -/
def conflictsWithPlanned (planned : OrdSet (gamePathKey table)) (gamePath : Text) : Bool :=
  let hasPlannedAncestor := (beforeSlashes gamePath).any planned.contains
  let hasPlannedDescendant := (planned.from? (gamePath ++ ['/'])).any fun child =>
    hasGamePathAncestor table child.1 gamePath
  hasPlannedAncestor || hasPlannedDescendant

/-! ## The preflight -/

/-- The polls of the `CancellationToken`: what each sees, and nothing after the last. -/
abbrev Polls := List Bool

/-- `stop.is_cancelled()`. -/
def poll : Prog Polls PreflightStop Unit := fun polls =>
  match polls with
  | [] => (.done (), [])
  | true :: polls => (.fail .cancelled, polls)
  | false :: polls => (.done (), polls)

/-- `discovery_failure`. -/
def discoveryFailure {α : Type} (code : FailureCode) (path : Path) (detail : String) :
    Prog Polls PreflightStop α := Prog.fail (.failed ⟨code, detail, path⟩)

/-- The Archives that provide each game path, from high to low precedence. -/
abbrev Providers (table : UpcaseTable) := OrdMap (gamePathKey table) (List Path)

/-- One Archive's manifest, as far as it is checked. -/
structure EntryPass (table : UpcaseTable) where
  own : OrdSet (gamePathKey table)
  entries : List Text
  gamePaths : List Text
  provided : Providers table

/-- The directory an Archive is extracted into. -/
def extractionDirectory (root archive : Path) : Path := if archive = [] then root else archive.dropLast

/-- One manifest entry: its game path is safe, contained, unaliased and unoccupied. -/
def planEntry (view : FileView) (root : RootArchives table) (archive : Path) (pass : EntryPass table)
    (entry : ArchiveEntry) : Prog Polls PreflightStop (EntryPass table) := do
  poll
  match canonicalArchiveEntryPath entry.name with
  | .error detail => discoveryFailure .archiveEntryInvalid archive detail
  | .ok entryPath =>
    let destination := joinGamePath (extractionDirectory root.root archive) entryPath
    let contained := match view.weaklyCanonical destination with
      | .ok resolved => root.root.isPrefixOf resolved
      | .error _ => false
    match (relativeTo root.root destination).filter fun _ => contained with
    | none =>
      discoveryFailure .archiveEntryInvalid archive
        "Archive entry resolves outside the Mod Root or cannot be resolved."
    | some relative =>
      let gamePath := gamePathText relative
      if pass.own.contains gamePath then
        discoveryFailure .archiveEntryInvalid archive "Archive manifest contains aliased entries."
      else
        match validateExistingDestination view table root.root destination (root.loose.contains gamePath) with
        | .error detail => discoveryFailure .archiveEntryInvalid archive detail
        | .ok () => return {
            own := pass.own.insert gamePath
            entries := pass.entries ++ [entryPath]
            gamePaths := pass.gamePaths ++ [gamePath]
            provided := pass.provided.upsert gamePath fun archives => archives.getD [] ++ [archive] }

/-- A plan with its root's index and each entry's game path. -/
structure Draft where
  index : Nat
  plan : ArchiveExtractionPlan
  gamePaths : List Text

/-- One Archive: its manifest is read and checked. -/
def planArchive (view : FileView) (listEntries : Path → Answer (List ArchiveEntry)) (index : Nat)
    (root : RootArchives table) (state : Providers table × List Draft) (archive : Path) :
    Prog Polls PreflightStop (Providers table × List Draft) := do
  poll
  match listEntries archive with
  | .error detail => discoveryFailure .archiveUnreadable archive detail
  | .panic message => discoveryFailure .archiveUnreadable archive message
  | .ok entries =>
    let pass ← Prog.foldEach (planEntry view root archive) ⟨.empty, [], [], state.1⟩ entries
    let plan := {
      archivePath := archive
      modRoot := root.root
      entries := pass.entries
      mergeEntries := []
      estimatedCapacityBytes := estimatedCapacityBytes entries }
    return (pass.provided, state.2 ++ [⟨index, plan, pass.gamePaths⟩])

/-- The participants and the plans, of the roots done. -/
structure Survey (table : UpcaseTable) where
  participants : List (Providers table)
  drafts : List Draft

/-- One Mod Root: every Archive of it. -/
def surveyRoot (view : FileView) (listEntries : Path → Answer (List ArchiveEntry)) (survey : Survey table)
    (indexed : RootArchives table × Nat) : Prog Polls PreflightStop (Survey table) := do
  let (provided, drafts) ← Prog.foldEach (planArchive view listEntries indexed.2 indexed.1)
    (.empty, survey.drafts) indexed.1.archives
  return ⟨survey.participants ++ [provided], drafts⟩

/-- One entry of a plan: it merges when its Archive is the first to provide it and no Loose Asset
holds it. An absent game path would panic. -/
def freezeEntry (provided : Providers table) (root : RootArchives table) (archive : Path)
    (state : OrdSet (gamePathKey table) × List Text) (item : Text × Text) :
    Prog Polls PreflightStop (OrdSet (gamePathKey table) × List Text) :=
  match provided.get? item.2 with
  | none => Prog.crash
  | some (_, archives) =>
    if archives.head? ≠ some archive ∨ root.loose.contains item.2 then return state
    else if conflictsWithPlanned state.1 item.2 then
      discoveryFailure .archiveEntryInvalid archive
        "Archive entries require a file and directory at the same game path."
    else return (state.1.insert item.2, state.2 ++ [item.1])

/-- One plan: its winners are frozen. -/
def freezeArchive (roots : List (RootArchives table)) (participants : List (Providers table))
    (state : List (OrdSet (gamePathKey table)) × List ArchiveExtractionPlan) (draft : Draft) :
    Prog Polls PreflightStop (List (OrdSet (gamePathKey table)) × List ArchiveExtractionPlan) :=
  match roots[draft.index]?, participants[draft.index]?, state.1[draft.index]? with
  | some root, some provided, some planned => do
    let (planned, mergeEntries) ← Prog.foldEach (freezeEntry provided root draft.plan.archivePath)
      (planned, []) (draft.plan.entries.zip draft.gamePaths)
    return (state.1.set draft.index planned, state.2 ++ [{ draft.plan with mergeEntries }])
  | _, _, _ => Prog.crash

/-- The collisions of one Mod Root, in game-path order. -/
def collisionsOf (root : RootArchives table) (provided : Providers table) : List ArchiveCollision :=
  provided.entries.filterMap fun (gamePath, archives) =>
    match archives with
    | winner :: second :: rest => some {
        modRoot := root.root
        gamePath
        winningArchive := winner
        shadowedArchives := second :: rest
        looseAssetWins := root.loose.contains gamePath }
    | _ => none

/-- The Capacity Check before extraction, for what the plans are estimated to need. -/
def checkCapacity (check : List (Path × Nat) → CapacityVerdict) (plans : List ArchiveExtractionPlan) :
    Prog Polls PreflightStop (Option String) :=
  match check (plans.map fun plan => (plan.modRoot, plan.estimatedCapacityBytes)) with
  | .fits => return none
  | .warn warning => return some warning
  | .failRun failure => Prog.fail (.failed failure)

/-- The chosen orders, or the first failure. -/
def orderRoots (view : FileView) (precedence : ArchivePrecedence) (roots : List (RootArchives table)) :
    Except RunFailure (List (RootArchives table)) := roots.mapM (orderRoot view precedence)

/-- `preflight`. -/
def preflight (view : FileView) (listEntries : Path → Answer (List ArchiveEntry))
    (check : List (Path × Nat) → CapacityVerdict) (precedence : ArchivePrecedence)
    (roots : List (RootArchives table)) : Prog Polls PreflightStop Planned := do
  let roots ← Prog.ofExcept ((orderRoots view precedence roots).mapError PreflightStop.failed)
  let survey ← Prog.foldEach (surveyRoot view listEntries) ⟨[], []⟩ roots.zipIdx
  let (_, plans) ← Prog.foldEach (freezeArchive roots survey.participants)
    (List.replicate roots.length .empty, []) survey.drafts
  let collisions := (roots.zip survey.participants).flatMap fun (root, provided) =>
    collisionsOf root provided
  if plans = [] then return ⟨[], collisions, none⟩
  let capacityWarning ← checkCapacity check plans
  return ⟨plans, collisions, capacityWarning⟩

end Cao
