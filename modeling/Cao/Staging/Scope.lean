import Cao.Staging.Recover
import Cao.Staging.Names

/-!
# The staging producer

`StagingScope` of `run/staging.rs` and the registry of `run/artifacts.rs` that drives it, at one Mod Root.

* `prepareRoot`, `publishManifest`, `prepareArea`, `createRegisteredFile`: the steps of the protocol;
* `stageFile`, `stageArchiveFile`, `releaseFile`, `cleanupArtifacts`: the scope's operations;
* `pinDestination`, `publish`: publication through a receipt;
* `Operation`, `perform`, `run`: the registry's operations and any sequence of them.
-/

namespace Cao

variable {K : Type} [DecidableEq K] {V : Volume K} {α : Type}

/-! ## Failures of a root -/

/-- `RunFailure`, of a Mod Root. -/
structure RunFailure where
  code : FailureCode
  detail : String
  path : Path
  deriving DecidableEq, Repr

/-- The text of an error, without its path and the system's own message. -/
def StagingError.text : StagingError → String
  | .ownership _ _ detail => detail
  | .lookup context _ _ => context
  | .io context _ _ => context
  | .collision _ => "An unowned entry already occupies a new staging path"
  | .invalid detail => detail

/-- `REMAINING` of `prepare_root`. -/
def remaining : String := " Leave remaining staging in place; check permissions and ownership before " ++
  "retrying recovery."

/-- The guidance of `prepare_root`. -/
def guidance (code : FailureCode) : String :=
  if code = .stagingActive then " Wait for the owning CAO run to finish, then retry."
  else " Leave the contents in place. Inspect ownership.manifest and move unrecognized material " ++
    "outside .cao-staging before retrying."

/-- `StagingScope::prepare_root`. -/
def prepareRoot (stop : CancellationToken) (root : Text) :
    Prog (Machine V) StagingError (Option RunFailure) := do
  match ← (Prog.attempt (recover stop root) : Prog (Machine V) StagingError _) with
  | .ok () => return none
  | .error .cancelled => return none
  | .error (.failed (.ownership code path detail)) => return some ⟨code, detail ++ guidance code, path⟩
  | .error (.failed error) =>
    return some ⟨.stagingOwnershipUnverified, error.text ++ remaining, staging⟩
  | .error (.recoveryFailed path error) =>
    return some ⟨.stagingRecoveryFailed, error.text ++ remaining, path⟩

/-- Fail with `StagingError::Invalid`. -/
def invalid (detail : String) : Prog (Machine V) StagingError α := Prog.fail (.invalid detail)

/-! ## The protocol -/

/-- The machine with its claimed area changed. -/
def Machine.mapArea (f : Area → Area) (w : Machine V) : Machine V :=
  { w with scope := { w.scope with area := w.scope.area.map f } }

/-- Change the claimed area. -/
def modifyArea (f : Area → Area) : Prog (Machine V) StagingError Unit := Prog.modify (Machine.mapArea f)

/-- `write_new_file` failing is a publication that changed only the scratch; the rename is atomic. -/
def publishManifest (root runId child : Text) (artifacts : List Artifact) :
    Prog (Machine V) StagingError Unit := do
  Prog.modify fun w => { w with requests := w.requests ++ [(child, artifacts)] }
  match publishedBytes root runId child artifacts with
  | none => invalid "The staging ownership manifest exceeds its format limit."
  | some bytes =>
    let _ ← writeNewFile (controlPath manifestScratch) bytes
    ioAt "Publish" (controlPath manifestName) <| step fun w =>
      (renameEntry .replace (controlPath manifestScratch) (controlPath manifestName) w.disk).map
        fun (q, disk) => ((), { w with disk, made := w.made ++ [q] })

/-- `nonce`: the text of 16 bytes of the system's random source. -/
def nonce (random : Nonce) : Prog (Machine V) StagingError Text := do
  ioAt "Generate a staging nonce for" [] settle
  return nonceText random

/-- `claim_lock` over `OwnerLock::create`. -/
def claimNewLock (path : Path) : Prog (Machine V) StagingError Unit := do
  let _ ← (makeEntry (.leaf (.file [] 1)) path).mapError fun _ =>
    .unverified path "the staging owner lock could not be opened"
  settle.mapError fun _ => .unverified path "the staging owner lock could not be opened"

/-- `create_dir`, of an entry of the run. -/
def createDir (path : Path) : Prog (Machine V) IoError Path := makeEntry .dir path

/-- The claim of the reserved directory in `prepare_area`. -/
def claimArea : Prog (Machine V) StagingError Unit := do
  let _ ← pinDirectory []
  let _ ← (createDir staging).mapError fun
    | .alreadyExists => .invalid "The reserved staging area appeared during initialization."
    | error => .io "Create" staging error
  let _ ← pinDirectory staging
  claimNewLock (controlPath ownerLock)
  Prog.modify fun w => { w with scope := { w.scope with area := some .default } }

/-- The area is claimed, now or before. -/
def ensureClaimed : Prog (Machine V) StagingError Unit := do
  let w ← Prog.get
  if w.scope.area.isNone then claimArea else return ()

/-- The publication of the run child in `prepare_area`. -/
def publishChild (root : Text) (random : Nonce) : Prog (Machine V) StagingError Unit := do
  let w ← Prog.get
  let child := "run-".toList ++ w.scope.runId ++ ['-'] ++ (← nonce random)
  let artifacts : List Artifact := [⟨child, true, false⟩]
  modifyArea fun area => { area with child, artifacts }
  publishManifest root w.scope.runId child artifacts
  let path := staging ++ [OsStr.ofText child]
  let _ ← ioAt "Create" path (createDir path)
  let _ ← pinDirectory path
  modifyArea fun area => { area with ready := true }

/-- `StagingScope::prepare_area`. -/
def prepareArea (root : Text) (random : Nonce) : Prog (Machine V) StagingError Unit := do
  let w ← Prog.get
  if (validRunId (utf8 w.scope.runId)).isNone then
    invalid "The Run ID cannot name staging."
  else
    match ← prepareRoot .new root with
    | some failure => Prog.fail (.ownership failure.code failure.path failure.detail)
    | none =>
      ensureClaimed
      let w ← Prog.get
      match w.scope.area with
      | none => invalid "the area was just claimed"
      | some area =>
        if area.child ≠ [] ∧ area.ready = false then
          invalid "The staging area initialization did not complete."
        else if area.child = [] then publishChild root random
        else return ()

/-- The bytes of the conflict control. -/
def conflictBytes : Bytes := utf8 "A staged name collided before creation.\n".toList

/-- The half of `create_registered_file` after its registration: `artifacts` are the registrations
before it. -/
def createOrWithdraw (root runId child : Text) (artifacts : List Artifact) (path : Path) :
    Prog (Machine V) StagingError Path := do
  match ← (Prog.attempt (writeNewFile path []) : Prog (Machine V) StagingError _) with
  | .ok _ => return path
  | .error (.collision taken) =>
    modifyArea fun area => { area with artifacts := area.artifacts.dropLast }
    match ← (Prog.attempt (publishManifest root runId child artifacts) :
        Prog (Machine V) StagingError _) with
    | .error error =>
      -- an unregistered control makes a future recovery preserve the whole tree
      let _ ← (Prog.attempt (writeNewFile (controlPath conflictControl) conflictBytes) :
        Prog (Machine V) StagingError _)
      Prog.fail error
    | .ok _ => Prog.fail (.collision taken)
  | .error error => Prog.fail error

/-- `StagingScope::create_registered_file`: a registration durable before its file exists, and withdrawn
when the name was taken. -/
def createRegisteredFile (root relative : Text) (rootRelative : Bool) :
    Prog (Machine V) StagingError Path := do
  let w ← Prog.get
  match w.scope.area with
  | none => invalid "prepare_area claimed the area"
  | some area =>
    let artifact : Artifact := ⟨relative, false, rootRelative⟩
    let registered := area.artifacts ++ [artifact]
    publishManifest root w.scope.runId area.child registered
    modifyArea fun area => { area with artifacts := registered }
    createOrWithdraw root w.scope.runId area.child area.artifacts (artifactPath artifact)

/-! ## Operations of the scope -/

/-- `Path::extension` with its dot, lossily and in lower case. -/
def destinationExtension (name : OsStr) : Text :=
  if name.lossy = "..".toList then [] else (extensionOf name.lossy).map Char.toLower

/-- `generic`: a path as `/`-separated text. -/
def generic (path : Path) : Option Text := (path.mapM OsStr.toStr).map ['/'].intercalate

/-- The detail of a destination outside its Mod Root or in the reserved namespace. -/
def outsideRoot : String := "A staged output must belong to its canonical Mod Root."

/-- The half of `stage_file` after its destination is resolved to `parent`. -/
def stageBeneath (root : Text) (parent : Path) (destinationParent assetPrefix extension : Text)
    (childRandom random : Nonce) : Prog (Machine V) StagingError Path := do
  prepareArea root childRandom
  let w ← Prog.get
  let (pins, found) ← pinParentDirectories parent ((w.scope.area.map Area.parentPins).getD [])
  modifyArea fun area => { area with parentPins := pins }
  if !(← Prog.ofExcept found) then
    Prog.fail (.unverified parent "A staged Asset parent disappeared before creation.")
  else
    let filename := assetPrefix ++ w.scope.runId ++ ['-'] ++ (← nonce random) ++ extension
    let relative := if destinationParent = [] then filename
      else destinationParent ++ '/' :: filename
    createRegisteredFile root relative true

/-- `StagingScope::stage_file`. -/
def stageFile (root : Text) (destination : Path) (childRandom random : Nonce) :
    Prog (Machine V) StagingError Path := do
  let _ ← lookupAt "Resolve" [] (canonical [])
  let parent ← lookupAt "Resolve" destination.dropLast (canonical destination.dropLast)
  match destination.getLast? with
  | none => invalid outsideRoot
  | some name =>
    if hasStagingComponent parent then invalid outsideRoot
    else
      ioAt "Resolve" [] settle
      ioAt "Resolve" parent settle
      let extension := destinationExtension name
      match stagingPrefix extension, generic parent with
      | none, _ => invalid "Asset staging requires a DDS, NIF, BTR, BTO, or HKX destination."
      | _, none => Prog.fail (.io "Encode" parent .fault)
      | some assetPrefix, some destinationParent =>
        stageBeneath root parent destinationParent assetPrefix extension childRandom random

/-- `StagingScope::stage_archive_file`. -/
def stageArchiveFile (root : Text) (childRandom random : Nonce) : Prog (Machine V) StagingError Path := do
  let _ ← lookupAt "Resolve" [] (canonical [])
  prepareArea root childRandom
  let w ← Prog.get
  let child := (w.scope.area.map Area.child).getD []
  let relative := child ++ '/' :: "archive-entry-".toList ++ (← nonce random)
  createRegisteredFile root relative false

/-- The detail of a release whose temporary no area registers. -/
def notRegistered : String := "The durable temporary file is not registered."

/-- `StagingScope::release_file`. -/
def releaseFile (root : Text) (temporary : Path) : Prog (Machine V) StagingError Unit := do
  let w ← Prog.get
  match w.scope.area with
  | none => invalid notRegistered
  | some area =>
    match area.artifacts.findIdx? fun a => !a.directory && artifactPath a == temporary with
    | none => invalid notRegistered
    | some position =>
      match ← inspect temporary with
      | some _ => invalid "A durable temporary file must be moved before releasing ownership."
      | none =>
        let retained := area.artifacts.eraseIdx position
        publishManifest root w.scope.runId area.child retained
        modifyArea fun area => { area with artifacts := retained }

/-- `remove_artifact`. -/
def removeArtifact (affected : Path) (artifact : Artifact) : Prog (Machine V) StagingError Unit := do
  let parent := affected.dropLast
  let resolved ← lookupAt "Resolve" parent (weaklyCanonical parent)
  if resolved ≠ parent then
    Prog.fail (.unverified affected "A staging artifact parent changed during cleanup.")
  else
    match ← inspect affected with
    | none => return ()
    | some kind =>
      if (kind = .dir) ≠ (artifact.directory = true) then
        Prog.fail (.unverified affected "A staging artifact changed its recorded type.")
      else if artifact.directory then ioAt "Remove" affected (removeDir affected)
      else
        let file ← openTemporaryFile affected
        ioAt "Remove" affected (deleteByHandle file)

/-- `cleanup_artifacts`: the registered entries in reverse, each attempted; the failures. -/
def cleanupArtifacts : Prog (Machine V) StagingError (List (Path × StagingError)) := do
  let w ← Prog.get
  match w.scope.area with
  | none => return []
  | some area =>
    if area.child = [] then return []
    else Prog.foldEach (fun failures artifact => do
      let affected := artifactPath artifact
      match ← (Prog.attempt (removeArtifact affected artifact) : Prog (Machine V) StagingError _) with
      | .ok () => return failures
      | .error error => return failures ++ [(affected, error)]) [] area.artifacts.reverse

/-! ## Publication -/

/-- The detail of a destination outside its Mod Root or in the reserved namespace. -/
def reservedDestination : String := "Publication destination is outside its Mod Root or reserved."

/-- Whether a path resolves to itself. -/
def unchanged (path : Path) : Prog (Machine V) StagingError Bool := do
  match ← (Prog.attempt (canonical path) : Prog (Machine V) StagingError _) with
  | .ok resolved => return resolved = path
  | .error _ => return false

/-- `pin_destination`: the destination is an ordinary path below unlinked directories. -/
def pinDestination (destination : Path) : Prog (Machine V) StagingError Unit := do
  if destination = [] ∨ hasStagingComponent destination then invalid reservedDestination
  else if destination.any fun name => ambiguousWindowsName name.lossy then
    invalid "Publication destination has an ambiguous Windows name."
  else
    let parent := destination.dropLast
    let rootUnchanged ← unchanged []
    let parentUnchanged ← unchanged parent
    if !rootUnchanged || !parentUnchanged then
      invalid "Publication destination parent changed or is linked."
    else Prog.forEach parent.inits fun directory => do
      let _ ← pinDirectory directory
      return ()

/-- `destination_snapshot`: the bytes of the destination, `none` when it is absent or a directory. -/
def destinationSnapshot (path : Path) : Prog (Machine V) StagingError (Option Bytes) := do
  match ← (Prog.attempt (openEntry path) : Prog (Machine V) StagingError _) with
  | .error .notFound => return none
  | .error error => Prog.fail (.io "Snapshot publication destination" path error)
  | .ok (_, .leaf .link) => invalid "Publication destination is linked."
  | .ok (_, .dir) => return none
  | .ok (_, .leaf (.file data 1)) =>
    ioAt "Read publication destination" path settle
    return some data
  | .ok _ => invalid "Publication requires an ordinary staged file and parent."

/-- The destination still holds the bytes captured before staging. -/
def checkLeaf (leaf : Option (Option Bytes)) (destination : Path) : Prog (Machine V) StagingError Unit :=
  match leaf with
  | none => return ()
  | some leaf => do
    if (← destinationSnapshot destination) ≠ leaf then
      invalid "Publication destination changed after input capture."
    else return ()

/-- The detail of a receipt that no longer owns its staged file. -/
def notOwned : String := "The publication receipt is no longer owned."

/-- `PublicationPolicy`, as the rename it asks for. -/
abbrev PublicationPolicy := RenameMode

/-- The rename that commits a destination. -/
def commitDestination (policy : PublicationPolicy) (temporary destination : Path) :
    Prog (Machine V) IoError Unit := step fun w =>
  (renameEntry policy temporary destination w.disk).map fun (q, disk) =>
    ((), { w with disk, committed := w.committed ++ [q] })

/-- `publish`: validate, flush, rename, then release the temporary name. -/
def publish (root : Text) (index : Nat) (destination : Path) (policy : PublicationPolicy) :
    Prog (Machine V) StagingError Unit := do
  let w ← Prog.get
  match w.durable[index]? with
  | some ⟨temporary, false, some receipt⟩ =>
    -- the receipt is used whatever happens
    Prog.modify fun w => { w with durable := w.durable.set index ⟨temporary, false, none⟩ }
    if w.cleaned then invalid notOwned
    else if receipt.intended.any fun intended => intended.map V.fold ≠ destination.map V.fold then
      invalid "Asset publication changed its staged destination."
    else
      pinDestination destination
      let staged ← openTemporaryFile temporary
      ioAt "Flush" temporary settle
      checkLeaf receipt.stagedLeaf destination
      ioAt "Publish staged file to" destination (commitDestination policy staged destination)
      releaseFile root temporary
      Prog.modify fun w => { w with durable := w.durable.set index ⟨temporary, true, none⟩ }
  | _ => invalid notOwned

/-- `push_durable`, with the receipt of the staged file. -/
def pushDurable (path : Path) (receipt : Option Receipt) : Prog (Machine V) StagingError Unit :=
  Prog.modify fun w => { w with durable := w.durable ++ [⟨path, false, receipt⟩] }

/-- `TemporaryArtifactRegistry::open`. -/
def openRegistry : Prog (Machine V) StagingError Unit := do
  let w ← Prog.get
  if w.cleaned then invalid "Temporary artifact registration is closed." else return ()

/-! ## Operations of the registry -/

/-- The registry's operations on one Mod Root. Those that draw nonces carry the random bytes: first the
run child's, drawn when the area is new, then the staged file's. -/
inductive Operation
  /-- `prepare_root`. -/
  | prepareRoot
  /-- `stage_file`: recoverable staging, without a receipt. -/
  | stageFile (destination : Path) (childRandom random : Nonce)
  /-- `capture_and_stage_file`. -/
  | stageForPublication (destination : Path) (childRandom random : Nonce)
  /-- `stage_archive_file_for_publication`. -/
  | stageArchive (childRandom random : Nonce)
  /-- `PublicationReceipt::publish`. -/
  | publish (index : Nat) (destination : Path) (policy : PublicationPolicy)
  /-- `release_file`. -/
  | release (temporary : Path)
  /-- `cleanup`. -/
  | cleanup

/-- The nonce of the file an operation stages. -/
def Operation.nonces : Operation → List Nonce
  | .stageFile _ _ random => [random]
  | .stageForPublication _ _ random => [random]
  | .stageArchive _ random => [random]
  | _ => []

/-- One operation. -/
def perform (root : Text) : Operation → Prog (Machine V) StagingError Unit
  | .prepareRoot => do
    openRegistry
    let _ ← prepareRoot .shared root
  | .stageFile destination childRandom random => do
    openRegistry
    let path ← stageFile root destination childRandom random
    pushDurable path none
  | .stageForPublication destination childRandom random => do
    openRegistry
    pinDestination destination
    let leaf ← destinationSnapshot destination
    pinDestination destination
    checkLeaf (some leaf) destination
    let path ← stageFile root destination childRandom random
    pushDurable path (some ⟨some destination, some leaf⟩)
  | .stageArchive childRandom random => do
    openRegistry
    let path ← stageArchiveFile root childRandom random
    pushDurable path (some ⟨none, none⟩)
  | .publish index destination policy => publish root index destination policy
  | .release temporary => releaseFile root temporary
  | .cleanup => do
    let w ← Prog.get
    if w.cleaned then return ()
    else
      Prog.modify fun w => { w with cleaned := true }
      let _ ← cleanupArtifacts

/-- A run: its operations one after another, each of which may fail, until the process dies. -/
def run (root : Text) (operations : List Operation) : Prog (Machine V) StagingError Unit :=
  Prog.forEach operations fun operation => do
    let _ ← (Prog.attempt (perform root operation) : Prog (Machine V) StagingError _)

end Cao
