import Cao.Staging.Parse
import Cao.Staging.Disk

/-!
# Recovery of leftover staging

`StagingScope::recover` of `run/staging/recovery.rs`, in its two phases: `proveOwnership` pins the whole
area and proves each entry against the manifest, and `removeOwned` removes the recorded entries that
were present, in reverse registration order and never recursively.

* `observe`, `opened`, `readManifest`, `pinManifest`: the read-only steps;
* `walkEntry`, `walk`, `validateSibling`, `validateTree`: the live tree against the records;
* `removeRecovered`, `removeOwned`, `recover`.
-/

namespace Cao

variable {K : Type} {V : Volume K} {α : Type}

/-- `Halt`: why preparing a Mod Root stopped. -/
inductive Halt
  | cancelled
  | failed (error : StagingError)
  | recoveryFailed (path : Path) (error : StagingError)
  deriving DecidableEq, Repr

/-- `PinKey`. -/
inductive PinKey
  | control (relative : Text)
  | sibling (relative : Text)
  deriving DecidableEq, Repr

/-- `PinKey::of`. -/
def PinKey.of (artifact : Artifact) : PinKey :=
  if artifact.rootRelative then .sibling artifact.relative else .control artifact.relative

/-- `Pins`: the entry each key holds open. -/
abbrev Pins := List (PinKey × Path)

/-- `BTreeMap::remove`, of the map. -/
def Pins.remove (pins : Pins) (key : PinKey) : Pins := pins.filter fun p => decide (p.1 ≠ key)

/-- `.cao-staging`, below the Mod Root. -/
def staging : Path := [OsStr.ofText stagingDirectory]

/-- A control file of the reserved directory. -/
def controlPath (name : Text) : Path := staging ++ [OsStr.ofText name]

/-! ## Reading -/

/-- `From<StagingError> for Halt`. -/
def halt (x : Prog (Machine V) StagingError α) : Prog (Machine V) Halt α := x.mapError .failed

/-- `CancellationToken`: a new one nobody else holds, so it is never cancelled, or one shared with the
user, which may be cancelled before any poll. -/
inductive CancellationToken
  | new
  | shared
  deriving DecidableEq, Repr

/-- `observe`: one poll of the token. -/
def observe (stop : CancellationToken) : Prog (Machine V) Halt Unit :=
  match stop with
  | .new => return ()
  | .shared => settle.mapError fun _ => .cancelled

/-- `opened`: a failure to open an entry is unverified ownership of it. -/
def opened (x : Prog (Machine V) StagingError α) : Prog (Machine V) StagingError α :=
  x.mapError fun
    | .io _ path _ => .unverified path "The staging entry could not be opened."
    | error => error

/-- Stop with unverified ownership of `path`. -/
def refuse (path : Path) (detail : String) : Prog (Machine V) Halt α :=
  Prog.fail (.failed (.unverified path detail))

/-- `unknown_name`. -/
def unknownName (path : Path) : Prog (Machine V) Halt α :=
  refuse path "An unknown staging-like name collides with the reserved namespace."

/-- `unregistered`. -/
def unregistered (path : Path) : Prog (Machine V) Halt α :=
  refuse path "Staging contains an unregistered entry."

variable {d : Disk V} {R : α → Prop} {stop : CancellationToken}

theorem observes_observe : Observes d (observe stop : Prog (Machine V) Halt Unit) fun _ => True := by
  cases stop
  · exact observes_pure trivial
  · exact observes_settle.mapError

theorem observes_refuse {path : Path} {detail : String} :
    Observes d (refuse path detail : Prog (Machine V) Halt α) R := observes_fail

theorem Observes.halt {x : Prog (Machine V) StagingError α}
    (hx : Observes d x R) : Observes d (halt x) R := hx.mapError

theorem Observes.opened {x : Prog (Machine V) StagingError α}
    (hx : Observes d x R) : Observes d (opened x) R := hx.mapError

variable [DecidableEq K]

/-- `claim_lock` over `OwnerLock::open_existing`. A refused open is another process's lock. -/
def claimExistingLock (path : Path) : Prog (Machine V) StagingError Unit := do
  let (_, node) ← (openEntry path).mapError fun
    | .fault => .ownership .stagingActive path "another process holds the staging owner lock"
    | _ => .unverified path "the staging owner lock could not be opened"
  settle.mapError fun _ => .unverified path "the staging owner lock could not be opened"
  match node with
  | .leaf (.file _ 1) => return ()
  | _ => Prog.fail (.unverified path "the staging owner lock is not an ordinary single-link file")

/-- `pin_manifest`. -/
def pinManifest (path : Path) : Prog (Machine V) StagingError Unit := do
  let (_, node) ← (openEntry path).mapError fun _ =>
    .unverified path "The ownership manifest could not be opened."
  ioAt "Inspect" path settle
  match node with
  | .leaf (.file _ 1) => return ()
  | _ => Prog.fail (.unverified path unexpectedIdentity)

/-- `parse_manifest`, polling the token before each record. -/
def parsePolled (stop : CancellationToken) (bytes : Bytes) (root : Text) :
    Prog (Machine V) Rejection Manifest := fun w =>
  let refused : Fate → Bool := fun | .refused _ => stop = .shared | _ => false
  match parseManifest bytes root fun i => (w.tape[i]?).any refused with
  | .ok manifest =>
    let polls := if stop = .shared then manifest.artifacts.length else 0
    (.done manifest, { w with tape := w.tape.drop polls })
  | .error rejection => (.fail rejection, w)

/-- The rejection of a manifest past the byte limit. -/
def exceedsLimit : String := "The ownership manifest is missing or exceeds the format limit."

/-- `read_manifest`. -/
def readManifest (stop : CancellationToken) (path : Path) (root : Text) : Prog (Machine V) Halt Manifest := do
  let bytes ← halt (ioAt "Read" path (readFile path))
  if bytes.length > manifestByteLimit then refuse path exceedsLimit
  else (parsePolled stop bytes root).mapError fun
    | .cancelled => .cancelled
    | .invalid detail => .failed (.unverified path detail)

/-! ## The live tree against the records -/

/-- The control records by name, and whether each is a directory. -/
def expected (manifest : Manifest) : List (Text × Bool) :=
  ((manifest.artifacts.filter fun a => !a.rootRelative).map fun a => (a.relative, a.directory)).reverse

/-- One entry of the walk. -/
def walkEntry (stop : CancellationToken) (manifest : Manifest) (directory : Path) (pre : Text)
    (state : Pins × List (Path × Text)) (entry : OsStr × Node Leaf) :
    Prog (Machine V) Halt (Pins × List (Path × Text)) := do
  observe stop
  halt (ioAt "Read" directory settle)
  let (pins, pending) := state
  let path := directory ++ [entry.1]
  match entry.1.toStr with
  | none => unregistered path
  | some name =>
    let relative := if pre = [] then name else pre ++ '/' :: name
    if relative = ownerLock ∨ relative = manifestName then return (pins, pending)
    else if manifest.version ≥ 2 ∧ relative = manifestScratch then
      match ← halt (inspect path) with
      | some .file =>
        let pin ← halt (opened (openTemporaryFile path))
        return ((.control relative, pin) :: pins, pending)
      | _ => refuse path "The manifest scratch control is not a regular file."
    else
      match (expected manifest).lookup relative with
      | none => unregistered path
      | some recordedDirectory =>
        match ← halt (inspect path), recordedDirectory with
        | some .dir, true =>
          let pin ← halt (opened (pinDirectory path))
          return ((.control relative, pin) :: pins, (path, relative) :: pending)
        | some .file, false =>
          let pin ← halt (opened (openTemporaryFile path))
          return ((.control relative, pin) :: pins, pending)
        | _, _ => refuse path "A staging artifact does not match its recorded type."

/-- The walk of the control area, deepest directory last in first out. `fuel` bounds the directories
entered: none is entered twice. -/
def walk (stop : CancellationToken) (manifest : Manifest) : Nat → Pins × List (Path × Text) → Prog (Machine V) Halt Pins
  | _, (pins, []) => return pins
  | 0, (_, (directory, _) :: _) => unregistered directory
  | fuel + 1, (pins, (directory, pre) :: pending) => do
    let entries ← halt (ioAt "Read" directory (readDir directory))
    let state ← Prog.foldEach (walkEntry stop manifest directory pre) (pins, pending) entries
    walk stop manifest fuel state

/-- One `S` record of `validate_tree`. -/
def validateSibling (stop : CancellationToken) (state : Pins × List Path) (artifact : Artifact) :
    Prog (Machine V) Halt (Pins × List Path) := do
  observe stop
  let (pins, parentPins) := state
  let path := artifactPath artifact
  let parent := path.dropLast
  let (parentPins, found) ← halt (pinParentDirectories parent parentPins)
  if !(← halt (Prog.ofExcept found)) then return (pins, parentPins)
  else
    let resolved ← halt (ioAt "Resolve" parent (weaklyCanonical parent))
    if resolved ≠ parent then
      refuse path "A sibling Asset staging parent changed during recovery."
    else
      match ← halt (inspect path) with
      | none => return (pins, parentPins)
      | some .dir => refuse path "A sibling Asset staging artifact is not a regular file."
      | some .file =>
        let pin ← halt (opened (openTemporaryFile path))
        return ((PinKey.of artifact, pin) :: pins, parentPins)

/-- `validate_tree`: pins every present entry of the area, proving each against its record. -/
def validateTree (stop : CancellationToken) (manifest : Manifest) : Prog (Machine V) Halt Pins := do
  Prog.forEach manifest.artifacts fun _ => observe stop
  let w ← Prog.get
  let pins ← walk stop manifest (w.disk.entries.length + 1) ([], [(staging, [])])
  let (pins, _) ← Prog.foldEach (validateSibling stop) (pins, [])
    (manifest.artifacts.filter fun a => a.rootRelative)
  return pins

/-! ## The two phases -/

/-- The staging-like names of the Mod Root other than the reserved directory. -/
def collectUnknown (stop : CancellationToken) (unknown : List Path) (entry : OsStr × Node Leaf) :
    Prog (Machine V) Halt (List Path) := do
  observe stop
  halt (ioAt "Read" [] settle)
  if isStagingName entry.1 ∧ entry.1 ≠ OsStr.ofText stagingDirectory then
    return unknown ++ [[entry.1]]
  else return unknown

/-- Whether a record of the manifest names this staging-like entry of the Mod Root. -/
def checkUnknown (manifest : Manifest) (path : Path) : Prog (Machine V) Halt Unit :=
  if manifest.artifacts.any fun a => a.rootRelative && artifactPath a == path then return ()
  else unknownName path

/-- `recover` after its first guard, up to its deletion phase. -/
def proveArea (stop : CancellationToken) (root : Text) : Prog (Machine V) Halt (Option (Manifest × Pins)) := do
  let _ ← halt (opened (pinDirectory []))
  let entries ← halt (ioAt "Read" [] (readDir []))
  let unknown ← Prog.foldEach (collectUnknown stop) [] entries
  match ← halt (inspect staging) with
  | none =>
    match unknown.head? with
    | some path => unknownName path
    | none => return none
  | some .file => refuse staging "The reserved staging name is not a directory."
  | some .dir =>
    let _ ← halt (opened (pinDirectory staging))
    match ← halt (inspect (controlPath ownerLock)) with
    | some .file =>
      halt (claimExistingLock (controlPath ownerLock))
      halt (pinManifest (controlPath manifestName))
      let manifest ← readManifest stop (controlPath manifestName) root
      Prog.forEach unknown (checkUnknown manifest)
      let pins ← validateTree stop manifest
      return some (manifest, pins)
    | _ => refuse staging "The staging ownership lock is missing."

/-- `recover` up to its deletion phase: the manifest and the pins proving the area, or `none` when the
root has no leftover staging. -/
def proveOwnership (stop : CancellationToken) (root : Text) : Prog (Machine V) Halt (Option (Manifest × Pins)) := do
  observe stop
  let w ← Prog.get
  if w.scope.area.isSome then return none else proveArea stop root

/-- `remove_recovered`: removes one validated entry through its pin. -/
def removeRecovered (affected : Path) (directory : Bool) (pin : Path) : Prog (Machine V) Halt Unit := do
  let failed := fun context e => Halt.recoveryFailed affected (.io context affected e)
  let parent := affected.dropLast
  let resolved ← (canonical parent).mapError (failed "Resolve the parent of")
  if resolved ≠ parent then
    refuse affected "A staging artifact parent changed during recovery."
  else if directory then (removeDir affected).mapError (failed "Remove")
  else (deleteByHandle pin).mapError (failed "Remove")

/-- One record of the deletion phase. -/
def removeStep (stop : CancellationToken) (pins : Pins) (artifact : Artifact) : Prog (Machine V) Halt Pins := do
  observe stop
  match pins.lookup (PinKey.of artifact) with
  | none => return pins
  | some pin =>
    removeRecovered (artifactPath artifact) artifact.directory pin
    return pins.remove (PinKey.of artifact)

/-- The removal of the manifest scratch. -/
def removeScratch (pins : Pins) : Prog (Machine V) Halt Pins :=
  match pins.lookup (.control manifestScratch) with
  | none => return pins
  | some scratch => do
    (deleteByHandle scratch).mapError fun e =>
      .recoveryFailed staging (.io "Remove" (controlPath manifestScratch) e)
    return pins.remove (.control manifestScratch)

/-- The deletion phase of `recover`. -/
def removeOwned (stop : CancellationToken) (manifest : Manifest) (pins : Pins) : Prog (Machine V) Halt Unit := do
  let pins ← removeScratch pins
  let _ ← Prog.foldEach (removeStep stop) pins manifest.artifacts.reverse
  Prog.modify fun w => { w with scope := { w.scope with area := some .default } }

/-- `StagingScope::recover`. -/
def recover (stop : CancellationToken) (root : Text) : Prog (Machine V) Halt Unit := do
  match ← proveOwnership stop root with
  | none => return ()
  | some (manifest, pins) => removeOwned stop manifest pins

end Cao
