import Cao.Discovery.Walk
import Cao.Executor.Run

/-!
# Mod Root resolution

What Preparing makes of a request's Mod Selection (`run/mod_selection.rs`).

* `ModsView`: the lookups that resolution makes;
* `foldedName`, `modExclusion`: the order of the children of a mods directory, and the ones a run leaves out;
* `containsDirectory`: containment by the identities of directories;
* `listChildren`, `admitRoot`, `resolveChildren`, `resolveModRoots`: the resolution.
-/

namespace Cao.Selection

open Evidence (RunDiagnostic)

/-! ## Lookups -/

/-- What resolution asks of the file system, each refusal with its text. -/
structure ModsView where
  /-- `cao_winfs::canonical`. -/
  canonical : Path → Except String Path
  isDir : Path → Bool
  readDir : Path → Except String (List (Except String OsStr))
  /-- Whether an entry, followed through links, is a directory; `none` where there is none. -/
  metadata : Path → Except String (Option Bool)
  /-- `directory_identity`. -/
  identity : Path → Except String Nat

/-- `ModSelection`. -/
inductive ModSelection
  | singleModRoot (directory : Path)
  | childModRoots (directory : Path)
  deriving DecidableEq, Repr

/-- `ModSelection::directory`. -/
def ModSelection.directory : ModSelection → Path
  | singleModRoot directory | childModRoots directory => directory

/-- What a resolution has done so far: the samples of the token, and the Mod Exclusions recorded. -/
structure Selecting where
  polls : Nat
  recorded : List RunDiagnostic
  deriving DecidableEq, Repr

/-- `stop.is_cancelled()`. -/
def isCancelled {ε : Type} (cancelled : Nat → Bool) : Prog Selecting ε Bool :=
  fun s => (.done (cancelled s.polls), { s with polls := s.polls + 1 })

/-- `evidence.record_diagnostic`. -/
def recordDiagnostic {ε : Type} (diagnostic : RunDiagnostic) : Prog Selecting ε Unit :=
  Prog.modify fun s => { s with recorded := s.recorded ++ [diagnostic] }

/-- `resolution_failure`. -/
def resolutionFailure (detail : String) : Evidence.RunFailure := .new .modSelectionResolutionFailed .preparing detail

/-- `map_err(io_failure)`. -/
def orIoFailure {α : Type} (x : Except String α) : Except Evidence.RunFailure α := x.mapError resolutionFailure

/-! ## Children -/

/-- `folded_name`, given `char::to_lowercase`. -/
def foldedName (lower : Char → Text) (name : Text) : Text :=
  name.flatMap fun c =>
    if c = '\u00DF' ∨ c = '\u1E9E' then "ss".toList
    else if c = '\u03C2' then ['\u03C3']
    else if c = '\u017F' then ['s']
    else if c = '\u00B5' then ['\u03BC']
    else lower c

/-- `Child`. -/
structure Child where
  path : Path
  name : Text
  folded : Text
  deriving DecidableEq, Repr

/-- The child directory of a name. -/
def Child.of (lower : Char → Text) (root : Path) (name : OsStr) : Child where
  path := root ++ [name]
  name := name.lossy
  folded := foldedName lower name.lossy

/-- `SEPARATOR_SUFFIX`. -/
def separatorSuffix : Text := "_separator".toList

/-- `mod_exclusion`. -/
def modExclusion (child : Child) (ignored : List Text) : Option RunDiagnostic :=
  if separatorSuffix.isSuffixOf child.name then
    some { RunDiagnostic.new .separatorModExcluded .preparing "The child Mod Root matches a configured separator marker" with
      path := child.path }
  else if child.folded ∈ ignored then
    some { RunDiagnostic.new .ignoredModExcluded .preparing "The child Mod Root matches an ignored-mod name" with
      path := child.path }
  else none

/-- The order of the children: their folded names, then their names. -/
def childLe (a b : Child) : Prop := [strKey a.folded, strKey a.name] ≤ [strKey b.folded, strKey b.name]

instance : DecidableRel childLe := fun _ _ => inferInstanceAs (Decidable (_ ≤ _))

instance : Std.Total childLe := ⟨fun _ _ => le_total _ _⟩

instance : IsTrans Child childLe := ⟨fun _ _ _ => le_trans⟩

/-- The child directories that a listing gives; `none` where cancellation stopped it. -/
def listChildren (view : ModsView) (cancelled : Nat → Bool) (lower : Char → Text) (root : Path) :
    List (Except String OsStr) → List Child → Prog Selecting Evidence.RunFailure (Option (List Child))
  | [], children => return some children
  | entry :: entries, children => do
    if ← isCancelled cancelled then return none
    else
      let name ← Prog.ofExcept (orIoFailure entry)
      if isStagingName name then listChildren view cancelled lower root entries children
      else
        let isDirectory ← Prog.ofExcept (orIoFailure (view.metadata (root ++ [name])))
        if isDirectory = some true then
          listChildren view cancelled lower root entries (children ++ [.of lower root name])
        else listChildren view cancelled lower root entries children

/-! ## Containment -/

/-- `Path::ancestors`, of a path whose first component is its file-system root. -/
def ancestors (path : Path) : List Path := path.inits.reverse.dropLast

/-- Whether one of some directories has an identity. -/
def anyIdentified (view : ModsView) (boundary : Nat) : List Path → Except String Bool
  | [] => .ok false
  | ancestor :: rest => do
    let identity ← view.identity ancestor
    if identity = boundary then .ok true else anyIdentified view boundary rest

/-- `contains_directory`. -/
def containsDirectory (view : ModsView) (boundary directory : Path) : Except String Bool := do
  let boundary ← view.identity boundary
  anyIdentified view boundary (ancestors directory)

/-- `display_name`. -/
def displayName (path : Path) : String :=
  String.ofList ((nativeText path).lossy.map fun c => if c = '\\' then '/' else c)

/-! ## Resolution -/

/-- A child overlaps none of the Mod Roots before it. -/
def refuseOverlap (view : ModsView) (child resolved : Path) : List Path → Except Evidence.RunFailure Unit
  | [] => .ok ()
  | existing :: roots => do
    let outer ← orIoFailure (containsDirectory view existing resolved)
    let overlaps ← if outer then pure true else orIoFailure (containsDirectory view resolved existing)
    if overlaps then
      .error (.new .conflictingModRoots .preparing
        ("The selected Mod Roots overlap: " ++ displayName existing ++ " and " ++ displayName child))
    else refuseOverlap view child resolved roots

/-- A child that no exclusion applies to becomes a Mod Root. -/
def admitRoot (view : ModsView) (mods : Path) (roots : List Path) (child : Child) : Except Evidence.RunFailure (List Path) := do
  let resolved ← orIoFailure (view.canonical child.path)
  let holdsMods ← if resolved.length ≤ 1 then pure true else orIoFailure (containsDirectory view resolved mods)
  if holdsMods then
    .error (resolutionFailure "A child Mod Root cannot resolve to the selected mods directory or its ancestor")
  else
    refuseOverlap view child.path resolved roots
    return roots ++ [resolved]

/-- The Mod Roots that the sorted children come to. -/
def resolveChildren (view : ModsView) (cancelled : Nat → Bool) (mods : Path) (ignored : List Text) :
    List Child → List Path → Prog Selecting Evidence.RunFailure (List Path)
  | [], roots => return roots
  | child :: children, roots => do
    if ← isCancelled cancelled then return []
    else
      match modExclusion child ignored with
      | some diagnostic =>
        recordDiagnostic diagnostic
        resolveChildren view cancelled mods ignored children roots
      | none =>
        let roots ← Prog.ofExcept (admitRoot view mods roots child)
        resolveChildren view cancelled mods ignored children roots

/-- The canonical directory of a selection. -/
def selectedDirectory (view : ModsView) (selection : ModSelection) : Except Evidence.RunFailure Path :=
  match view.canonical selection.directory with
  | .ok root =>
    if view.isDir root then
      if root.length ≤ 1 then
        .error (resolutionFailure "A filesystem root cannot be selected as a Mod Root or mods directory")
      else .ok root
    else .error (resolutionFailure "The selected Mod Root could not be resolved to an existing directory")
  | .error _ => .error (resolutionFailure "The selected Mod Root could not be resolved to an existing directory")

/-- `resolve_mod_roots`, of a profile that ignores these mods. -/
def resolveModRoots (view : ModsView) (cancelled : Nat → Bool) (lower : Char → Text) (selection : ModSelection)
    (ignoredMods : List Text) : Prog Selecting Evidence.RunFailure (List Path) := do
  let root ← Prog.ofExcept (selectedDirectory view selection)
  match selection with
  | .singleModRoot _ => return [root]
  | .childModRoots _ =>
    let entries ← Prog.ofExcept (orIoFailure (view.readDir root))
    match ← listChildren view cancelled lower root entries [] with
    | none => return []
    | some children =>
      resolveChildren view cancelled root (ignoredMods.map (foldedName lower)) (children.insertionSort childLe) []

end Cao.Selection
