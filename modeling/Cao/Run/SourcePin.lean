import Cao.Run.Attempt

/-!
# Source pins

`run/source_pin.rs`: an Archive source, or a packed source, is pinned before it is read, and cleaned up
only if its path still names the file object that was pinned, unchanged.

* `FileFacts`: what identifies and dates an open file;
* `pinDirectories`, `SourceFilePin`, `LoadingPluginPin`: what is checked before a pin is held;
* `removeIfUnchanged`, `backupIfUnchanged`, `pinUnchangedForRecovery`: the cleanup and its recovery;
* **`spec_removeIfUnchanged`**, **`spec_backupIfUnchanged`**: a cleanup happens whole or not at all, and
  the search for a free backup name ends.
-/

namespace Cao

open Prog (Along along_pure along_fail Spec spec_bind)

/-! ## Errors and facts -/

/-- `SourcePinError`. -/
inductive SourcePinError
  | outsideModRoot
  | io (action : String) (path : Path) (source : String)
  | parentNotDirectory (path : Path)
  | notOrdinaryFile (path : Path)
  | changed (path : Path)
  | notLoadingPlugin (path : Path)
  deriving DecidableEq, Repr

/-- `Path::display`. -/
def displayPath (path : Path) : String := String.ofList ((nativeText path).lossy)

/-- `SourcePinError::to_string`. -/
def SourcePinError.text : SourcePinError → String
  | .outsideModRoot => "A pinned file is outside its Mod Root."
  | .io action path source => action ++ " " ++ displayPath path ++ ": " ++ source
  | .parentNotDirectory path => "A pinned parent is no longer an ordinary directory: " ++ displayPath path
  | .notOrdinaryFile path => "A source file is no longer an ordinary file: " ++ displayPath path
  | .changed path => "A source file changed before cleanup: " ++ displayPath path
  | .notLoadingPlugin path => "The loading plugin is not a nonempty ordinary file: " ++ displayPath path

/-- `FileFacts`: what stands there, and the identity and times of the file object. -/
structure FileFacts where
  node : Node Leaf
  stamp : Nat
  deriving DecidableEq, Repr

namespace FileFacts

/-- `FileFacts::is_directory`, and no reparse point. -/
def isOrdinaryDirectory (facts : FileFacts) : Bool :=
  match facts.node with
  | .dir => true
  | .leaf _ => false

/-- `FileFacts::is_ordinary_file`. -/
def isOrdinaryFile (facts : FileFacts) : Bool :=
  match facts.node with
  | .leaf (.file ..) => true
  | _ => false

/-- `FileFacts::size`. -/
def size (facts : FileFacts) : Nat :=
  match facts.node with
  | .leaf (.file data _) => data.length
  | _ => 0

/-- `FileFacts::unchanged_since`. -/
def unchangedSince (facts earlier : FileFacts) : Bool :=
  facts.stamp = earlier.stamp && facts.size = earlier.size

end FileFacts

variable {K : Type} [DecidableEq K] {V : Volume K} {P : Type} {α : Type}

/-! ## Opening and inspecting -/

/-- The text of the system's "not found". -/
def notFoundText : String := "The system cannot find the file specified."

/-- What stands at a path. -/
def entryAt (path : Path) (disk : Disk V) : Except String (Node Leaf) :=
  match disk.find path with
  | some (_, node) => .ok node
  | none => .error notFoundText

/-- `map_err(SourcePinError::io(action, path))`. -/
def pinIo (action : String) (path : Path) (x : Prog (Site V P) (Thrown String) α) :
    Prog (Site V P) (Thrown SourcePinError) α := x.mapError (Thrown.map (.io action path))

/-- `Open::open`. -/
def openPin (seams : Seams) (action : String) (path : Path) : Prog (Site V P) (Thrown SourcePinError) Unit :=
  pinIo action path (do
    let _ ← inspectTree seams (entryAt path)
    return ())

/-- `FileFacts::of`, of the file open at a path. -/
def factsOf (seams : Seams) (action : String) (path : Path) :
    Prog (Site V P) (Thrown SourcePinError) FileFacts := do
  let n ← nextCall
  let node ← pinIo action path (inspectTree seams (entryAt path))
  return ⟨node, seams.stamp n⟩

/-- `inspect_source`. -/
def inspectSource (seams : Seams) (source : Path) : Prog (Site V P) (Thrown SourcePinError) FileFacts := do
  let facts ← factsOf seams "Could not inspect source file" source
  if facts.isOrdinaryFile then return facts else failWith (.notOrdinaryFile source)

/-- One directory of a pinned path, unless it is pinned already. -/
def pinParent (seams : Seams) (pins : List Path) (directory : Path) :
    Prog (Site V P) (Thrown SourcePinError) (List Path) := do
  if directory ∈ pins then return pins
  openPin seams "Could not pin parent directory" directory
  let facts ← factsOf seams "Could not inspect parent directory" directory
  if facts.isOrdinaryDirectory then return pins ++ [directory] else failWith (.parentNotDirectory directory)

/-- `pin_directories`: the directories from the volume root to a path's parent. -/
def pinDirectories (seams : Seams) (path root : Path) (pins : List Path) :
    Prog (Site V P) (Thrown SourcePinError) (List Path) :=
  match relativeTo root path with
  | none | some [] => failWith .outsideModRoot
  | some _ => Prog.foldEach (pinParent seams) pins path.dropLast.inits

/-! ## The source pin -/

/-- `SourceFilePin`. -/
structure SourceFilePin where
  source : Path
  pinned : Bool
  facts : FileFacts
  deriving DecidableEq, Repr

namespace SourceFilePin

/-- `SourceFilePin::with_shared_directories`. -/
def withSharedDirectories (seams : Seams) (source root : Path) (directories : List Path) :
    Prog (Site V P) (Thrown SourcePinError) (SourceFilePin × List Path) := do
  let directories ← pinDirectories seams source root directories
  openPin seams "Could not pin source file" source
  let facts ← inspectSource seams source
  return (⟨source, true, facts⟩, directories)

/-- `SourceFilePin::new`. -/
def new (seams : Seams) (source root : Path) : Prog (Site V P) (Thrown SourcePinError) SourceFilePin := do
  let (pin, _) ← withSharedDirectories seams source root []
  return pin

/-- `SourceFilePin::release_for_cleanup`. -/
def releaseForCleanup (pin : SourceFilePin) : SourceFilePin := { pin with pinned := false }

/-- `SourceFilePin::open_for_cleanup`. -/
def openForCleanup (seams : Seams) (pin : SourceFilePin) : Prog (Site V P) (Thrown SourcePinError) Unit := do
  if pin.pinned then openPin seams "Could not retain source identity for cleanup" pin.source
  openPin seams "Could not reopen source for cleanup" pin.source
  let facts ← inspectSource seams pin.source
  if facts.unchangedSince pin.facts then return () else failWith (.changed pin.source)

/-- `delete_by_handle` of the file a path names. -/
def deleteFile (path : Path) (disk : Disk V) : Except String (Disk V) :=
  match disk.find path with
  | some (p, .leaf _) =>
    match disk.erase p with
    | some disk => .ok disk
    | none => .error notFoundText
  | _ => .error notFoundText

/-- `SourceFilePin::remove_if_unchanged`. -/
def removeIfUnchanged (seams : Seams) (pin : SourceFilePin) : Prog (Site V P) (Thrown SourcePinError) Unit := do
  openForCleanup seams pin
  pinIo "A source file could not be removed" pin.source
    (changeTree seams [.removed pin.source] (deleteFile pin.source))

/-- A backup's name: `.bak` after the last one. -/
def backupName (name : Path) : Path :=
  name.dropLast ++ [name.getLast?.getD [] ++ OsStr.ofText ".bak".toList]

/-- `rename_by_handle`, never replacing. -/
def renameFile (source destination : Path) (disk : Disk V) : Except String (Disk V) :=
  match renameEntry .noReplace source destination disk with
  | .ok (_, disk) => .ok disk
  | .error _ => .error "Cannot rename."

/-- The loop of `backup_if_unchanged`: the first backup name after `name` that is free. -/
def tryBackup (seams : Seams) (pin : SourceFilePin) : Nat → Path → Prog (Site V P) (Thrown SourcePinError) Path
  | 0, _ => Prog.crash
  | fuel + 1, name => do
    let destination := backupName name
    let renamed ← result
      (changeTree seams [.renamed pin.source destination] (renameFile pin.source destination))
    match renamed with
    | .ok () => return destination
    | .error detail =>
      let occupied ← result (inspectTree seams (entryAt destination))
      match occupied with
      | .ok _ => tryBackup seams pin fuel destination
      | .error _ => failWith (.io "Could not back up extracted Archive" pin.source detail)

/-- `SourceFilePin::backup_if_unchanged`. Every name tried before the free one is another entry of the
tree, which bounds the search. -/
def backupIfUnchanged (seams : Seams) (pin : SourceFilePin) : Prog (Site V P) (Thrown SourcePinError) Path := do
  openForCleanup seams pin
  let s ← Prog.get
  tryBackup seams pin (s.disk.entries.length + 1) pin.source

/-- `SourceFilePin::pin_unchanged_for_recovery`. -/
def pinUnchangedForRecovery (seams : Seams) (pin : SourceFilePin) :
    Prog (Site V P) (Thrown SourcePinError) Unit := do
  openPin seams "Could not pin retained source file" pin.source
  let facts ← inspectSource seams pin.source
  if facts.unchangedSince pin.facts then record (.repinned pin.source) else failWith (.changed pin.source)

end SourceFilePin

/-! ## The plugin pin -/

/-- `LoadingPluginPin::new`. -/
def loadingPluginPin (seams : Seams) (plugin root : Path) : Prog (Site V P) (Thrown SourcePinError) Unit := do
  let _ ← pinDirectories seams plugin root []
  openPin seams "Could not pin loading plugin" plugin
  let facts ← factsOf seams "Could not inspect loading plugin" plugin
  if facts.isOrdinaryFile && facts.size ≠ 0 then record (.pluginPinned plugin)
  else failWith (.notLoadingPlugin plugin)

/-! ## Pins only read -/

variable {seams : Seams}

theorem along_openPin (action : String) (path : Path) :
    Along Idle (openPin seams action path : Prog (Site V P) _ Unit) fun _ => True :=
  ((along_inspectTree _).bind fun _ _ => along_pure trivial).mapError

theorem along_factsOf (action : String) (path : Path) :
    Along Idle (factsOf seams action path : Prog (Site V P) _ _) fun _ => True :=
  along_nextCall.bind fun _ _ => ((along_inspectTree _).mapError).bind fun _ _ => along_pure trivial

theorem along_inspectSource (source : Path) :
    Along Idle (inspectSource seams source : Prog (Site V P) _ _) fun facts => facts.isOrdinaryFile = true := by
  refine (along_factsOf _ _).bind fun facts _ => ?_
  split_ifs with h
  · exact along_pure h
  · exact along_fail

theorem along_pinParent (pins : List Path) (directory : Path) :
    Along Idle (pinParent seams pins directory : Prog (Site V P) _ _) fun _ => True := by
  unfold pinParent
  split_ifs with h
  · exact along_pure trivial
  · refine (along_openPin _ _).bind fun _ _ => (along_factsOf _ _).bind fun facts _ => ?_
    split_ifs with hd
    · exact along_pure trivial
    · exact along_fail

theorem along_pinDirectories (path root : Path) (pins : List Path) :
    Along Idle (pinDirectories seams path root pins : Prog (Site V P) _ _)
      fun _ => ∃ relative, relativeTo root path = some relative ∧ relative ≠ [] := by
  unfold pinDirectories
  rcases hr : relativeTo root path with _ | _ | ⟨a, rest⟩
  · exact along_fail
  · exact along_fail
  · exact (Along.foldEach (fun c b _ => along_pinParent c b) _ trivial).mono fun _ _ => ⟨_, rfl, by simp⟩

namespace SourceFilePin

theorem along_withSharedDirectories (source root : Path) (directories : List Path) :
    Along Idle (withSharedDirectories seams source root directories : Prog (Site V P) _ _)
      fun held => held.1.source = source ∧ ∃ relative, relativeTo root source = some relative ∧ relative ≠ [] :=
  (along_pinDirectories _ _ _).bind fun _ hr => (along_openPin _ _).bind fun _ _ =>
    (along_inspectSource _).bind fun _ _ => along_pure ⟨rfl, hr⟩

theorem along_new (source root : Path) : Along Idle (new seams source root : Prog (Site V P) _ _)
    fun pin => pin.source = source ∧ ∃ relative, relativeTo root source = some relative ∧ relative ≠ [] :=
  (along_withSharedDirectories _ _ _).bind fun _ h => along_pure h

theorem along_openForCleanup (pin : SourceFilePin) :
    Along Idle (openForCleanup seams pin : Prog (Site V P) _ _) fun _ => True := by
  have hlast : Along Idle (do
      openPin seams "Could not reopen source for cleanup" pin.source
      let facts ← inspectSource seams pin.source
      if facts.unchangedSince pin.facts then return () else failWith (.changed pin.source) :
      Prog (Site V P) (Thrown SourcePinError) Unit) fun _ => True := by
    refine (along_openPin _ _).bind fun _ _ => (along_inspectSource _).bind fun facts _ => ?_
    split_ifs with h
    · exact along_pure trivial
    · exact along_fail
  unfold openForCleanup
  split_ifs with h
  · exact (along_openPin _ _).bind fun _ _ => hlast
  · exact hlast

/-! ## Cleanup happens whole or not at all -/

/-- **A removal is of the whole source, or of nothing.** -/
theorem spec_removeIfUnchanged {pin : SourceFilePin} {s : Site V P} :
    Spec (removeIfUnchanged seams pin) s
      (fun _ s' => ∃ s₁, Idle s s₁ ∧ Changed [.removed pin.source] (deleteFile pin.source) s₁ s')
      (fun _ s' => Idle s s') fun _ => False := by
  refine spec_bind.mpr ((along_openForCleanup pin s).mono (fun _ s₁ h => ?_) (fun _ _ h => h) fun _ h => h)
  exact Prog.spec_mapError.mpr (spec_changeTree.mono (fun _ _ h' => ⟨s₁, h.1, h'⟩)
    (fun _ _ h' => h.1.trans h') fun _ h' => h')

/-! ## The search for a backup name -/

/-- The length of a path's last name. -/
def nameLength (p : Path) : Nat := (p.getLast?.getD []).length

theorem nameLength_backupName (p : Path) : nameLength (backupName p) = nameLength p + 4 := by
  simp [nameLength, backupName, OsStr.ofText]

omit [DecidableEq K] in
/-- What the volume takes for one path ends in names of one length. -/
theorem nameLength_of_fold {p q : Path} (h : p.map V.fold = q.map V.fold) : nameLength p = nameLength q := by
  have hl : (p.map V.fold).getLast? = (q.map V.fold).getLast? := by rw [h]
  rw [List.getLast?_map, List.getLast?_map] at hl
  unfold nameLength
  generalize p.getLast? = a at hl ⊢
  generalize q.getLast? = b at hl ⊢
  cases a with
  | none => cases b with
    | none => rfl
    | some b => cases hl
  | some a => cases b with
    | none => cases hl
    | some b => exact V.length _ _ (Option.some.inj hl)

/-- How many entries have last names longer than `n`. -/
def longer (disk : Disk V) (n : Nat) : Nat := disk.entries.countP fun e => decide (n < nameLength e.1)

/-- An occupied backup name is one entry less to try. -/
theorem longer_backupName {disk : Disk V} {p : Path} {node : Node Leaf}
    (h : entryAt (backupName p) disk = .ok node) :
    longer disk (nameLength (backupName p)) < longer disk (nameLength p) := by
  have hne : backupName p ≠ [] := by simp [backupName]
  unfold entryAt at h
  split at h
  · next q n hf =>
    obtain ⟨hq, hfold⟩ := (PathTree.find_eq_some hne).mp hf
    have hlen := (nameLength_of_fold hfold).trans (nameLength_backupName p)
    rw [nameLength_backupName]
    obtain ⟨before, after, hes⟩ := List.append_of_mem hq
    have hmono : ∀ l : List (List OsStr × Node Leaf),
        l.countP (fun e => decide (nameLength p + 4 < nameLength e.1)) ≤
          l.countP fun e => decide (nameLength p < nameLength e.1) :=
      fun l => List.countP_mono_left fun e _ he => by simp only [decide_eq_true_eq] at he ⊢; omega
    have h1 := hmono before
    have h2 := hmono after
    unfold longer
    rw [hes, List.countP_append, List.countP_append, List.countP_cons, List.countP_cons]
    simp only [hlen]
    simp
    omega
  · cases h

/-- The loop ends when more steps remain than names can be occupied. -/
theorem spec_tryBackup {pin : SourceFilePin} (fuel : Nat) {name : Path} {s : Site V P}
    (h : longer s.disk (nameLength name) < fuel) : Spec (tryBackup seams pin fuel name) s
      (fun backup s' => ∃ s₁, Idle s s₁ ∧
        Changed [.renamed pin.source backup] (renameFile pin.source backup) s₁ s')
      (fun _ s' => Idle s s') fun _ => False := by
  induction fuel generalizing name s with
  | zero => omega
  | succ fuel ih =>
    refine spec_bind.mpr (spec_result (spec_changeTree.mono (fun _ s' h' => ?_)
      (fun e s₁ h₁ => ⟨fun d _ => ?_, fun m _ => h₁⟩) fun _ h => h))
    · exact ⟨s, Idle.refl s, h'⟩
    · refine spec_bind.mpr (spec_result (spec_inspectTree.mono (fun node s₂ h₂ => ?_)
        (fun e s₂ h₂ => ⟨fun d _ => Idle.trans h₁ h₂, fun m _ => Idle.trans h₁ h₂⟩)
        fun _ h => h))
      obtain ⟨h₂, hnode⟩ := h₂
      have h₁₂ : Idle s s₂ := Idle.trans h₁ h₂
      have hdisk : s₂.disk = s.disk := by rw [h₁₂]
      have hdisk₁ : s₁.disk = s.disk := by rw [h₁]
      have hless := longer_backupName (hdisk₁ ▸ hnode)
      refine (ih (hdisk.symm ▸ by omega)).mono ?_ ?_ fun _ h => h
      · rintro backup s' ⟨s₃, h₃, h'⟩
        exact ⟨s₃, h₁₂.trans h₃, h'⟩
      · exact fun _ s' h' => h₁₂.trans h'

/-- **A backup is of the whole source under a free name, or nothing happens**, and the search for the
name ends. -/
theorem spec_backupIfUnchanged {pin : SourceFilePin} {s : Site V P} :
    Spec (backupIfUnchanged seams pin) s
      (fun backup s' => ∃ s₁, Idle s s₁ ∧
        Changed [.renamed pin.source backup] (renameFile pin.source backup) s₁ s')
      (fun _ s' => Idle s s') fun _ => False := by
  refine spec_bind.mpr ((along_openForCleanup pin s).mono (fun _ s₁ h => ?_) (fun _ _ h => h) fun _ h => h)
  rw [spec_bind, Prog.spec_get]
  refine (spec_tryBackup _ (Nat.lt_succ_of_le List.countP_le_length)).mono ?_
    (fun _ _ h' => h.1.trans h') fun _ h => h
  rintro backup s' ⟨s₂, h₂, h'⟩
  exact ⟨s₂, h.1.trans h₂, h'⟩

/-- A source pinned again is recorded, and nothing else moves. -/
theorem spec_pinUnchangedForRecovery {pin : SourceFilePin} {s : Site V P} :
    Spec (pinUnchangedForRecovery seams pin) s
      (fun _ s' => ∃ s₁, Idle s s₁ ∧ s' = { s₁ with log := s₁.log ++ [.repinned pin.source] })
      (fun _ s' => Idle s s') fun _ => False := by
  refine spec_bind.mpr ((along_openPin _ _ s).mono (fun _ s₁ h => ?_) (fun _ _ h => h) fun _ h => h)
  refine spec_bind.mpr ((along_inspectSource _ s₁).mono (fun facts s₂ h' => ?_)
    (fun _ _ h' => h.1.trans h') fun _ h => h)
  have h₂ : Idle s s₂ := h.1.trans h'.1
  split_ifs
  · exact ⟨s₂, h₂, rfl⟩
  · exact h₂

end SourceFilePin

end Cao
