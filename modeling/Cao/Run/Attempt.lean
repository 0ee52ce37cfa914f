import Cao.Archive.Preflight

/-!
# Attempts and the seams they work through

What one Archive attempt leaves behind (`attempt.rs`, `run/artifacts.rs`), and the operations it is made
of: each call draws its own outcome, so an attempt is run against any behaviour of the reader, the
packer, the staging area and the file system.

* `AttemptOutcome`, `PublicationResult`: an attempt's outcome and one publication's;
* `Site`: the tree outside staging, the staged files and what took durable effect, in order;
* `Seams`: the behaviour of every call; `call`, `inspectTree`, `publishReceipt` and the other operations;
* `catchUnwind`, `result`: how the source catches panics and errors.
-/

namespace Cao

open Prog (Along along_pure along_fail Spec spec_bind)

/-! ## Outcomes -/

/-- `MutationState`. -/
inductive MutationState
  | none
  | committed
  | partialOrUnknown
  deriving DecidableEq, Repr

/-- `CompletedMutation`. -/
inductive CompletedMutation
  | none
  | committed
  deriving DecidableEq, Repr

/-- `MutationState::from`. -/
def CompletedMutation.state : CompletedMutation → MutationState
  | .none => .none
  | .committed => .committed

/-- `CapacityShortage`. -/
structure CapacityShortage where
  root : Path
  required : Nat
  available : Nat
  deriving DecidableEq, Repr

/-- `OperationFailure`. -/
structure OperationFailure (F : Type) where
  category : F
  detail : String
  capacityShortage : Option CapacityShortage
  deriving DecidableEq, Repr

/-- `OperationFailure::new`. -/
def OperationFailure.new {F : Type} (category : F) (detail : String) : OperationFailure F :=
  ⟨category, detail, none⟩

/-- `CapacityShortage::to_string`. -/
def CapacityShortage.text (shortage : CapacityShortage) : String :=
  "Insufficient Archive staging capacity: estimated " ++ toString shortage.required ++
    " bytes, available " ++ toString shortage.available ++
    " bytes. Estimates include staging overhead allowances but do not reserve space or guarantee " ++
    "filesystem metadata, quotas, or concurrent writes."

/-- `OperationFailure::from_capacity_shortage`. -/
def OperationFailure.fromCapacityShortage {F : Type} (category : F) (shortage : CapacityShortage) :
    OperationFailure F := ⟨category, shortage.text, some shortage⟩

/-- `AttemptOutcome`. -/
inductive AttemptOutcome (F : Type)
  | succeeded (mutation : CompletedMutation)
  | failed (failure : OperationFailure F) (mutation : MutationState) (claimedSafeToContinue : Bool)
  deriving DecidableEq, Repr

namespace AttemptOutcome

variable {F : Type}

/-- `AttemptOutcome::succeeded`. -/
def isSuccess : AttemptOutcome F → Bool
  | .succeeded _ => true
  | .failed .. => false

/-- `AttemptOutcome::safe_to_continue`. -/
def safeToContinue : AttemptOutcome F → Bool
  | .succeeded _ => true
  | .failed _ mutation claimed => claimed && mutation ≠ .partialOrUnknown

/-- `AttemptOutcome::mutation`. -/
def mutation : AttemptOutcome F → MutationState
  | .succeeded mutation => mutation.state
  | .failed _ mutation _ => mutation

/-- `AttemptOutcome::failure_category`. -/
def failureCategory : AttemptOutcome F → Option F
  | .succeeded _ => none
  | .failed failure _ _ => some failure.category

end AttemptOutcome

/-- `PublicationState`. -/
inductive PublicationState
  | notPublished
  | publishedStillOwned
  | publishedAndReleased
  deriving DecidableEq, Repr

/-- `PublicationResult`. -/
structure PublicationResult where
  state : PublicationState
  errorDetail : String
  deriving DecidableEq, Repr

/-- `PublicationResult::mutation`. -/
def PublicationResult.mutation (result : PublicationResult) : MutationState :=
  match result.state with
  | .notPublished => .none
  | _ => .committed

/-- `PublicationResult::safe_to_continue`. -/
def PublicationResult.safeToContinue (result : PublicationResult) : Bool :=
  result.state ≠ .publishedStillOwned

/-! ## The state of an attempt -/

/-- What took durable effect, or was established, in an attempt. -/
inductive Event
  /-- An entry's bytes were written to the staged file of a receipt. -/
  | extracted (receipt : Nat) (name : Text) (data : Bytes)
  /-- A staged file was renamed to a destination, and its temporary name released or not. -/
  | published (receipt : Nat) (destination : Path) (released : Bool)
  /-- A file was deleted. -/
  | removed (path : Path)
  /-- A source Archive was renamed. -/
  | renamed (source backup : Path)
  /-- An Archive was listed. -/
  | listed (archive : Path)
  /-- A retained source was pinned again, unchanged. -/
  | repinned (source : Path)
  /-- The reader let go of its Archive. -/
  | unloaded
  /-- An output Archive was written to the staged file of a receipt. -/
  | packed (receipt : Nat)
  /-- A loading plugin was pinned. -/
  | pluginPinned (plugin : Path)
  /-- A retained source was read whole. -/
  | readWhole (source : Path)
  /-- An empty directory was deleted. -/
  | pruned (directory : Path)
  deriving DecidableEq, Repr

/-- The tree outside staging, the staged files' bytes by receipt, an attempt's progress and its events. -/
structure Site {K : Type} (volume : Volume K) (P : Type) where
  disk : Disk volume
  staged : List Bytes
  progress : P
  calls : Nat
  log : List Event

/-- How a call ends early: an error, or a panic. -/
inductive Thrown (ε : Type)
  | error (e : ε)
  | panic (message : String)
  deriving DecidableEq, Repr

/-- Rename an error. -/
def Thrown.map {ε ε' : Type} (f : ε → ε') : Thrown ε → Thrown ε'
  | .error e => .error (f e)
  | .panic message => .panic message

/-- What the caller of `catch_unwind` makes of either. -/
def Thrown.detail : Thrown String → String
  | .error detail => detail
  | .panic message => message

/-- What becomes of one publication, where the tree allows it. -/
inductive PublicationFate
  /-- Refused before the rename. -/
  | refused (detail : String)
  /-- Renamed, and its release refused. -/
  | unreleased (detail : String)
  | released
  deriving DecidableEq, Repr

/-- What each call of an attempt comes to, by its number. -/
structure Seams where
  listEntries : Nat → Path → Answer (List ArchiveEntry)
  extractEntry : Nat → Path → Text → Answer Bytes
  /-- The message of a panicking release. -/
  release : Nat → Option String
  /-- The packer writes an output Archive. -/
  pack : Nat → Answer Bytes
  recheck : Nat → List (Path × Nat) → Path → Option CapacityShortage
  /-- A native step is let happen, refused, or panics. -/
  native : Nat → Answer Unit
  /-- What identifies an open file and dates its changes. -/
  stamp : Nat → Nat
  /-- The registry stages an empty file, or hands out its path. -/
  stage : Nat → Answer Unit
  publish : Nat → PublicationFate

variable {K : Type} {V : Volume K} {P : Type} {ε ε' α β : Type}

/-! ## Errors and panics -/

/-- `catch_unwind`, of a call that may return an error. -/
def catchUnwind (x : Prog (Site V P) (Thrown ε) α) : Prog (Site V P) ε' (Except (Thrown ε) α) := x.attempt

/-- What remains of a caught call: a panic goes on. -/
def rethrow : Except (Thrown ε) α → Prog (Site V P) (Thrown ε') (Except ε α)
  | .ok a => pure (.ok a)
  | .error (.error e) => pure (.error e)
  | .error (.panic message) => Prog.fail (.panic message)

/-- The `Result` of a call; a panic goes on. -/
def result (x : Prog (Site V P) (Thrown ε) α) : Prog (Site V P) (Thrown ε') (Except ε α) := do
  let ended ← catchUnwind x
  rethrow ended

/-- An error. -/
def failWith (e : ε) : Prog (Site V P) (Thrown ε) α := Prog.fail (.error e)

/-- What an answer comes to. -/
def Answer.run : Answer α → Prog (Site V P) (Thrown String) α
  | .ok a => pure a
  | .error detail => failWith detail
  | .panic message => Prog.fail (.panic message)

/-! ## Operations -/

/-- The number of a call. -/
def nextCall : Prog (Site V P) ε Nat := fun s => (.done s.calls, { s with calls := s.calls + 1 })

/-- One call. -/
def call (f : Nat → Answer α) : Prog (Site V P) (Thrown String) α := do
  let n ← nextCall
  (f n).run

/-- An event. -/
def record (event : Event) : Prog (Site V P) ε Unit := Prog.modify fun s => { s with log := s.log ++ [event] }

/-- The progress changes. -/
def modifyProgress (f : P → P) : Prog (Site V P) ε Unit := Prog.modify fun s => { s with progress := f s.progress }

/-- The progress. -/
def getProgress : Prog (Site V P) ε P := fun s => (.done s.progress, s)

/-- A native step that reads the tree. -/
def inspectTree (seams : Seams) (f : Disk V → Except String α) : Prog (Site V P) (Thrown String) α := do
  call seams.native
  let s ← Prog.get
  match f s.disk with
  | .ok a => return a
  | .error detail => failWith detail

/-- A native step that changes the tree; what it did is recorded. -/
def changeTree (seams : Seams) (events : List Event) (f : Disk V → Except String (Disk V)) :
    Prog (Site V P) (Thrown String) Unit := do
  call seams.native
  let s ← Prog.get
  match f s.disk with
  | .ok disk => Prog.modify fun s => { s with disk, log := s.log ++ events }
  | .error detail => failWith detail

/-- `ArchiveReader::list_entries`. -/
def listArchive (seams : Seams) (archive : Path) : Prog (Site V P) (Thrown String) (List ArchiveEntry) := do
  let entries ← call fun n => seams.listEntries n archive
  record (.listed archive)
  return entries

/-- Bytes are written to the staged file of a receipt. -/
def writeStaged (receipt : Nat) (data : Bytes) (event : Event) : Prog (Site V P) ε Unit :=
  Prog.modify fun s => { s with staged := s.staged.set receipt data, log := s.log ++ [event] }

/-- `ArchiveReader::extract_entry`, into the staged file of a receipt. -/
def extractEntry (seams : Seams) (archive : Path) (name : Text) (receipt : Nat) :
    Prog (Site V P) (Thrown String) Unit := do
  let data ← call fun n => seams.extractEntry n archive name
  writeStaged receipt data (.extracted receipt name data)

/-- `ArchiveReader::release`. -/
def releaseReader (seams : Seams) : Prog (Site V P) (Thrown ε) Unit := do
  let n ← nextCall
  match seams.release n with
  | some message => Prog.fail (.panic message)
  | none => record .unloaded

/-- `stage_archive_file_for_publication` and `PublicationReceipt::path`: an empty staged file. -/
def stageForPublication (seams : Seams) : Prog (Site V P) (Thrown String) Nat := do
  call seams.stage
  let s ← Prog.get
  Prog.modify fun s => { s with staged := s.staged ++ [[]] }
  call seams.stage
  return s.staged.length

variable [DecidableEq K]

/-- The rename of a staged file to a free destination, and whether it was released. -/
def renameStaged (receipt : Nat) (destination : Path) (released : Bool) (detail : String) :
    Prog (Site V P) ε PublicationResult := do
  let s ← Prog.get
  match createEntry (.leaf (.file (s.staged[receipt]?.getD []) 1)) destination s.disk with
  | .error _ => return ⟨.notPublished, "Publish staged file to"⟩
  | .ok (_, disk) =>
    Prog.modify fun s => { s with disk, log := s.log ++ [.published receipt destination released] }
    return ⟨if released then .publishedAndReleased else .publishedStillOwned, detail⟩

/-- `PublicationReceipt::publish`, never replacing. -/
def publishReceipt (seams : Seams) (receipt : Nat) (destination : Path) :
    Prog (Site V P) ε PublicationResult := do
  let n ← nextCall
  match seams.publish n with
  | .refused detail => return ⟨.notPublished, detail⟩
  | .unreleased detail => renameStaged receipt destination false detail
  | .released => renameStaged receipt destination true ""

/-! ## What the operations do -/

section

omit [DecidableEq K]

variable {seams : Seams}

/-- Only the count of calls moved. -/
def Idle (s s' : Site V P) : Prop := s' = { s with calls := s'.calls }

theorem Idle.refl (s : Site V P) : Idle s s := rfl

theorem Idle.trans {s₁ s₂ s₃ : Site V P} (h : Idle s₁ s₂) (h' : Idle s₂ s₃) : Idle s₁ s₃ := by
  unfold Idle at *
  rw [h', h]

theorem Idle.disk {s s' : Site V P} (h : Idle s s') : s'.disk = s.disk := by rw [h]

instance : IsPreorder (Site V P) Idle where
  refl := Idle.refl
  trans _ _ _ := Idle.trans

theorem along_rethrow {rel : Site V P → Site V P → Prop} [IsPreorder (Site V P) rel]
    {o : Except (Thrown ε) α} {R : α → Prop} (h : ∀ a, o = .ok a → R a) :
    Along rel (rethrow o : Prog (Site V P) (Thrown ε') _) fun o' => ∀ a, o' = .ok a → R a := by
  rcases o with (e | message) | a
  · exact along_pure nofun
  · exact along_fail
  · exact along_pure (by rintro _ ⟨rfl⟩; exact h a rfl)

theorem along_result {rel : Site V P → Site V P → Prop} [IsPreorder (Site V P) rel]
    {x : Prog (Site V P) (Thrown ε) α} {R : α → Prop} (hx : Along rel x R) :
    Along rel (result x : Prog (Site V P) (Thrown ε') _) fun o => ∀ a, o = .ok a → R a :=
  hx.attempt.bind fun _ h => along_rethrow h

theorem spec_nextCall {s : Site V P} {Q : Nat → Site V P → Prop} {E : ε → Site V P → Prop}
    {C : Site V P → Prop} :
    Spec (nextCall : Prog (Site V P) ε Nat) s Q E C ↔ Q s.calls { s with calls := s.calls + 1 } := Iff.rfl

theorem spec_getProgress {s : Site V P} {Q : P → Site V P → Prop} {E : ε → Site V P → Prop} {C : Site V P → Prop} :
    Spec (getProgress : Prog (Site V P) ε P) s Q E C ↔ Q s.progress s := Iff.rfl

theorem along_nextCall : Along Idle (nextCall : Prog (Site V P) ε Nat) fun _ => True := fun _ => ⟨rfl, trivial⟩

theorem along_run (answer : Answer α) :
    Along Idle (answer.run : Prog (Site V P) (Thrown String) α) fun a => answer = .ok a := by
  cases answer with
  | ok a => exact along_pure rfl
  | error detail => exact along_fail
  | panic message => exact along_fail

theorem along_call (f : Nat → Answer α) :
    Along Idle (call f : Prog (Site V P) (Thrown String) α) fun a => ∃ n, f n = .ok a :=
  along_nextCall.bind fun n _ => (along_run (f n)).mono fun _ h => ⟨n, h⟩

/-- A read tells what the tree says. -/
theorem spec_inspectTree {f : Disk V → Except String α} {s : Site V P} :
    Spec (inspectTree seams f) s (fun a s' => Idle s s' ∧ f s.disk = .ok a) (fun _ s' => Idle s s')
      fun _ => False := by
  refine spec_bind.mpr ((along_call _ s).mono (fun _ s' h => ?_) (fun _ _ h => h) fun _ h => h)
  obtain ⟨h, -⟩ := h
  rw [spec_bind, Prog.spec_get, show s'.disk = s.disk by rw [h]]
  cases hf : f s.disk with
  | ok a => exact ⟨h, rfl⟩
  | error detail => exact h

theorem along_inspectTree (f : Disk V → Except String α) :
    Along Idle (inspectTree seams f : Prog (Site V P) (Thrown String) α) fun a => ∃ disk, f disk = .ok a :=
  fun _ => spec_inspectTree.mono (fun _ _ h => ⟨h.1, _, h.2⟩) (fun _ _ h => h) fun _ h => h

theorem spec_result {x : Prog (Site V P) (Thrown ε) α} {s : Site V P} {Q : Except ε α → Site V P → Prop}
    {E : Thrown ε' → Site V P → Prop} {C : Site V P → Prop}
    (h : Spec x s (fun a s' => Q (.ok a) s')
      (fun e s' => (∀ d, e = .error d → Q (.error d) s') ∧ ∀ m, e = .panic m → E (.panic m) s') C) :
    Spec (result x : Prog (Site V P) (Thrown ε') _) s Q E C := by
  refine spec_bind.mpr (Prog.spec_attempt.mpr (h.mono (fun a s' h => h) (fun e s' h => ?_) fun _ h => h))
  cases e with
  | error d => exact h.1 d rfl
  | panic m => exact h.2 m rfl

/-- One recorded change of the tree. -/
def Changed (events : List Event) (f : Disk V → Except String (Disk V)) (s s' : Site V P) : Prop :=
  f s.disk = .ok s'.disk ∧ s'.staged = s.staged ∧ s'.progress = s.progress ∧ s'.log = s.log ++ events

/-- **A change takes place whole or not at all.** -/
theorem spec_changeTree {events : List Event} {f : Disk V → Except String (Disk V)} {s : Site V P} :
    Spec (changeTree seams events f) s (fun _ s' => Changed events f s s') (fun _ s' => Idle s s')
      fun _ => False := by
  refine spec_bind.mpr ((along_call _ s).mono (fun _ s' h => ?_) (fun _ _ h => h) fun _ h => h)
  obtain ⟨h, -⟩ := h
  rw [spec_bind, Prog.spec_get]
  cases hf : f s'.disk with
  | ok disk =>
    rw [h] at hf ⊢
    exact ⟨hf, rfl, rfl, rfl⟩
  | error detail => exact h

end

end Cao
