import Cao.Staging.Manifest
import Cao.Lib.Prog
import Cao.Lib.PathTree

/-!
# The Mod Root and its file-system steps

The tree below one canonical Mod Root, the state of the staging scope that works in it, and the steps
the scope is written in. Each step draws one `Fate`: it takes place, the system refuses it, or the
process dies before it; a write may also reach the disk in part.

* `Volume`, `Leaf`, `Disk`, `Machine`: the state;
* `query`, `change`, `writeAll`: one step; `inspect`, `pinDirectory`, `openTemporaryFile`,
  `pinParentDirectories`: the helpers of `run/staging.rs` over them;
* `Same`, `Observes`: a program that only reads, and what it learns.
-/

namespace Cao

/-! ## State -/

/-- How a Windows volume names entries. It compares names character by character, so names it takes
for one are equally long, and both reserved or both not; a name is one nonempty path component. -/
structure Volume (K : Type) extends Naming OsStr K where
  staging : ∀ a b, fold a = fold b → isStagingName a = isStagingName b
  length : ∀ a b, fold a = fold b → a.length = b.length
  component : ∀ a, valid a = true → a ≠ [] ∧ CodePoint.char '/' ∉ a ∧ CodePoint.char '\\' ∉ a

/-- What stands at a name that is no ordinary directory. -/
inductive Leaf
  /-- An ordinary file, with its number of hard links. -/
  | file (data : Bytes) (links : Nat)
  /-- A symbolic link, a junction or any other reparse point. -/
  | link
  /-- Neither a directory nor a file. -/
  | other
  deriving DecidableEq, Repr

/-- The tree below the Mod Root. -/
abbrev Disk {K : Type} (volume : Volume K) := PathTree volume.toNaming Leaf

/-- What becomes of one step: it takes place, it is refused, or the process dies. Of a write, `bytes`
bytes have then reached the disk. -/
inductive Fate
  | ok
  | refused (bytes : Nat)
  | crash (bytes : Nat)
  deriving DecidableEq, Repr

/-- Why the system refuses a step. -/
inductive IoError
  /-- Whatever the state of the tree does not decide. -/
  | fault
  | notFound
  | alreadyExists
  | notEmpty
  | accessDenied
  deriving DecidableEq, Repr

/-- `RunFailureCode`: the codes of Mod Root preparation and of Archive discovery. -/
inductive FailureCode
  | stagingActive
  | stagingOwnershipUnverified
  | stagingRecoveryFailed
  | archiveOrderOutsideRoot
  | archiveOrderExtra
  | archiveOrderDuplicate
  | archiveOrderMissing
  | archiveUnreadable
  | archiveEntryInvalid
  | archiveInsufficientCapacity
  deriving DecidableEq, Repr

/-- `StagingError`. -/
inductive StagingError
  | ownership (code : FailureCode) (path : Path) (detail : String)
  | lookup (context : String) (path : Path) (source : IoError)
  | io (context : String) (path : Path) (source : IoError)
  | collision (path : Path)
  | invalid (detail : String)
  deriving DecidableEq, Repr

/-- `StagingError::unverified`. -/
def StagingError.unverified (path : Path) (detail : String) : StagingError :=
  .ownership .stagingOwnershipUnverified path detail

/-- `Area`: the Mod Root's staging area, once claimed. -/
structure Area where
  /-- The run child's name; empty until published. -/
  child : Text
  artifacts : List Artifact
  parentPins : List Path
  ready : Bool
  deriving DecidableEq, Repr

/-- `Area::default()`. -/
def Area.default : Area := ⟨[], [], [], false⟩

/-- `StagingScope`, at one Mod Root. -/
structure StagingScope where
  runId : Text
  area : Option Area
  deriving DecidableEq, Repr

/-- `PublicationReceipt`, beside its index: the destination captured before staging, with its bytes. -/
structure Receipt where
  intended : Option Path
  stagedLeaf : Option (Option Bytes)
  deriving DecidableEq, Repr

/-- A durable artifact of the registry, with its receipt until that is used. -/
structure Registered where
  path : Path
  committed : Bool
  receipt : Option Receipt
  deriving DecidableEq, Repr

/-- The tree, the fates of the steps to come, and the run's memory. The last three fields record the
run: the temporary entries it created, the destinations it committed, and what it asked
`publish_manifest` to publish. -/
structure Machine {K : Type} (volume : Volume K) where
  disk : Disk volume
  tape : List Fate
  scope : StagingScope
  durable : List Registered
  /-- Safety Cleanup has started. -/
  cleaned : Bool
  made : List Path
  committed : List Path
  requests : List (Text × List Artifact)

variable {K : Type} {V : Volume K} {α β γ ε ε' : Type}

/-! ## Steps -/

/-- One step on the tree. -/
def step (act : Machine V → Except IoError (α × Machine V)) : Prog (Machine V) IoError α := fun w =>
  let run := fun w => match act w with
    | .ok (a, w) => (.done a, w)
    | .error e => (.fail e, w)
  match w.tape with
  | [] => run w
  | .ok :: tape => run { w with tape }
  | .refused _ :: tape => (.fail .fault, { w with tape })
  | .crash _ :: tape => (.crash, { w with tape })

/-- A step that reads the tree. -/
def query (f : Disk V → Except IoError α) : Prog (Machine V) IoError α :=
  step fun w => (f w.disk).map fun a => (a, w)

/-- A step that changes the tree. -/
def change (f : Disk V → Except IoError (α × Disk V)) : Prog (Machine V) IoError α :=
  step fun w => (f w.disk).map fun (a, disk) => (a, { w with disk })

/-- `sync_all`, and reading the facts of an open file. -/
def settle : Prog (Machine V) IoError Unit := query fun _ => .ok ()

/-- `map_err(StagingError::io(context, path))`. -/
def ioAt (context : String) (path : Path) (x : Prog (Machine V) IoError α) :
    Prog (Machine V) StagingError α := x.mapError (.io context path)

/-- `map_err(StagingError::lookup(context, path))`. -/
def lookupAt (context : String) (path : Path) (x : Prog (Machine V) IoError α) :
    Prog (Machine V) StagingError α := x.mapError (.lookup context path)

/-! ## Programs that only read -/

/-- Nothing but the tape moved. -/
def Same (w w' : Machine V) : Prop := w' = { w with tape := w'.tape }

theorem Same.refl (w : Machine V) : Same w w := rfl

theorem Same.trans {w₁ w₂ w₃ : Machine V} (h : Same w₁ w₂) (h' : Same w₂ w₃) : Same w₁ w₃ := by
  unfold Same at *
  rw [h', h]

theorem Same.disk {w w' : Machine V} (h : Same w w') : w'.disk = w.disk := by rw [h]

theorem Same.scope {w w' : Machine V} (h : Same w w') : w'.scope = w.scope := by rw [h]

/-- On the tree `d`, `x` only reads, and what it returns satisfies `R`. -/
def Observes (d : Disk V) (x : Prog (Machine V) ε α) (R : α → Prop) : Prop :=
  ∀ w, w.disk = d → Prog.Spec x w (fun a w' => Same w w' ∧ R a) (fun _ w' => Same w w') (Same w)

variable {d : Disk V} {R : α → Prop} {R' : β → Prop}

theorem observes_pure {a : α} (h : R a) : Observes d (pure a : Prog (Machine V) ε α) R :=
  fun _ _ => ⟨rfl, h⟩

theorem observes_fail {e : ε} : Observes d (Prog.fail e : Prog (Machine V) ε α) R := fun _ _ => rfl

theorem Observes.bind {x : Prog (Machine V) ε α} {f : α → Prog (Machine V) ε β} (hx : Observes d x R)
    (hf : ∀ a, R a → Observes d (f a) R') : Observes d (x >>= f) R' := by
  intro w hw
  refine Prog.spec_bind.mpr ((hx w hw).mono (fun a w' h => ?_) (fun _ _ h => h) fun _ h => h)
  have hw' : w'.disk = d := h.1.disk.trans hw
  exact (hf a h.2 w' hw').mono (fun _ _ h' => ⟨h.1.trans h'.1, h'.2⟩) (fun _ _ h' => h.1.trans h')
    fun _ h' => h.1.trans h'

theorem Observes.mono {R' : α → Prop} {x : Prog (Machine V) ε α} (hx : Observes d x R)
    (h : ∀ a, R a → R' a) : Observes d x R' := fun w hw =>
  (hx w hw).mono (fun _ _ h' => ⟨h'.1, h _ h'.2⟩) (fun _ _ h' => h') fun _ h' => h'

theorem Observes.mapError {x : Prog (Machine V) ε α} {f : ε → ε'} (hx : Observes d x R) :
    Observes d (x.mapError f) R := fun w hw => Prog.spec_mapError.mpr (hx w hw)

theorem Observes.attempt {x : Prog (Machine V) ε α} (hx : Observes d x R) :
    Observes d (Prog.attempt x : Prog (Machine V) ε' _) fun o => ∀ a, o = .ok a → R a := fun w hw =>
  Prog.spec_attempt.mpr ((hx w hw).mono
    (fun _ _ h => ⟨h.1, by rintro _ ⟨rfl⟩; exact h.2⟩) (fun _ _ h => ⟨h, nofun⟩) fun _ h => h)

theorem observes_ofExcept {r : Except ε α} (h : ∀ a, r = .ok a → R a) :
    Observes d (Prog.ofExcept r : Prog (Machine V) ε α) R := fun w _ => by
  rw [Prog.spec_ofExcept]
  exact ⟨fun a ha => ⟨rfl, h a ha⟩, fun _ _ => rfl⟩

/-- A fold that only reads, with an invariant of its accumulator. -/
theorem Observes.foldEach {f : γ → β → Prog (Machine V) ε γ} {I : List β → List β → γ → Prop}
    (step : ∀ before b after c, I before (b :: after) c →
      Observes d (f c b) fun c' => I (before ++ [b]) after c')
    {l : List β} {c : γ} (h : I [] l c) : Observes d (Prog.foldEach f c l) (I l []) := by
  intro w hw
  have := Prog.Spec.foldEach (f := f) (C := Same w) (E := fun _ => Same w)
    (I := fun before after c w' => Same w w' ∧ I before after c)
    (fun before b after c w' h => (step before b after c h.2 w' (h.1.disk.trans hw)).mono
      (fun _ _ h' => ⟨h.1.trans h'.1, h'.2⟩) (fun _ _ h' => h.1.trans h') fun _ h' => h.1.trans h')
    [] l (c := c) (s := w) ⟨rfl, h⟩
  simpa using this

theorem Observes.forEach {f : β → Prog (Machine V) ε Unit} {Q : β → Prop}
    (hf : ∀ b, Observes d (f b) fun _ => Q b) (l : List β) :
    Observes d (Prog.forEach l f) fun _ => ∀ b ∈ l, Q b := by
  intro w hw
  have := Prog.Spec.forEach (f := f) (C := Same w) (E := fun _ => Same w)
    (I := fun before _ w' => Same w w' ∧ ∀ b ∈ before, Q b)
    (fun before b after w' h => (hf b w' (h.1.disk.trans hw)).mono
      (fun _ _ h' => ⟨h.1.trans h'.1, fun c hc => by
        rw [List.mem_append, List.mem_singleton] at hc
        rcases hc with hc | rfl
        · exact h.2 c hc
        · exact h'.2⟩) (fun _ _ h' => h.1.trans h') fun _ h' => h.1.trans h')
    [] l (s := w) ⟨rfl, by simp⟩
  simpa using this

theorem observes_query {f : Disk V → Except IoError α} (h : ∀ a, f d = .ok a → R a) :
    Observes d (query f) R := by
  intro w hw
  unfold Prog.Spec query step
  subst hw
  rcases htape : w.tape with _ | ⟨_ | _ | _, tape⟩ <;> simp only
  · cases hf : f w.disk with
    | ok a => exact ⟨rfl, h a hf⟩
    | error e => rfl
  · cases hf : f w.disk with
    | ok a => exact ⟨rfl, h a hf⟩
    | error e => rfl
  · rfl
  · rfl

theorem observes_attempt_query {f : Disk V → Except IoError α} {R : Except IoError α → Prop}
    (h : R (f d)) (hfault : R (.error .fault)) :
    Observes d (Prog.attempt (query f) : Prog (Machine V) ε _) R := by
  intro w hw
  rw [Prog.spec_attempt]
  unfold Prog.Spec query step
  subst hw
  rcases htape : w.tape with _ | ⟨_ | _ | _, tape⟩ <;> simp only
  · cases hf : f w.disk with
    | ok a => exact ⟨rfl, hf ▸ h⟩
    | error e => exact ⟨rfl, hf ▸ h⟩
  · cases hf : f w.disk with
    | ok a => exact ⟨rfl, hf ▸ h⟩
    | error e => exact ⟨rfl, hf ▸ h⟩
  · exact ⟨rfl, hfault⟩
  · rfl

theorem observes_settle : Observes d settle fun _ => True := observes_query fun _ _ => trivial

theorem Observes.ioAt {x : Prog (Machine V) IoError α} {context : String} {path : Path}
    (hx : Observes d x R) : Observes d (ioAt context path x) R := hx.mapError

theorem Observes.lookupAt {x : Prog (Machine V) IoError α} {context : String} {path : Path}
    (hx : Observes d x R) : Observes d (lookupAt context path x) R := hx.mapError

/-! ## The steps of the tree -/

variable [DecidableEq K]

/-- The entry a path names. -/
def lookup (p : Path) (disk : Disk V) : Except IoError (Path × Node Leaf) :=
  match disk.find p with
  | some e => .ok e
  | none => .error .notFound

/-- `symlink_metadata` and the opens that never follow a link. -/
def openEntry (p : Path) : Prog (Machine V) IoError (Path × Node Leaf) := query (lookup p)

/-- `read_dir`: the names of a directory. -/
def readDir (p : Path) : Prog (Machine V) IoError (List (OsStr × Node Leaf)) :=
  query fun disk => match disk.find p with
    | some (q, .dir) => .ok (disk.children q)
    | some _ => .error .accessDenied
    | none => .error .notFound

/-- `canonical`: the path as the volume spells it. -/
def canonical (p : Path) : Prog (Machine V) IoError Path :=
  query fun disk => (lookup p disk).map Prod.fst

/-- The longest existing prefix of a path, as the volume spells it, and the rest. -/
def weaklyCanonicalFrom (disk : Disk V) : Path → Path → Path
  | base, [] => base
  | base, a :: rest =>
    match disk.find (base ++ [a]) with
    | some (q, _) => weaklyCanonicalFrom disk q rest
    | none => base ++ a :: rest

/-- `weakly_canonical`. -/
def weaklyCanonical (p : Path) : Prog (Machine V) IoError Path :=
  query fun disk => .ok (weaklyCanonicalFrom disk [] p)

/-- The bytes of an open file. -/
def readFile (p : Path) : Prog (Machine V) IoError Bytes :=
  query fun disk => match disk.find p with
    | some (_, .leaf (.file data _)) => .ok data
    | some _ => .error .accessDenied
    | none => .error .notFound

/-- Exclusive creation of `n` at `p`, with the path it got. -/
def createEntry (n : Node Leaf) (p : Path) (disk : Disk V) : Except IoError (Path × Disk V) :=
  match disk.create p n with
  | some e => .ok e
  | none => .error (if (disk.find p).isSome then .alreadyExists else .notFound)

/-- A temporary entry of the run comes into being: its creation is recorded. -/
def makeEntry (n : Node Leaf) (p : Path) : Prog (Machine V) IoError Path :=
  step fun w => (createEntry n p w.disk).map fun (q, disk) =>
    (q, { w with disk, made := w.made ++ [q] })

/-- `write_all` to the file at `p`: all of it, or the part that reached the disk. -/
def writeAll (p : Path) (bytes : Bytes) : Prog (Machine V) IoError Unit := fun w =>
  let written := fun tape k => { w with tape, disk := w.disk.update p (.file (bytes.take k) 1) }
  match w.tape with
  | [] => (.done (), written [] bytes.length)
  | .ok :: tape => (.done (), written tape bytes.length)
  | .refused k :: tape => (.fail .fault, written tape k)
  | .crash k :: tape => (.crash, written tape k)

/-- `delete_by_handle` of the entry at exactly `p`. -/
def deleteByHandle (p : Path) : Prog (Machine V) IoError Unit :=
  change fun disk => match disk.erase p with
    | some disk => .ok ((), disk)
    | none => .error .notEmpty

/-- `remove_dir` of the directory `p` names, which must be empty. -/
def removeDir (p : Path) : Prog (Machine V) IoError Unit :=
  change fun disk => match disk.find p with
    | some (q, .dir) => match disk.erase q with
      | some disk => .ok ((), disk)
      | none => .error .notEmpty
    | some _ => .error .accessDenied
    | none => .error .notFound

/-- Whether a rename may replace an existing file. -/
inductive RenameMode
  | replace
  | noReplace
  deriving DecidableEq, Repr

/-- The rename of the file `p` names to `q`, with the path it got. A directory is never replaced. -/
def renameEntry (mode : RenameMode) (p q : Path) (disk : Disk V) : Except IoError (Path × Disk V) :=
  match disk.find p with
  | some (p, .leaf b) =>
    let place := fun disk : Disk V =>
      match (disk.erase p).bind fun disk => disk.create q (.leaf b) with
      | some e => .ok e
      | none => .error .notFound
    match disk.find q, mode with
    | some (_, .dir), _ => .error .accessDenied
    | some (_, .leaf _), .noReplace => .error .alreadyExists
    | some (r, .leaf _), .replace =>
      match disk.erase r with
      | some disk => place disk
      | none => .error .notEmpty
    | none, _ => place disk
  | some _ => .error .accessDenied
  | none => .error .notFound

/-! ## The helpers of `run/staging.rs` -/

/-- What `inspect` says of an entry: a directory or a file. -/
inductive Kind
  | dir
  | file
  deriving DecidableEq, Repr

/-- `inspect`: the entry's kind, `none` when it is absent; a link, an unsupported type or a hard-linked
file fails. -/
def inspect (path : Path) : Prog (Machine V) StagingError (Option Kind) := do
  let metadata ← Prog.attempt (openEntry path)
  match metadata with
  | .error .notFound => return none
  | .error e => Prog.fail (.io "Inspect" path e)
  | .ok (_, .dir) => return some .dir
  | .ok (_, .leaf .link) =>
    Prog.fail (.unverified path "Staging contains a linked entry or reparse point.")
  | .ok (_, .leaf .other) =>
    Prog.fail (.unverified path "Staging contains an unsupported entry type.")
  | .ok (_, .leaf (.file _ links)) =>
    let _ ← ioAt "Inspect" path (openEntry path)
    ioAt "Inspect" path settle
    if links ≠ 1 then Prog.fail (.unverified path "Staging contains a hard-linked file.")
    else return some .file

/-- The text of an entry that opened as another type. -/
def unexpectedIdentity : String :=
  "The opened staging entry does not match its expected identity type."

/-- `pin_directory`: the ordinary directory at `path`, held open. -/
def pinDirectory (path : Path) : Prog (Machine V) StagingError Path := do
  let (pin, node) ← ioAt "Pin" path (openEntry path)
  ioAt "Inspect" path settle
  match node with
  | .dir => return pin
  | .leaf _ => Prog.fail (.unverified path unexpectedIdentity)

/-- `open_temporary_file`: the single-link file at `path`, held open for deletion. -/
def openTemporaryFile (path : Path) : Prog (Machine V) StagingError Path := do
  let (pin, node) ← ioAt "Open" path (openEntry path)
  ioAt "Inspect" path settle
  match node with
  | .leaf (.file _ 1) => return pin
  | _ => Prog.fail (.unverified path unexpectedIdentity)

/-- The loop of `pin_parent_directories` below `current`. The pins taken stay taken when it fails. -/
def pinParentsFrom : Path → Path → List Path →
    Prog (Machine V) StagingError (List Path × Except StagingError Bool)
  | _, [], pins => return (pins, .ok true)
  | current, name :: rest, pins => do
    let current := current ++ [name]
    if current ∈ pins then pinParentsFrom current rest pins
    else
      match ← (Prog.attempt (inspect current) : Prog (Machine V) StagingError _) with
      | .error e => return (pins, .error e)
      | .ok none => return (pins, .ok false)
      | .ok (some .file) =>
        return (pins, .error
          (.unverified current "A staging artifact parent is not an ordinary directory."))
      | .ok (some .dir) =>
        match ← (Prog.attempt (pinDirectory current) : Prog (Machine V) StagingError _) with
        | .error e => return (pins, .error e)
        | .ok _ => pinParentsFrom current rest (current :: pins)

/-- `pin_parent_directories`: pins each ordinary directory from the Mod Root down to `parent`, answering
`false` when one is absent. -/
def pinParentDirectories (parent : Path) (pins : List Path) :
    Prog (Machine V) StagingError (List Path × Except StagingError Bool) := pinParentsFrom [] parent pins

/-- `write_new_file`: exclusive creation and the flushed bytes; a failure after creation keeps the
file. -/
def writeNewFile (path : Path) (bytes : Bytes) : Prog (Machine V) StagingError Path := do
  match ← Prog.attempt (makeEntry (.leaf (.file [] 1)) path) with
  | .error .alreadyExists => Prog.fail (.collision path)
  | .error e => Prog.fail (.io "Create" path e)
  | .ok file =>
    ioAt "Write" path (writeAll file bytes)
    ioAt "Write" path settle
    return file

/-! ## What the helpers learn -/

theorem observes_lookup {p : Path} : Observes d (openEntry p) fun e => d.find p = some e :=
  observes_query fun e h => by
    unfold lookup at h
    split at h
    · next e' he => cases h; exact he
    · cases h

/-- What `inspect` learns of `p`. -/
def Inspected (d : Disk V) (p : Path) : Option Kind → Prop
  | none => d.find p = none
  | some .dir => ∃ q, d.find p = some (q, .dir)
  | some .file => ∃ q data, d.find p = some (q, .leaf (.file data 1))

theorem observes_inspect {p : Path} : Observes d (inspect p) (Inspected d p) := by
  unfold inspect
  have hopen : Observes d (Prog.attempt (openEntry p) : Prog (Machine V) StagingError _) fun o =>
      o = .error .fault ∨ o = lookup p d := observes_attempt_query (.inr rfl) (.inl rfl)
  refine hopen.bind fun o ho => ?_
  rcases ho with rfl | rfl
  · exact observes_fail
  · unfold lookup
    rcases hf : d.find p with _ | ⟨q, _ | _ | _ | _⟩
    · exact observes_pure hf
    · exact observes_pure ⟨q, hf⟩
    · next data links =>
      refine observes_lookup.ioAt.bind fun _ _ => observes_settle.ioAt.bind fun _ _ => ?_
      split_ifs with hl
      · exact observes_fail
      · rw [not_not] at hl
        exact observes_pure ⟨q, data, by rw [hf, hl]⟩
    · exact observes_fail
    · exact observes_fail

theorem observes_pinDirectory {p : Path} :
    Observes d (pinDirectory p) fun q => d.find p = some (q, .dir) := by
  refine observes_lookup.ioAt.bind fun e he => observes_settle.ioAt.bind fun _ _ => ?_
  obtain ⟨q, _ | _⟩ := e
  · exact observes_pure he
  · exact observes_fail

theorem observes_openTemporaryFile {p : Path} : Observes d (openTemporaryFile p) fun q =>
    ∃ data, d.find p = some (q, .leaf (.file data 1)) := by
  refine observes_lookup.ioAt.bind fun e he => observes_settle.ioAt.bind fun _ _ => ?_
  obtain ⟨q, n⟩ := e
  dsimp only
  split
  · next data => exact observes_pure ⟨data, he⟩
  · exact observes_fail

/-- A parent that is not there has an absent ancestor. -/
theorem observes_pinParentsFrom {rest : Path} : ∀ {current : Path} {pins : List Path},
    Observes d (pinParentsFrom current rest pins) fun r =>
      r.2 = .ok false → d.find (current ++ rest) = none := by
  induction rest with
  | nil => exact fun {_ _} => observes_pure fun h => by cases h
  | cons name rest ih =>
    intro current pins
    have here : ∀ pins, Observes d (pinParentsFrom (current ++ [name]) rest pins) fun r =>
        r.2 = .ok false → d.find (current ++ name :: rest) = none := fun pins =>
      ih.mono fun r h hr => by simpa using h hr
    unfold pinParentsFrom
    dsimp only
    split_ifs
    · exact here pins
    · refine observes_inspect.attempt.bind fun o ho => ?_
      rcases o with e | _ | _ | _
      · exact observes_pure fun h => by cases h
      · refine observes_pure fun _ => ?_
        have habsent : d.find (current ++ [name]) = none := ho _ rfl
        have := PathTree.find_append_eq_none habsent rest
        rwa [List.append_assoc, List.singleton_append] at this
      · refine observes_pinDirectory.attempt.bind fun o _ => ?_
        rcases o with e | _
        · exact observes_pure fun h => by cases h
        · exact here _
      · exact observes_pure fun h => by cases h

end Cao
