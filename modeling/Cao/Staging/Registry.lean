import Cao.Staging.Outside

/-!
# The temporary artifact registry

`TemporaryArtifactRegistry` of `run/artifacts.rs`: one list of the durable files the scope staged and of
the plain paths registered before their creation, with two ways out of it. Publication releases the
first, `commit` retains the second; Safety Cleanup closes the list and removes what is left.

* `registerArtifact`, `commit`, `cleanup`, `act`: the operations, and those of the scope in it;
* `Kept`: the invariant of a run;
* **`registry_keeps`**: receipts publish once, what they published stands, and nothing the root held goes;
* **`registry_closed`**: Safety Cleanup is the last thing that happens.
-/

namespace Cao.Registry

variable {K : Type} {V : Volume K} {ε α : Type}

/-! ## State -/

/-- `Artifact`: a durable staged file, by its position among these, or a plain registration. -/
inductive Artifact
  | durable (position : Nat)
  | plain (path : Path) (committed : Bool)
  deriving DecidableEq, Repr

/-- `Registration`. -/
structure Registration where
  registry : Nat
  index : Nat
  deriving DecidableEq, Repr

/-- `Inner`: the scope with its durable files, and the list. `published` records the receipts that
committed a destination. -/
structure TemporaryArtifactRegistry {K : Type} (V : Volume K) where
  machine : Machine V
  id : Nat
  artifacts : List Artifact
  published : List Nat

/-- `TemporaryArtifactRegistry::new`. -/
def TemporaryArtifactRegistry.new (disk : Disk V) (tape : List Fate) (runId : Text) (id : Nat) :
    TemporaryArtifactRegistry V := ⟨Machine.start disk tape runId, id, [], []⟩

/-- A program of the scope, in its registry. -/
def onMachine (x : Prog (Machine V) ε α) : Prog (TemporaryArtifactRegistry V) ε α := fun r =>
  match x r.machine with
  | (o, machine) => (o, { r with machine })

theorem spec_onMachine {x : Prog (Machine V) ε α} {r : TemporaryArtifactRegistry V}
    {Q : α → TemporaryArtifactRegistry V → Prop} {E : ε → TemporaryArtifactRegistry V → Prop}
    {C : TemporaryArtifactRegistry V → Prop} :
    Prog.Spec (onMachine x) r Q E C ↔ Prog.Spec x r.machine (fun a w => Q a { r with machine := w })
      (fun e w => E e { r with machine := w }) fun w => C { r with machine := w } := by
  unfold Prog.Spec onMachine
  obtain ⟨o, w⟩ := x r.machine
  cases o <;> rfl

/-- `artifact.path`. -/
def TemporaryArtifactRegistry.path (r : TemporaryArtifactRegistry V) : Artifact → Option Path
  | .durable position => r.machine.durable[position]?.map Registered.path
  | .plain path _ => some path

/-- `artifact.committed`. -/
def TemporaryArtifactRegistry.isCommitted (r : TemporaryArtifactRegistry V) : Artifact → Bool
  | .durable position => r.machine.durable[position]?.any Registered.committed
  | .plain _ committed => committed

variable [DecidableEq K]

/-! ## Operations -/

/-- Failing as the registry does. -/
def invalid (detail : String) : Prog (TemporaryArtifactRegistry V) StagingError α := Prog.fail (.invalid detail)

/-- The detail of a registration without an entry name. -/
def needsEntryPath : String := "A temporary artifact needs an absolute entry path."

/-- A name Win32 strips or reads as a stream. -/
def aliasedName (name : Text) : Bool := name.getLast? = some '.' || name.getLast? = some ' ' || ':' ∈ name

/-- `register_artifact`. -/
def registerArtifact (path : Path) : Prog (TemporaryArtifactRegistry V) StagingError Registration := do
  onMachine openRegistry
  match path.getLast? with
  | none => invalid needsEntryPath
  | some name =>
    if name = OsStr.ofText ['.'] ∨ name = OsStr.ofText ['.', '.'] then invalid needsEntryPath
    else
      let parent ← onMachine (lookupAt "Resolve" path.dropLast (weaklyCanonical path.dropLast))
      let normalized := parent ++ [name]
      if normalized.any fun name => aliasedName name.lossy then
        invalid "A temporary artifact needs an unambiguous Windows path."
      else
        match ← (Prog.attempt (onMachine (openEntry normalized)) : Prog (TemporaryArtifactRegistry V) StagingError _) with
        | .ok _ => invalid "An existing entry cannot become a temporary artifact."
        | .error .notFound =>
          let r ← Prog.get
          if r.artifacts.any fun artifact => (r.path artifact).any fun path => path.map V.fold = normalized.map V.fold then
            invalid "The temporary artifact is already registered."
          else
            Prog.modify fun r => { r with artifacts := r.artifacts ++ [.plain normalized false] }
            return ⟨r.id, r.artifacts.length⟩
        | .error error => Prog.fail (.io "Inspect temporary artifact" normalized error)

/-- The detail of a registration that is foreign, unknown or committed. -/
def notOwnedRegistration : String := "The temporary artifact registration is no longer owned."

/-- `commit`: a plain registration is retained. -/
def commit (registration : Registration) : Prog (TemporaryArtifactRegistry V) StagingError Unit := do
  onMachine openRegistry
  let r ← Prog.get
  match r.artifacts[registration.index]? with
  | none => invalid notOwnedRegistration
  | some artifact =>
    if registration.registry ≠ r.id ∨ r.isCommitted artifact = true then invalid notOwnedRegistration
    else match artifact with
      | .durable _ => invalid "Durable staged files require a publication receipt."
      | .plain path _ =>
        Prog.modify fun r => { r with artifacts := r.artifacts.set registration.index (.plain path true) }

/-- Why a registered path was not removed. -/
inductive CleanupDetail
  /-- "The temporary artifact parent changed." -/
  | parentChanged
  | system (error : IoError)
  deriving DecidableEq, Repr

/-- `remove_file`: the entry itself, were it a link. -/
def removeFile (path : Path) : Prog (Machine V) IoError Unit :=
  change fun disk => match disk.find path with
    | some (q, .leaf _) => match disk.erase q with
      | some disk => .ok ((), disk)
      | none => .error .notEmpty
    | some _ => .error .accessDenied
    | none => .error .notFound

/-- `remove_registered`. -/
def removeRegistered (path : Path) : Prog (Machine V) CleanupDetail Unit := do
  let parent := path.dropLast
  let resolved ← (weaklyCanonical parent).mapError .system
  if resolved.map V.fold ≠ parent.map V.fold then Prog.fail .parentChanged
  else match ← Prog.attempt (openEntry path) with
    | .error .notFound => return ()
    | .error error => Prog.fail (.system error)
    | .ok (_, .dir) => (removeDir path).mapError .system
    | .ok (_, .leaf _) => (removeFile path).mapError .system

/-- The plain registrations of `cleanup`, the last first, each attempted; the failures. -/
def removeArtifacts (artifacts : List Artifact) : Prog (Machine V) StagingError (List (Path × CleanupDetail)) :=
  Prog.foldEach (fun failures artifact => match artifact with
    | .plain path false => do
      match ← (Prog.attempt (removeRegistered path) : Prog (Machine V) StagingError _) with
      | .ok () => return failures
      | .error detail => return failures ++ [(path, detail)]
    | _ => return failures) [] artifacts.reverse

/-- `cleanup`: the failures of the plain registrations, then those of the scope. -/
def cleanup : Prog (TemporaryArtifactRegistry V) StagingError
    (List (Path × CleanupDetail) × List (Path × StagingError)) := do
  let r ← Prog.get
  if r.machine.cleaned then return ([], [])
  else
    Prog.modify fun r => { r with machine := { r.machine with cleaned := true } }
    let failures ← onMachine (removeArtifacts r.artifacts)
    let staging ← onMachine cleanupArtifacts
    return (failures, staging)

/-- Whether an operation of the scope pushes a durable artifact. -/
def stages : Operation → Bool
  | .stageFile .. | .stageForPublication .. | .stageArchive .. => true
  | _ => false

/-- What the registry holds after an operation of its scope. -/
def TemporaryArtifactRegistry.moved (r : TemporaryArtifactRegistry V) (operation : Operation)
    (o : Outcome StagingError Unit) (machine : Machine V) : TemporaryArtifactRegistry V :=
  { r with
    machine
    artifacts := if stages operation ∧ o = .done () then r.artifacts ++ [.durable r.machine.durable.length] else r.artifacts
    published := if r.machine.committed.length < machine.committed.length then
        r.published ++ operation.receiptIndex.toList
      else r.published }

/-- An operation of the scope, through its registry. -/
def stage (root : Text) (operation : Operation) : Prog (TemporaryArtifactRegistry V) StagingError Unit := fun r =>
  match perform root operation r.machine with
  | (o, machine) => (o, r.moved operation o machine)

/-- What a run asks of its registry, and the creation of an entry by a producer. -/
inductive Act
  | scope (operation : Operation)
  | register (path : Path)
  | commit (registration : Registration)
  | create (node : Node Leaf) (path : Path)

/-- One act. -/
def act (root : Text) : Act → Prog (TemporaryArtifactRegistry V) StagingError Unit
  | .scope .cleanup => do
    let _ ← cleanup
  | .scope operation => stage root operation
  | .register path => do
    let _ ← registerArtifact path
  | .commit registration => commit registration
  | .create node path => do
    let _ ← onMachine (ioAt "Create" path (change (createEntry node path)))

/-- A run: its acts one after another, each of which may fail, until the process dies. -/
def run (root : Text) (acts : List Act) : Prog (TemporaryArtifactRegistry V) StagingError Unit :=
  Prog.forEach acts fun a => do
    let _ ← (Prog.attempt (act root a) : Prog (TemporaryArtifactRegistry V) StagingError _)

variable {root runId : Text} {disk : Disk V} {r r' : TemporaryArtifactRegistry V} {w w' : Machine V} {p q : Path}
variable {n : Node Leaf} {dest gone : Path → Prop}

/-! ## The invariant -/

/-- **What holds in a run** that began on `disk`: a receipt published is used, and published once; a
committed destination stands, or Safety Cleanup took it under a registration never retained; and what the
root held is there, or a destination replaced it. -/
structure Kept (disk : Disk V) (root runId : Text) (r : TemporaryArtifactRegistry V) : Prop where
  ledger : r.machine.cleaned = true ∨ ∃ used, Ledger False root runId used r.machine
  listed : Listed r.machine
  unreserved : ∀ q ∈ r.machine.committed, hasStagingComponent q = false
  once : r.published.Nodup
  used : ∀ i ∈ r.published, Used r.machine i
  stands : ∀ q ∈ r.machine.committed, Stands r.machine.disk q ∨
    r.machine.cleaned = true ∧ ∃ p, .plain p false ∈ r.artifacts ∧ p.map V.fold = q.map V.fold
  held : ∀ p n, hasStagingComponent p = false → disk.Has p n →
    r.machine.disk.Has p n ∨ ∃ q ∈ r.machine.committed, q.map V.fold = p.map V.fold
  -- a registered path was absent when it was registered
  fresh : ∀ p, .plain p false ∈ r.artifacts → ∀ q n, hasStagingComponent q = false → disk.Has q n →
    q.map V.fold = p.map V.fold → ∃ q' ∈ r.machine.committed, q'.map V.fold = q.map V.fold

omit [DecidableEq K] in
theorem kept_new (disk : Disk V) (tape : List Fate) (root runId : Text) (id : Nat) :
    Kept disk root runId (.new disk tape runId id) where
  ledger := .inr ⟨[], ledger_start⟩
  listed := ⟨nofun, nofun⟩
  unreserved := nofun
  once := List.nodup_nil
  used := nofun
  stands := nofun
  held := fun _ _ _ hp => .inl hp
  fresh := nofun

omit [DecidableEq K] in
/-- A step of the scope. -/
theorem Kept.stays (h : Kept disk root runId r) (hs : Stays dest r.machine w')
    (hledger : w'.cleaned = true ∨ ∃ used, Ledger False root runId used w') :
    Kept disk root runId { r with machine := w' } := by
  obtain ⟨since, hmoved⟩ := hs.moved
  have hmem : ∀ q, q ∈ w'.committed ↔ q ∈ r.machine.committed ∨ q ∈ since := fun q => by
    rw [hmoved.committed, List.mem_append]
  -- what stood outside stands, or a destination took its place
  have hstill : ∀ p n, hasStagingComponent p = false → r.machine.disk.Has p n →
      w'.disk.Has p n ∨ ∃ q ∈ since, q.map V.fold = p.map V.fold := by
    intro p n hp hhas
    by_cases hover : ∃ q ∈ since, q.map V.fold = p.map V.fold
    · exact .inr hover
    · exact .inl ((hmoved.disk p n hp fun q hq heq => hover ⟨q, hq, heq⟩).mpr hhas)
  refine ⟨hledger, hs.listed, fun q hq => ?_, h.once, fun i hi => hs.used i (h.used i hi), fun q hq => ?_,
    fun p n hp hhas => ?_, fun p hp q n hq hhas heq => ?_⟩
  · rcases (hmem q).mp hq with hq | hq
    · exact h.unreserved q hq
    · exact (hmoved.stands q hq).2.1
  · rcases (hmem q).mp hq with hq | hq
    · rcases h.stands q hq with ⟨t, b, hfold, hhas⟩ | ⟨hcleaned, hlive⟩
      · rcases hstill t _ ((hasStagingComponent_fold hfold).trans (h.unreserved q hq)) hhas with hhas | ⟨q', hq', heq⟩
        · exact .inl ⟨t, b, hfold, hhas⟩
        · obtain ⟨-, -, t', b', hfold', hhas'⟩ := hmoved.stands q' hq'
          exact .inl ⟨t', b', (hfold'.trans heq).trans hfold, hhas'⟩
      · exact .inr ⟨hs.cleaned hcleaned, hlive⟩
    · exact .inl (hmoved.stands q hq).2.2
  · rcases h.held p n hp hhas with hhas | ⟨q, hq, heq⟩
    · rcases hstill p n hp hhas with hhas | ⟨q, hq, heq⟩
      · exact .inl hhas
      · exact .inr ⟨q, (hmem q).mpr (.inr hq), heq⟩
    · exact .inr ⟨q, (hmem q).mpr (.inl hq), heq⟩
  · obtain ⟨q', hq', heq'⟩ := h.fresh p hp q n hq hhas heq
    exact ⟨q', (hmem q').mpr (.inl hq'), heq'⟩

omit [DecidableEq K] in
/-- A step that only read. -/
theorem Kept.same (h : Kept disk root runId r) (hs : Same r.machine w') : Kept disk root runId { r with machine := w' } := by
  have hself : Stays (fun _ => False) r.machine r.machine := .refl h.listed
  refine h.stays (hself.inside hs.inside) ?_
  rcases h.ledger with hcleaned | ⟨used, hledger⟩
  · exact .inl ((hself.inside hs.inside).cleaned hcleaned)
  · exact .inr ⟨used, hledger.same hs⟩

omit [DecidableEq K] in
/-- More entries outside the namespace. -/
theorem Kept.grown (h : Kept disk root runId r) (hframe : w' = { r.machine with disk := w'.disk, tape := w'.tape })
    (hold : ∀ p n, r.machine.disk.Has p n → w'.disk.Has p n)
    (hinside : ∀ p n, hasStagingComponent p = true → (w'.disk.Has p n ↔ r.machine.disk.Has p n)) :
    Kept disk root runId { r with machine := w' } := by
  have hcommitted : w'.committed = r.machine.committed := by rw [hframe]
  have hcleaned : w'.cleaned = r.machine.cleaned := by rw [hframe]
  refine ⟨?_, ⟨?_, ?_⟩, hcommitted ▸ h.unreserved, h.once, ?_, fun q hq => ?_, fun p n hp hhas => ?_, hcommitted ▸ h.fresh⟩
  · exact h.ledger.imp (fun hc => hcleaned.trans hc) fun ⟨used, hledger⟩ => ⟨used, hledger.outside hframe hinside⟩
  · rw [hframe]
    exact h.listed.artifacts
  · rw [hframe]
    exact h.listed.durable
  · rw [hframe]
    exact h.used
  · rcases h.stands q (hcommitted ▸ hq) with ⟨t, b, hfold, hhas⟩ | ⟨hc, hlive⟩
    · exact .inl ⟨t, b, hfold, hold t _ hhas⟩
    · exact .inr ⟨hcleaned.trans hc, hlive⟩
  · rw [hcommitted]
    exact (h.held p n hp hhas).imp (hold p n) id

omit [DecidableEq K] in
/-- The registration of an absent path. -/
theorem Kept.registered (h : Kept disk root runId r) (hfree : ∀ q n, q.map V.fold = p.map V.fold → ¬r.machine.disk.Has q n) :
    Kept disk root runId { r with artifacts := r.artifacts ++ [.plain p false] } := by
  refine ⟨h.ledger, h.listed, h.unreserved, h.once, h.used, fun q hq => ?_, h.held, fun path hmem q n hq hhas heq => ?_⟩
  · rcases h.stands q hq with hstands | ⟨hcleaned, path, hlive, heq⟩
    · exact .inl hstands
    · exact .inr ⟨hcleaned, path, List.mem_append_left _ hlive, heq⟩
  · rcases List.mem_append.mp hmem with hmem | hmem
    · exact h.fresh path hmem q n hq hhas heq
    · rw [List.mem_singleton, Artifact.plain.injEq] at hmem
      rw [hmem.1] at heq
      exact (h.held q n hq hhas).resolve_left (hfree q n heq)

omit [DecidableEq K] in
/-- A list with no other live registration. -/
theorem Kept.relist (h : Kept disk root runId r) (artifacts : List Artifact)
    (hback : ∀ p, .plain p false ∈ artifacts → .plain p false ∈ r.artifacts)
    (hthere : r.machine.cleaned = true → ∀ p, .plain p false ∈ r.artifacts → .plain p false ∈ artifacts) :
    Kept disk root runId { r with artifacts } := by
  refine ⟨h.ledger, h.listed, h.unreserved, h.once, h.used, fun q hq => ?_, h.held, fun p hp => h.fresh p (hback p hp)⟩
  rcases h.stands q hq with hstands | ⟨hcleaned, p, hp, heq⟩
  · exact .inl hstands
  · exact .inr ⟨hcleaned, p, hthere hcleaned p hp, heq⟩

omit [DecidableEq K] in
/-- An operation of the scope. -/
theorem Kept.moved (h : Kept disk root runId r) {operation : Operation} {o : Outcome StagingError Unit}
    (hs : Stays dest r.machine w') (hspent : Spent operation r.machine w')
    (hledger : w'.cleaned = true ∨ ∃ used, Ledger False root runId used w') :
    Kept disk root runId (r.moved operation o w') := by
  have hplain : ∀ p, Artifact.plain p false ∈ (r.moved operation o w').artifacts ↔ .plain p false ∈ r.artifacts := by
    intro p
    unfold TemporaryArtifactRegistry.moved
    dsimp only
    split <;> simp
  have hlisted := (h.stays hs hledger).relist (r.moved operation o w').artifacts
    (fun p hp => (hplain p).mp hp) fun _ p hp => (hplain p).mpr hp
  refine { hlisted with once := ?_, used := fun i hi => ?_ }
  · unfold TemporaryArtifactRegistry.moved
    dsimp only
    split
    · next hgrew =>
      rcases hspent with hsame | ⟨index, hindex, hunused, -⟩
      · rw [hsame] at hgrew
        omega
      · rw [hindex, Option.toList_some]
        refine List.nodup_append.mpr ⟨h.once, List.nodup_singleton _, ?_⟩
        rintro i hi j hj rfl
        rw [List.mem_singleton.mp hj] at hi
        exact hunused (h.used index hi)
    · exact h.once
  · unfold TemporaryArtifactRegistry.moved at hi
    dsimp only at hi
    split at hi
    · next hgrew =>
      rcases hspent with hsame | ⟨index, hindex, -, hused⟩
      · rw [hsame] at hgrew
        omega
      · rw [hindex, Option.toList_some] at hi
        rcases List.mem_append.mp hi with hi | hi
        · exact hs.used i (h.used i hi)
        · rw [List.mem_singleton.mp hi]
          exact hused
    · exact hs.used i (h.used i hi)

/-! ### A closed registry -/

omit [DecidableEq K] in
theorem spec_openRegistry : Prog.Spec openRegistry w (fun _ w' => w' = w ∧ w.cleaned = false) (fun _ w' => w' = w)
    fun _ => False := by
  unfold openRegistry
  rw [Prog.spec_bind, Prog.spec_get]
  split
  · rfl
  · next hopen => exact ⟨rfl, Bool.eq_false_iff.mpr hopen⟩

omit [DecidableEq K] in
theorem openRegistry_closed (hcleaned : w.cleaned = true) :
    openRegistry w = (.fail (.invalid "Temporary artifact registration is closed."), w) := by
  unfold openRegistry
  rw [Prog.bind_of_done (show Prog.get w = (.done w, w) from rfl)]
  simp [hcleaned, Cao.invalid, Prog.fail]

/-- **After Safety Cleanup** the scope stages nothing, and moves nothing outside the namespace. -/
theorem closed_perform (operation : Operation) (hlisted : Listed w) (hcleaned : w.cleaned = true)
    (hother : operation ≠ .cleanup) : Prog.Spec (perform root operation) w
      (fun _ w' => stages operation = false ∧ Stays (fun _ => False) w w') (fun _ w' => Stays (fun _ => False) w w')
      (Stays (fun _ => False) w) := by
  have hself : Stays (fun _ => False) w w := .refl hlisted
  have hfails : ∀ {β : Type} {x : Prog (Machine V) StagingError β} {Q : β → Machine V → Prop}
      {f : Unit → Prog (Machine V) StagingError β}, x = openRegistry >>= f →
      Prog.Spec x w Q (fun _ w' => Stays (fun _ => False) w w') (Stays (fun _ => False) w) := by
    intro β x Q f hx
    unfold Prog.Spec
    rw [hx, Prog.bind_of_fail (openRegistry_closed hcleaned)]
    exact hself
  cases operation with
  | prepareRoot => exact hfails rfl
  | stageFile => exact hfails rfl
  | stageForPublication => exact hfails rfl
  | stageArchive => exact hfails rfl
  | publish index destination policy =>
    unfold perform publish
    rw [Prog.spec_bind, Prog.spec_get]
    split
    · next temporary receipt hget =>
      rw [Prog.spec_bind, Prog.spec_modify, if_pos hcleaned]
      have ht := hlisted.durable _ (List.mem_of_getElem? hget)
      exact hself.setDurable (i := index) (d := ⟨temporary, false, none⟩) ht rfl
    · exact hself
  | release temporary =>
    exact (keeps_stays_releaseFile w hself).mono (fun _ _ h => ⟨rfl, h⟩) (fun _ _ h => h) fun _ h => h
  | cleanup => exact absurd rfl hother

/-- **An operation of the scope keeps the invariant**, before Safety Cleanup or after it. -/
theorem keeps_stage (operation : Operation) (hother : operation ≠ .cleanup) :
    Prog.Keeps (Kept disk root runId) (stage root operation) := by
  intro r h
  have hkept : Prog.Spec (perform root operation) r.machine (fun _ w' => ∀ o, Kept disk root runId (r.moved operation o w'))
      (fun _ w' => ∀ o, Kept disk root runId (r.moved operation o w'))
      (fun w' => ∀ o, Kept disk root runId (r.moved operation o w')) := by
    by_cases hcleaned : r.machine.cleaned = true
    · have hend : ∀ {w'}, Stays (fun _ => False) r.machine w' → ∀ o, Kept disk root runId (r.moved operation o w') :=
        fun hs o => h.moved hs (.of_idle hs) (.inl (hs.cleaned hcleaned))
      exact (closed_perform operation h.listed hcleaned hother).mono (fun _ _ hs => hend hs.2) (fun _ _ hs => hend hs)
        fun _ hs => hend hs
    · obtain ⟨used, hledger⟩ := h.ledger.resolve_left hcleaned
      have hstays := stays_perform operation hledger (.refl h.listed : Stays (fun _ => True) r.machine r.machine)
        fun _ _ => trivial
      have hend : ∀ {w'}, Ledger False root runId (operation.nonces ++ used) w' ∧ Stays (fun _ => True) r.machine w' ∧
          Spent operation r.machine w' → ∀ o, Kept disk root runId (r.moved operation o w') :=
        fun hs o => h.moved hs.2.1 hs.2.2 (.inr ⟨_, hs.1⟩)
      exact ((spec_perform operation hledger False.elim False.elim).and
        (hstays.and (spent_perform operation hledger h.listed))).mono (fun _ _ hs => hend hs) (fun _ _ hs => hend hs)
          fun _ hs => hend hs
  have hend := hkept.ends
  unfold Prog.Spec stage
  cases hrun : perform root operation r.machine with
  | mk o w' =>
    rw [hrun] at hend
    cases o <;> exact hend _

/-! ### Plain registrations -/

omit [DecidableEq K] in
theorem keeps_observed {x : Prog (Machine V) ε α} {R : Disk V → α → Prop} (h : ∀ d, Observes d x (R d)) :
    Prog.Keeps (Kept (V := V) disk root runId) (onMachine x) := by
  intro r hr
  have hend : ∀ {w'}, Same r.machine w' → Kept disk root runId { r with machine := w' } := fun hs => hr.same hs
  exact spec_onMachine.mpr ((h _ r.machine rfl).mono (fun _ _ hs => hend hs.1) (fun _ _ hs => hend hs) fun _ hs => hend hs)

omit [DecidableEq K] in
theorem fold_weaklyCanonicalFrom [DecidableEq K] (d : Disk V) (rest : Path) (base : Path) :
    (weaklyCanonicalFrom d base rest).map V.fold = (base ++ rest).map V.fold := by
  induction rest generalizing base with
  | nil => simp [weaklyCanonicalFrom]
  | cons a rest ih =>
    unfold weaklyCanonicalFrom
    cases hfind : d.find (base ++ [a]) with
    | none => rfl
    | some e =>
      obtain ⟨q, n⟩ := e
      have hfold := PathTree.fold_of_find hfind
      dsimp only
      rw [ih, List.map_append, hfold]
      simp

/-- **A registration** is of a path that is absent. -/
theorem keeps_register (path : Path) : Prog.Keeps (Kept (V := V) disk root runId) (registerArtifact path) := by
  have hopen : Prog.Keeps (Kept (V := V) disk root runId) (onMachine openRegistry) := fun r hr =>
    spec_onMachine.mpr (spec_openRegistry.mono (fun _ _ h => by rw [h.1]; exact hr) (fun _ _ h => by rw [h]; exact hr)
      fun _ h => h.elim)
  unfold registerArtifact
  refine hopen.bind fun _ => ?_
  split
  · exact Prog.keeps_fail _
  next name _ =>
  split
  · exact Prog.keeps_fail _
  refine (keeps_observed (R := fun _ _ => True) fun _ => (observes_query fun _ _ => trivial).lookupAt).bind fun parent => ?_
  dsimp only
  split
  · exact Prog.keeps_fail _
  set normalized := parent ++ [name] with hnormalized
  intro r hr
  rw [Prog.spec_bind, Prog.spec_attempt, spec_onMachine]
  have habsent : Observes r.machine.disk (Prog.attempt (openEntry normalized) : Prog (Machine V) StagingError _)
      fun found => found = .error .notFound → r.machine.disk.find normalized = none := by
    refine observes_attempt_query (fun hfound => ?_) nofun
    unfold lookup at hfound
    split at hfound
    · cases hfound
    · next hnone => exact hnone
  refine (Prog.spec_attempt.mp (habsent r.machine rfl)).mono (fun _ w h => hr.same h.1) (fun e w h => ?_)
    fun w hs => hr.same hs
  have hs := h.1
  have hsame := hr.same hs
  cases e with
  | notFound =>
    have hnone := h.2
    have hfree : ∀ q n, q.map V.fold = normalized.map V.fold → ¬w.disk.Has q n := by
      intro q n heq hhas
      rw [hs.disk] at hhas
      exact (PathTree.find_eq_none (by simp [hnormalized])).mp (hnone rfl) q n hhas heq
    dsimp only
    rw [Prog.spec_bind, Prog.spec_get]
    split
    · exact hsame
    · rw [Prog.spec_bind, Prog.spec_modify, Prog.spec_pure]
      exact hsame.registered hfree
  | _ => exact hsame

omit [DecidableEq K] in
/-- **A retained registration** is no longer live. -/
theorem keeps_commit (registration : Registration) : Prog.Keeps (Kept (V := V) disk root runId) (commit registration) := by
  intro r h
  unfold commit
  rw [Prog.spec_bind, spec_onMachine]
  refine spec_openRegistry.mono (fun _ w ⟨hw, hopen⟩ => ?_) (fun _ w hw => by rw [hw]; exact h) fun _ hw => hw.elim
  rw [hw, Prog.spec_bind, Prog.spec_get]
  split
  · exact h
  next artifact _ =>
  split
  · exact h
  split
  · exact h
  · rw [Prog.spec_modify]
    refine h.relist _ (fun p hp => ?_) fun hcleaned => ?_
    · rcases List.mem_or_eq_of_mem_set hp with hp | hp
      · exact hp
      · cases hp
    · rw [hopen] at hcleaned
      cases hcleaned

/-- **The creation** of an entry outside the namespace. -/
theorem keeps_create {node : Node Leaf} {path : Path} (hpath : hasStagingComponent path = false) :
    Prog.Keeps (Kept (V := V) disk root runId) (onMachine (ioAt "Create" path (change (createEntry node path)))) := by
  intro r h
  refine spec_onMachine.mpr (Prog.spec_mapError.mpr (spec_change.mono (fun q w ⟨hs, hcreated⟩ => ?_)
    (fun _ _ hs => h.same hs.1) fun _ hs => h.same hs))
  unfold createEntry at hcreated
  split at hcreated
  · next e hcreate =>
    obtain ⟨q', d⟩ := e
    rw [Except.ok.injEq, Prod.mk.injEq] at hcreated
    obtain ⟨rfl, rfl⟩ := hcreated
    obtain ⟨hhas, -, -, hfold, -, -⟩ := PathTree.create_eq_some hcreate
    have hframe : w = { r.machine with disk := w.disk, tape := w.tape } := hs
    have hold : ∀ p n, r.machine.disk.Has p n → w.disk.Has p n := fun p n hp => (hhas p n).mpr (.inl hp)
    have hinside : ∀ p n, hasStagingComponent p = true → (w.disk.Has p n ↔ r.machine.disk.Has p n) := by
      intro p n hp
      rw [hhas]
      constructor
      · rintro (hp' | ⟨rfl, -⟩)
        · exact hp'
        · rw [hasStagingComponent_fold hfold, hpath] at hp
          cases hp
      · exact .inl
    exact h.grown hframe hold hinside
  · cases hcreated

/-! ### Safety Cleanup -/

/-- Entries in `gone` went, and no other; none of the memory changed. -/
structure Dropped (gone : Path → Prop) (w w' : Machine V) : Prop where
  frame : w' = { w with disk := w'.disk, tape := w'.tape }
  kept : ∀ p n, w.disk.Has p n → w'.disk.Has p n ∨ gone p

omit [DecidableEq K] in
theorem dropped_of_same (h : Same w w') : Dropped gone w w' := by
  refine ⟨?_, fun p n hp => .inl ?_⟩
  · rw [h]
  · rw [h.disk]
    exact hp

omit [DecidableEq K] in
theorem Dropped.trans {w₁ : Machine V} (h : Dropped gone w w₁) (h' : Dropped gone w₁ w') : Dropped gone w w' := by
  refine ⟨?_, fun p n hp => ?_⟩
  · rw [h'.frame, h.frame]
  · rcases h.kept p n hp with hp | hp
    · exact h'.kept p n hp
    · exact .inr hp

omit [DecidableEq K] in
/-- The removal of one entry. -/
theorem dropped_of_erase (hs : Shrunk w w') (he : w.disk.erase p = some w'.disk) (hp : gone p) : Dropped gone w w' := by
  refine ⟨hs, fun q n hq => ?_⟩
  by_cases hqp : q = p
  · exact .inr (hqp ▸ hp)
  · exact .inl ((PathTree.has_erase he).mpr ⟨hq, hqp⟩)

omit [DecidableEq K] in
/-- **Safety Cleanup** takes live registrations only. -/
theorem Kept.dropped (h : Kept disk root runId r) (hcleaned : r.machine.cleaned = true)
    (hd : Dropped (fun q => ∃ p, .plain p false ∈ r.artifacts ∧ p.map V.fold = q.map V.fold) r.machine w') :
    Kept disk root runId { r with machine := w' } := by
  have hcommitted : w'.committed = r.machine.committed := by rw [hd.frame]
  have hcleaned' : w'.cleaned = true := by
    rw [hd.frame]
    exact hcleaned
  refine ⟨.inl hcleaned', ⟨?_, ?_⟩, hcommitted ▸ h.unreserved, h.once, ?_, fun q hq => ?_, fun p n hp hhas => ?_, ?_⟩
  · rw [hd.frame]
    exact h.listed.artifacts
  · rw [hd.frame]
    exact h.listed.durable
  · rw [hd.frame]
    exact h.used
  · rcases h.stands q (hcommitted ▸ hq) with ⟨t, b, hfold, hhas⟩ | ⟨-, hlive⟩
    · rcases hd.kept t _ hhas with hhas | ⟨p, hp, heq⟩
      · exact .inl ⟨t, b, hfold, hhas⟩
      · exact .inr ⟨hcleaned', p, hp, heq.trans hfold⟩
    · exact .inr ⟨hcleaned', hlive⟩
  · rw [hcommitted]
    rcases h.held p n hp hhas with hp' | hreplaced
    · rcases hd.kept p n hp' with hp' | ⟨path, hlive, heq⟩
      · exact .inl hp'
      · exact .inr (h.fresh path hlive p n hp hhas heq.symm)
    · exact .inr hreplaced
  · rw [hcommitted]
    exact h.fresh

theorem spec_removeDir : Prog.Spec (removeDir p) w (fun _ w' => Dropped (fun q => p.map V.fold = q.map V.fold) w w')
    (fun _ w' => Same w w') (Same w) := by
  refine spec_change.mono (fun _ w' ⟨hs, hd⟩ => ?_) (fun _ _ hs => hs.1) fun _ hs => hs
  split at hd
  · next r hfind =>
    split at hd
    · next d herase =>
      rw [Except.ok.injEq, Prod.mk.injEq] at hd
      exact dropped_of_erase hs (hd.2 ▸ herase) (PathTree.fold_of_find hfind).symm
    · cases hd
  · cases hd
  · cases hd

theorem spec_removeFile : Prog.Spec (removeFile p) w (fun _ w' => Dropped (fun q => p.map V.fold = q.map V.fold) w w')
    (fun _ w' => Same w w') (Same w) := by
  refine spec_change.mono (fun _ w' ⟨hs, hd⟩ => ?_) (fun _ _ hs => hs.1) fun _ hs => hs
  split at hd
  · next r _ hfind =>
    split at hd
    · next d herase =>
      rw [Except.ok.injEq, Prod.mk.injEq] at hd
      exact dropped_of_erase hs (hd.2 ▸ herase) (PathTree.fold_of_find hfind).symm
    · cases hd
  · cases hd
  · cases hd

/-- **One registered path**: it goes, or nothing does. -/
theorem spec_removeRegistered : Prog.Spec (removeRegistered p) w
    (fun _ w' => Dropped (fun q => p.map V.fold = q.map V.fold) w w')
    (fun _ w' => Dropped (fun q => p.map V.fold = q.map V.fold) w w')
    (Dropped (fun q => p.map V.fold = q.map V.fold) w) := by
  unfold removeRegistered
  rw [Prog.spec_bind]
  have hparent : Observes w.disk (weaklyCanonical p.dropLast : Prog (Machine V) IoError Path) fun _ => True :=
    observes_query fun _ _ => trivial
  refine Prog.spec_mapError.mpr ((hparent w rfl).mono (fun resolved w₁ ⟨h₁, _⟩ => ?_) (fun _ _ hs => dropped_of_same hs)
    fun _ hs => dropped_of_same hs)
  split
  · exact dropped_of_same h₁
  rw [Prog.spec_bind, Prog.spec_attempt]
  refine (observes_lookup w₁ rfl).mono (fun e w₂ ⟨h₂, _⟩ => ?_) (fun e w₂ hs => ?_) fun _ hs =>
    dropped_of_same (h₁.trans hs)
  · have hsame : Dropped (fun q => p.map V.fold = q.map V.fold) w w₂ := dropped_of_same (h₁.trans h₂)
    obtain ⟨q, node⟩ := e
    cases node with
    | dir =>
      exact Prog.spec_mapError.mpr (spec_removeDir.mono (fun _ _ h => hsame.trans h) (fun _ _ hs => hsame.trans (dropped_of_same hs))
        fun _ hs => hsame.trans (dropped_of_same hs))
    | leaf b =>
      exact Prog.spec_mapError.mpr (spec_removeFile.mono (fun _ _ h => hsame.trans h) (fun _ _ hs => hsame.trans (dropped_of_same hs))
        fun _ hs => hsame.trans (dropped_of_same hs))
  · cases e <;> exact dropped_of_same (h₁.trans hs)

/-- **The loop over the registrations** drops the live ones. -/
theorem spec_removeArtifacts {artifacts : List Artifact} : Prog.Spec (removeArtifacts artifacts) w
    (fun _ w' => Dropped (fun q => ∃ p, .plain p false ∈ artifacts ∧ p.map V.fold = q.map V.fold) w w')
    (fun _ w' => Dropped (fun q => ∃ p, .plain p false ∈ artifacts ∧ p.map V.fold = q.map V.fold) w w')
    (Dropped (fun q => ∃ p, .plain p false ∈ artifacts ∧ p.map V.fold = q.map V.fold) w) := by
  set gone : Path → Prop := fun q => ∃ p, .plain p false ∈ artifacts ∧ p.map V.fold = q.map V.fold with hgone
  unfold removeArtifacts
  refine (Prog.Spec.foldEach (E := fun _ : StagingError => Dropped gone w) (C := Dropped gone w)
    (I := fun _ after (_ : List (Path × CleanupDetail)) w' => Dropped gone w w' ∧ ∀ a ∈ after, a ∈ artifacts)
    (fun before a after failures w₁ ⟨h₁, hmem⟩ => ?_) [] artifacts.reverse
    ⟨dropped_of_same (.refl w), fun a ha => List.mem_reverse.mp ha⟩).mono (fun _ _ h => h.1) (fun _ _ h => h) fun _ h => h
  have hrest : ∀ b ∈ after, b ∈ artifacts := fun b hb => hmem b (List.mem_cons_of_mem _ hb)
  cases a with
  | durable position => exact ⟨h₁, hrest⟩
  | plain path committed =>
    cases committed with
    | true => exact ⟨h₁, hrest⟩
    | false =>
      have hlive : Artifact.plain path false ∈ artifacts := hmem _ List.mem_cons_self
      have hwider : ∀ {w₂}, Dropped (fun q => path.map V.fold = q.map V.fold) w₁ w₂ → Dropped gone w w₂ := fun h₂ =>
        h₁.trans ⟨h₂.frame, fun p n hp => (h₂.kept p n hp).imp id fun heq => ⟨path, hlive, heq⟩⟩
      dsimp only
      rw [Prog.spec_bind, Prog.spec_attempt]
      exact spec_removeRegistered.mono (fun _ _ h₂ => ⟨hwider h₂, hrest⟩) (fun _ _ h₂ => ⟨hwider h₂, hrest⟩) fun _ h₂ =>
        hwider h₂

/-- **Safety Cleanup** keeps the invariant and closes the registry. -/
theorem spec_cleanup (h : Kept disk root runId r) : Prog.Spec cleanup r
    (fun _ r' => Kept disk root runId r' ∧ r'.machine.cleaned = true)
    (fun _ r' => Kept disk root runId r' ∧ r'.machine.cleaned = true) (Kept disk root runId) := by
  unfold cleanup
  rw [Prog.spec_bind, Prog.spec_get]
  split
  · next hcleaned => exact ⟨h, hcleaned⟩
  rw [Prog.spec_bind, Prog.spec_modify]
  have hstays : Stays (fun _ => False) r.machine { r.machine with cleaned := true } :=
    ⟨⟨h.listed.artifacts, h.listed.durable⟩, fun _ => id, fun _ => rfl, [], (List.append_nil _).symm, nofun, fun _ _ _ _ => Iff.rfl⟩
  have h₁ := h.stays hstays (.inl rfl)
  rw [Prog.spec_bind, spec_onMachine]
  refine spec_removeArtifacts.mono (fun failures w₂ hd => ?_) (fun _ w₂ hd => ?_) fun w₂ hd => h₁.dropped rfl hd
  · have h₂ := h₁.dropped rfl hd
    have hcleaned₂ : w₂.cleaned = true := by rw [hd.frame]
    rw [Prog.spec_bind, spec_onMachine]
    have hend : ∀ {w₃}, Stays (fun _ => False) w₂ w₃ →
        Kept disk root runId { r with machine := w₃ } ∧ w₃.cleaned = true := fun hs =>
      ⟨h₂.stays hs (.inl (hs.cleaned hcleaned₂)), hs.cleaned hcleaned₂⟩
    exact (keeps_stays_cleanupArtifacts w₂ (.refl h₂.listed)).mono (fun _ _ hs => hend hs) (fun _ _ hs => hend hs)
      fun _ hs => (hend hs).1
  · refine ⟨h₁.dropped rfl hd, ?_⟩
    rw [hd.frame]

/-! ## Runs -/

theorem act_scope {operation : Operation} (h : operation ≠ .cleanup) :
    (act root (.scope operation) : Prog (TemporaryArtifactRegistry V) StagingError Unit) = stage root operation := by
  cases operation with
  | cleanup => exact absurd rfl h
  | prepareRoot | stageFile | stageForPublication | stageArchive | publish | release => rfl

/-- **One act keeps the invariant.** -/
theorem keeps_act (a : Act) (hcreated : ∀ node path, a = .create node path → hasStagingComponent path = false) :
    Prog.Keeps (Kept (V := V) disk root runId) (act root a) := by
  cases a with
  | scope operation =>
    by_cases hcleanup : operation = .cleanup
    · subst hcleanup
      intro r h
      unfold act
      rw [Prog.spec_bind]
      exact (spec_cleanup h).mono (fun _ _ h' => h'.1) (fun _ _ h' => h'.1) fun _ h' => h'
    · rw [act_scope hcleanup]
      exact keeps_stage operation hcleanup
  | register path => exact (keeps_register path).bind fun _ => Prog.keeps_pure _
  | commit registration => exact keeps_commit registration
  | create node path => exact (keeps_create (hcreated node path rfl)).bind fun _ => Prog.keeps_pure _

/-- **A run keeps the invariant**, and ends unless the process dies. -/
theorem spec_run (acts : List Act) (hcreated : ∀ node path, .create node path ∈ acts → hasStagingComponent path = false)
    (h : Kept disk root runId r) : Prog.Spec (run root acts) r (fun _ r' => Kept disk root runId r') (fun _ _ => False)
      (Kept disk root runId) := by
  have hloop := Prog.Spec.forEach (E := fun (_ : StagingError) (_ : TemporaryArtifactRegistry V) => False)
    (C := Kept disk root runId) (I := fun before after r => before ++ after = acts ∧ Kept disk root runId r)
    (f := fun a => do
      let _ ← (Prog.attempt (act root a) : Prog (TemporaryArtifactRegistry V) StagingError _))
    (fun before a after r₁ ⟨he, h₁⟩ => ?_) [] acts (s := r) ⟨rfl, h⟩
  · exact hloop.mono (fun _ _ h' => h'.2) (fun _ _ h' => h') fun _ h' => h'
  have hmem : a ∈ acts := by rw [← he]; simp
  have hnext : before ++ [a] ++ after = acts := by
    rw [List.append_assoc]
    exact he
  rw [Prog.spec_bind, Prog.spec_attempt]
  exact (keeps_act a (fun node path heq => hcreated node path (heq ▸ hmem)) r₁ h₁).mono (fun _ _ h₂ => ⟨hnext, h₂⟩)
    (fun _ _ h₂ => ⟨hnext, h₂⟩) fun _ h₂ => h₂

/-- **The registry keeps what it published.** In every run, whatever is asked of the registry and whatever
is refused, wherever it ends: each receipt committed at most once; a committed destination stands, unless
Safety Cleanup took it under a plain registration of the same name that was never retained; and every
entry the root held outside the namespace is there, or a committed destination replaced it. -/
theorem registry_keeps (root runId : Text) (id : Nat) (disk : Disk V) (tape : List Fate) (acts : List Act)
    (hcreated : ∀ node path, .create node path ∈ acts → hasStagingComponent path = false) :
    (run root acts (.new disk tape runId id)).2.published.Nodup ∧
    (∀ q ∈ (run root acts (.new disk tape runId id)).2.machine.committed,
      Stands (run root acts (.new disk tape runId id)).2.machine.disk q ∨
        (run root acts (.new disk tape runId id)).2.machine.cleaned = true ∧
          ∃ p, .plain p false ∈ (run root acts (.new disk tape runId id)).2.artifacts ∧ p.map V.fold = q.map V.fold) ∧
    ∀ p n, hasStagingComponent p = false → disk.Has p n →
      (run root acts (.new disk tape runId id)).2.machine.disk.Has p n ∨
        ∃ q ∈ (run root acts (.new disk tape runId id)).2.machine.committed, q.map V.fold = p.map V.fold := by
  have hkept : Kept disk root runId (run root acts (.new disk tape runId id)).2 :=
    ((spec_run acts hcreated (kept_new disk tape root runId id)).mono (fun _ _ h => h) (fun _ _ h => h.elim)
      fun _ h => h).ends
  exact ⟨hkept.once, hkept.stands, hkept.held⟩

/-- A producer registers the destination it then publishes to. -/
def overlapping : List Act :=
  [.register (["a".toList, "x.NIF".toList].map OsStr.ofText),
   .scope (.stageForPublication (["a".toList, "x.NIF".toList].map OsStr.ofText) (sampleNonce 10) (sampleNonce 11)),
   .scope (.publish 0 (["a".toList, "x.NIF".toList].map OsStr.ofText) .replace)]

/-- What its run leaves, after Safety Cleanup. -/
def overlapped : TemporaryArtifactRegistry asciiVolume :=
  (run "C:/M".toList (overlapping ++ [.scope .cleanup]) (.new sampleDisk [] "r".toList 0)).2

theorem registry_keeps_overlapped : overlapped.published.Nodup ∧
    (∀ q ∈ overlapped.machine.committed, Stands overlapped.machine.disk q ∨ overlapped.machine.cleaned = true ∧
      ∃ p, .plain p false ∈ overlapped.artifacts ∧ p.map asciiVolume.fold = q.map asciiVolume.fold) ∧
    ∀ p n, hasStagingComponent p = false → sampleDisk.Has p n → overlapped.machine.disk.Has p n ∨
      ∃ q ∈ overlapped.machine.committed, q.map asciiVolume.fold = p.map asciiVolume.fold := by
  unfold overlapped
  have hcreated : ∀ node path, Act.create node path ∈ overlapping ++ [Act.scope .cleanup] →
      hasStagingComponent path = false := by
    intro node path h
    simp only [overlapping, List.mem_append, List.mem_cons, List.not_mem_nil, or_false, reduceCtorEq] at h
  exact registry_keeps "C:/M".toList "r".toList 0 sampleDisk [] _ hcreated

-- the cleanup takes what was published under a live registration
example : overlapped.machine.committed = [["a".toList, "x.NIF".toList].map OsStr.ofText] ∧
    overlapped.machine.disk.find (["a".toList, "x.NIF".toList].map OsStr.ofText) = none := by decide +kernel

/-! ### After Safety Cleanup -/

/-- Nothing was registered, staged, published or retained, and nothing outside the namespace moved. -/
structure Idle (r r' : TemporaryArtifactRegistry V) : Prop where
  artifacts : r'.artifacts = r.artifacts
  published : r'.published = r.published
  stays : Stays (fun _ => False) r.machine r'.machine

omit [DecidableEq K] in
theorem Idle.trans {r₁ : TemporaryArtifactRegistry V} (h : Idle r r₁) (h' : Idle r₁ r') : Idle r r' :=
  ⟨h'.artifacts.trans h.artifacts, h'.published.trans h.published, h.stays.trans h'.stays⟩

omit [DecidableEq K] in
theorem Idle.outside (h : Idle r r') : r'.machine.committed = r.machine.committed ∧
    SameOutside r.machine.disk r'.machine.disk := by
  obtain ⟨since, hmoved⟩ := h.stays.moved
  have hsince : since = [] := List.eq_nil_iff_forall_not_mem.mpr fun q hq => (hmoved.stands q hq).1
  subst hsince
  exact ⟨by rw [hmoved.committed, List.append_nil], fun p n hp => hmoved.disk p n hp nofun⟩

theorem idle_stage (operation : Operation) (hother : operation ≠ .cleanup) (hlisted : Listed r.machine)
    (hcleaned : r.machine.cleaned = true) : Idle r (stage root operation r).2 := by
  have hclosed := @closed_perform _ _ _ root _ operation hlisted hcleaned hother
  unfold Prog.Spec at hclosed
  unfold stage
  cases hrun : perform root operation r.machine with
  | mk o w' =>
    rw [hrun] at hclosed
    have hstays : Stays (fun _ => False) r.machine w' ∧ ¬(stages operation = true ∧ o = .done ()) := by
      cases o with
      | done u => exact ⟨hclosed.2, by rw [hclosed.1]; simp⟩
      | fail e => exact ⟨hclosed, by simp⟩
      | crash => exact ⟨hclosed, by simp⟩
    have hself : Idle r { r with machine := w' } := ⟨rfl, rfl, hstays.1⟩
    refine ⟨?_, ?_, hstays.1⟩
    · unfold TemporaryArtifactRegistry.moved
      dsimp only
      rw [if_neg hstays.2]
    · unfold TemporaryArtifactRegistry.moved
      dsimp only
      rw [if_neg]
      rw [hself.outside.1]
      omega

/-- **A closed registry idles.** -/
theorem idle_act (a : Act) (hother : ∀ node path, a ≠ .create node path) (hlisted : Listed r.machine)
    (hcleaned : r.machine.cleaned = true) : Idle r (act root a r).2 := by
  have hself : Idle r r := ⟨rfl, rfl, .refl hlisted⟩
  have hopen : onMachine openRegistry r =
      ((.fail (.invalid "Temporary artifact registration is closed."), r) :
        Outcome StagingError Unit × TemporaryArtifactRegistry V) := by
    unfold onMachine
    rw [openRegistry_closed hcleaned]
  cases a with
  | scope operation =>
    by_cases hcleanup : operation = .cleanup
    · subst hcleanup
      have hdone : cleanup r = (.done ([], []), r) := by
        unfold cleanup
        rw [Prog.bind_of_done (show Prog.get r = (.done r, r) from rfl), if_pos hcleaned]
        rfl
      have hact : (act root (.scope .cleanup) : Prog (TemporaryArtifactRegistry V) StagingError Unit) =
          cleanup >>= fun _ => pure () := rfl
      rw [hact, Prog.bind_of_done hdone]
      exact hself
    · rw [act_scope hcleanup]
      exact idle_stage operation hcleanup hlisted hcleaned
  | register path =>
    have hfails : registerArtifact path r = (.fail (.invalid "Temporary artifact registration is closed."), r) := by
      unfold registerArtifact
      rw [Prog.bind_of_fail hopen]
    have hact : (act root (.register path) : Prog (TemporaryArtifactRegistry V) StagingError Unit) =
        registerArtifact path >>= fun _ => pure () := rfl
    rw [hact, Prog.bind_of_fail hfails]
    exact hself
  | commit registration =>
    have hact : (act root (.commit registration) : Prog (TemporaryArtifactRegistry V) StagingError Unit) =
        commit registration := rfl
    rw [hact]
    unfold commit
    rw [Prog.bind_of_fail hopen]
    exact hself
  | create node path => exact absurd rfl (hother node path)

theorem idle_run (acts : List Act) (hother : ∀ node path, .create node path ∉ acts) (hlisted : Listed r.machine)
    (hcleaned : r.machine.cleaned = true) : Idle r (run root acts r).2 := by
  have hloop := Prog.Spec.forEach (E := fun (_ : StagingError) => Idle r) (C := Idle r)
    (I := fun before after r₁ => before ++ after = acts ∧ Idle r r₁)
    (f := fun a => do
      let _ ← (Prog.attempt (act root a) : Prog (TemporaryArtifactRegistry V) StagingError _))
    (fun before a after r₁ ⟨he, h₁⟩ => ?_) [] acts (s := r) ⟨rfl, rfl, rfl, .refl hlisted⟩
  · exact (hloop.mono (fun _ _ h => h.2) (fun _ _ h => h) fun _ h => h).ends
  have hmem : a ∈ acts := by rw [← he]; simp
  have hnext : before ++ [a] ++ after = acts := by
    rw [List.append_assoc]
    exact he
  have hidle : Idle r (act root a r₁).2 :=
    h₁.trans (idle_act a (fun node path heq => hother node path (heq ▸ hmem)) h₁.stays.listed (h₁.stays.cleaned hcleaned))
  rw [Prog.spec_bind, Prog.spec_attempt]
  unfold Prog.Spec
  cases hrun : act root a r₁ with
  | mk o r₂ =>
    rw [hrun] at hidle
    cases o with
    | done u => exact ⟨hnext, hidle⟩
    | fail e => exact ⟨hnext, hidle⟩
    | crash => exact hidle

/-- **Safety Cleanup closes the registry.** Whatever is asked of the registry after its cleanup, a second
cleanup included, it registers, stages, publishes and retains nothing, and no entry outside the reserved
namespace comes or goes. -/
theorem registry_closed (root runId : Text) (id : Nat) (disk : Disk V) (tape : List Fate) (before later : List Act)
    (hcreated : ∀ node path, .create node path ∈ before → hasStagingComponent path = false)
    (hlater : ∀ node path, .create node path ∉ later) :
    (run root (before ++ .scope .cleanup :: later) (.new disk tape runId id)).2.artifacts =
        (run root (before ++ [.scope .cleanup]) (.new disk tape runId id)).2.artifacts ∧
    (run root (before ++ .scope .cleanup :: later) (.new disk tape runId id)).2.published =
        (run root (before ++ [.scope .cleanup]) (.new disk tape runId id)).2.published ∧
    (run root (before ++ .scope .cleanup :: later) (.new disk tape runId id)).2.machine.committed =
        (run root (before ++ [.scope .cleanup]) (.new disk tape runId id)).2.machine.committed ∧
    SameOutside (run root (before ++ [.scope .cleanup]) (.new disk tape runId id)).2.machine.disk
      (run root (before ++ .scope .cleanup :: later) (.new disk tape runId id)).2.machine.disk := by
  set start : TemporaryArtifactRegistry V := .new disk tape runId id with hstart
  have hsplit : run root (before ++ .scope .cleanup :: later) start =
      (run root (before ++ [.scope .cleanup]) >>= fun _ => run root later) start := by
    unfold run
    rw [← Prog.forEach_append, List.append_assoc, List.singleton_append]
  have hkept : Kept disk root runId start := kept_new disk tape root runId id
  -- the state the cleanup leaves, where the run reached it
  have hclosed : Prog.Spec (run root (before ++ [.scope .cleanup])) start
      (fun _ r => Kept disk root runId r ∧ r.machine.cleaned = true) (fun _ _ => False) (Kept disk root runId) := by
    unfold run
    rw [Prog.forEach_append, Prog.spec_bind]
    refine (spec_run before hcreated hkept).mono (fun _ r hr => ?_) (fun _ _ h => h) fun _ h => h
    unfold Prog.forEach act
    rw [Prog.spec_bind, Prog.spec_bind, Prog.spec_attempt, Prog.spec_bind]
    exact (spec_cleanup hr).mono (fun _ _ h => h) (fun _ _ h => h) fun _ h => h
  have hidle : Idle (run root (before ++ [.scope .cleanup]) start).2
      (run root (before ++ .scope .cleanup :: later) start).2 := by
    rw [hsplit]
    unfold Prog.Spec at hclosed
    cases hrun : run root (before ++ [.scope .cleanup]) start with
    | mk o r =>
      rw [hrun] at hclosed
      cases o with
      | done u =>
        rw [Prog.bind_of_done hrun]
        exact idle_run later hlater hclosed.1.listed hclosed.2
      | fail e => exact hclosed.elim
      | crash =>
        have hcrash : (run root (before ++ [.scope .cleanup]) >>= fun _ => run root later) start = (.crash, r) := by
          show Prog.andThen _ _ start = _
          unfold Prog.andThen
          rw [hrun]
        rw [hcrash]
        exact ⟨rfl, rfl, .refl hclosed.listed⟩
  exact ⟨hidle.artifacts, hidle.published, hidle.outside⟩

theorem registry_closed_overlapped :
    (run "C:/M".toList (overlapping ++ .scope .cleanup :: [.register [OsStr.ofText "b".toList], .scope .cleanup])
        (.new sampleDisk [] "r".toList 0)).2.artifacts = overlapped.artifacts ∧
    (run "C:/M".toList (overlapping ++ .scope .cleanup :: [.register [OsStr.ofText "b".toList], .scope .cleanup])
        (.new sampleDisk [] "r".toList 0)).2.published = overlapped.published ∧
    (run "C:/M".toList (overlapping ++ .scope .cleanup :: [.register [OsStr.ofText "b".toList], .scope .cleanup])
        (.new sampleDisk [] "r".toList 0)).2.machine.committed = overlapped.machine.committed ∧
    SameOutside overlapped.machine.disk
      (run "C:/M".toList (overlapping ++ .scope .cleanup :: [.register [OsStr.ofText "b".toList], .scope .cleanup])
        (.new sampleDisk [] "r".toList 0)).2.machine.disk := by
  unfold overlapped
  exact registry_closed "C:/M".toList "r".toList 0 sampleDisk [] overlapping
    [.register [OsStr.ofText "b".toList], .scope .cleanup] (by simp [overlapping]) (by simp)

end Cao.Registry
