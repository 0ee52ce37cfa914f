import Cao.Finalize.Order
import Cao.Finalize.Pruning

/-!
# What finalization may change

Every change Archive Finalization makes to the tree, over a whole phase and for any behaviour of its operations:
which entries it may delete, and which it may create.

* `PackedSource`, `DummyPlugin`, `RecognizedName`: what may be deleted, and under which names plugins are created;
* `FrameStep`: one change; **`along_finalizePlan`**, **`along_pruneEmptyDirectories`**: a phase makes no other;
* `Gone`, `Made`, **`trace_framed`**: an entry that is gone, and one that is new, after a run of such changes;
* **`finalizeArchives_framed`**: the frame of the phase.
-/

namespace Cao.Finalize

open Pack
open Prog (Along Spec spec_bind along_pure along_fail)

variable {K : Type} [DecidableEq K] {V : Volume K} {P ε : Type}

/-! ## The changes -/

/-- A planned packed source, where sources are deleted: a regular file that planning collected and packed. -/
def PackedSource (request : FinalizationRequest) (plan : FinalizationPlan) (disk₀ : Disk V) (path : Path) : Prop :=
  request.choices.deleteSources = true ∧ ∃ output ∈ plan.outputs, ∃ source ∈ output.archive.files,
    source.path = path ∧ IsSource request disk₀ output.modRoot source ∧
      isPacked request.settings output.modRoot source = true

/-- A plugin's name in a Mod Root, where dummy plugins are not wanted. -/
def UnwantedPlugin (request : FinalizationRequest) (plan : FinalizationPlan) (path : Path) : Prop :=
  request.choices.createDummyPlugins = false ∧ ∃ root ∈ plan.roots, ∃ entry name,
    FilePath.make (root ++ [entry]) request.settings .plugin = some name ∧ path = name.fullPath

/-- A name that loads an Archive, where dummy plugins are wanted: one planned, or one that stands in a Mod Root. -/
def RecognizedName (request : FinalizationRequest) (plan : FinalizationPlan) (disk : Disk V) (destination : Path) : Prop :=
  request.choices.createDummyPlugins = true ∧
    ((∃ output ∈ plan.outputs, destination ∈ output.loadingPluginPaths) ∨
      ∃ root ∈ plan.roots, ∃ archive, IsListed request.settings disk root .archive archive ∧
        destination ∈ loadingPluginNames archive request.rules)

/-- One change of the phase. Nothing stands at the path of a creation, and a deletion is of what is named here. -/
def FrameStep (seams : FinalizationSeams) (request : FinalizationRequest) (roots : List Path) (plan : FinalizationPlan)
    (disk₀ : Disk V) : Event → Disk V → Disk V → Prop
  | .published _ destination _, disk, disk' => ∃ data q,
      disk.create destination (.leaf (.file data 1)) = some (q, disk') ∧
        ((∃ output ∈ plan.outputs, destination = output.archivePath) ∨
          data = request.rules.dummyPlugin ∧ RecognizedName request plan disk destination)
  | .removed path, disk, disk' => SourceFilePin.deleteFile path disk = .ok disk' ∧
      (PackedSource request plan disk₀ path ∨ UnwantedPlugin request plan path ∧
        ∃ q links, disk.find path = some (q, .leaf (.file request.rules.dummyPlugin links)))
  | .pruned path, disk, disk' => removeDirectory path disk = .ok disk' ∧
      ∃ root, (root ∈ roots ∨ root ∈ plan.roots) ∧ Prunable seams root path
  | .packed _, disk, disk' => disk' = disk
  | .pluginPinned _, disk, disk' => disk' = disk
  | .listed _, disk, disk' => disk' = disk
  | .unloaded, disk, disk' => disk' = disk
  | .readWhole _, disk, disk' => disk' = disk
  | .extracted .., _, _ => False
  | .renamed .., _, _ => False
  | .repinned _, _, _ => False

variable {seams : FinalizationSeams} {request : FinalizationRequest} {roots : List Path} {plan : FinalizationPlan}
  {disk₀ : Disk V} {output : FinalizationOutput} {root : Path}

/-- What the phase relies on in its plan. -/
structure Frozen (request : FinalizationRequest) (disk₀ : Disk V) (plan : FinalizationPlan) : Prop where
  outputs : ∀ output ∈ plan.outputs, IsOutput request disk₀ output
  rules : plan.rules = request.rules
  deleteSources : plan.deleteSources = request.choices.deleteSources
  createDummies : plan.createDummies = request.choices.createDummyPlugins

/-- **An output's attempt stays in the frame.** -/
theorem frame_of_attempt (h : Frozen request disk₀ plan) (houtput : output ∈ plan.outputs) {event : Event}
    {disk disk' : Disk V} (hstep : AttemptStep plan output event disk disk') :
    FrameStep seams request roots plan disk₀ event disk disk' := by
  have hplanned := h.outputs output houtput
  cases event with
  | published receipt destination released =>
    obtain ⟨data, q, hcreate, hdestination⟩ := hstep
    refine ⟨data, q, hcreate, hdestination.imp (fun hpath => ⟨output, houtput, hpath⟩) fun hplugin => ?_⟩
    obtain ⟨hname, hdata⟩ := hplugin
    refine ⟨h.rules ▸ hdata, ?_, .inl ⟨output, houtput, hname⟩⟩
    by_contra hunwanted
    obtain ⟨selected, -, -, -, -, hnames⟩ := hplanned.name
    rw [hnames, if_neg hunwanted] at hname
    cases hname
  | removed path =>
    obtain ⟨hdelete, hsources, source, hsource, hpath⟩ := hstep
    rw [h.deleteSources] at hsources
    obtain ⟨hfile, hpacked⟩ := hplanned.files source hsource
    exact ⟨hdelete, .inl ⟨hsources, output, houtput, source, hsource, hpath, hfile, hpacked⟩⟩
  | pluginPinned plugin => exact hstep.1
  | listed archive => exact hstep.1
  | readWhole source => exact hstep.1
  | packed receipt => exact hstep
  | unloaded => exact hstep
  | extracted receipt name data => exact hstep
  | renamed source backup => exact hstep
  | repinned source => exact hstep
  | pruned directory => exact hstep.elim

/-! ## Steps of the phase -/

omit [DecidableEq K] in
/-- A step that only reads. -/
theorem Reads.moves {J : Event → Disk V → Disk V → Prop} {α : Type} {x : Prog (Site V P) ε α} {R : α → Prop}
    (hx : ∀ disk, Reads disk x R) : Along (Moves J) x R := along_moves (Reads.along hx)

section

omit [DecidableEq K]

variable {J : Event → Disk V → Disk V → Prop}

theorem along_modifyAccount (f : ArchiveFinalizationAccount → ArchiveFinalizationAccount) :
    Along (Moves J) (modifyAccount f : Prog (Site V Finalization) ε Unit) fun _ => True := along_modifyProgress _

theorem along_failPhase (failure : OperationFailure ArchiveFinalizationFailure) :
    Along (Moves J) (failPhase failure : Prog (Site V Finalization) ε Unit) fun _ => True := along_modifyAccount _

theorem along_isCancelled : Along (Moves J) (isCancelled seams : Prog (Site V P) ε Bool) fun _ => True :=
  Reads.moves fun _ => reads_isCancelled

theorem along_evidenceFact : Along (Moves J) (evidenceFact seams : Prog (Site V P) _ Unit) fun _ => True := by
  refine along_moves (along_nextCall.bind fun n _ => ?_)
  cases seams.evidence n with
  | ok _ => exact along_pure trivial
  | error detail => exact along_fail

theorem along_recordAttempt (attempt : ArchiveFinalizationAttempt) :
    Along (Moves J) (recordAttempt seams attempt : Prog (Site V Finalization) _ Unit) fun _ => True :=
  along_evidenceFact.bind fun _ _ => along_modifyProgress _

theorem along_recordShortage (shortage : CapacityShortage) (archive : Option Path) :
    Along (Moves J) (recordShortage seams shortage archive : Prog (Site V Finalization) _ Unit) fun _ => True := by
  cases archive with
  | none => exact along_failPhase _
  | some archive => exact along_recordAttempt _

theorem along_dummyCapacityOf : Along (Moves J) (dummyCapacityOf plan root : Prog (Site V P) (Thrown ε) Nat) fun _ => True := by
  unfold dummyCapacityOf
  split
  · exact along_pure trivial
  · exact along_fail

theorem along_creationDemand : Along (Moves J) (creationDemand plan : Prog (Site V P) (Thrown ε) _) fun _ => True := by
  refine (Along.foldEach (J := fun _ => True) (fun demand root _ => ?_) _ trivial).bind fun demand _ => along_pure trivial
  exact along_dummyCapacityOf.bind fun required _ => along_pure trivial

theorem along_recheckPlugins (later : List Path) :
    Along (Moves J) (recheckPlugins seams plan root later : Prog (Site V P) (Thrown ε) _) fun _ => True := by
  refine along_dummyCapacityOf.bind fun required _ => ?_
  split_ifs
  · exact along_pure trivial
  · refine (Along.foldEach (J := fun _ => True) (fun demand later _ => ?_) _ trivial).bind fun demand _ => ?_
    · exact along_dummyCapacityOf.bind fun required _ => along_pure trivial
    · exact (along_moves along_nextCall).bind fun n _ => along_pure trivial

end

/-! ## Output attempts -/

theorem along_attemptOutput {demand : Demand} (h : Frozen request disk₀ plan) (houtput : output ∈ plan.outputs) :
    Along (Moves (FrameStep seams request roots plan disk₀))
      (attemptOutput seams plan output demand : Prog (Site V Finalization) ε _) fun _ => True := by
  refine fun s => spec_attemptOutput.mono ?_ (fun _ _ h => h.elim) fun _ h => h
  rintro attempt s' ⟨outcome, staging, publication, loading, removed, ending, -, hordered, -⟩
  exact ⟨(hordered.did.mono fun event _ disk disk' hstep => frame_of_attempt h houtput hstep).moves, trivial⟩

theorem along_attemptOutputs {demand : Demand} (h : Frozen request disk₀ plan) {outputs : List FinalizationOutput}
    (houtputs : ∀ output ∈ outputs, output ∈ plan.outputs) :
    Along (Moves (FrameStep seams request roots plan disk₀)) (attemptOutputs seams plan demand outputs :
      Prog (Site V Finalization) _ _) fun _ => True := by
  induction outputs with
  | nil => exact along_pure trivial
  | cons output outputs ih =>
    refine along_isCancelled.bind fun cancelled _ => ?_
    split_ifs
    · exact (along_modifyAccount _).bind fun _ _ => along_pure trivial
    · refine (along_attemptOutput h (houtputs output List.mem_cons_self)).bind fun attempt _ => ?_
      have hrest : ∀ rejected : Bool, Along (Moves (FrameStep seams request roots plan disk₀)) (do
          if !rejected then
            modifyAccount fun account => { account with safeToContinue := attempt.outcome.safeToContinue }
          recordAttempt seams attempt
          let phase ← getProgress
          if rejected then return false
          else if !phase.account.safeToContinue then return true
          else attemptOutputs seams plan demand outputs : Prog (Site V Finalization) (Thrown Escape) Bool)
          fun _ => True := by
        intro rejected
        cases rejected with
        | true =>
          exact (along_recordAttempt attempt).bind fun _ _ => (along_moves along_getProgress).bind fun _ _ =>
            along_pure trivial
        | false =>
          refine (along_modifyAccount _).bind fun _ _ => (along_recordAttempt attempt).bind fun _ _ =>
            (along_moves along_getProgress).bind fun phase _ => ?_
          rw [if_neg Bool.false_ne_true]
          split_ifs
          · exact along_pure trivial
          · exact ih fun other hother => houtputs other (List.mem_cons_of_mem _ hother)
      exact hrest _

/-! ## The plugins of existing Archives -/

theorem IsListed.adds {J : Event → Disk V → Disk V → Prop} {s s' : Site V P} {settings : Settings} {dir : Path}
    {kind : NameKind} {name : ArchiveName} (hlisted : IsListed settings s.disk dir kind name) (h : Adds J s s') :
    IsListed settings s'.disk dir kind name := by
  obtain ⟨q, entry, n, hdir, hentry, hmake⟩ := hlisted
  exact ⟨q, entry, n, PathTree.find_mono h.2 hdir, h.2 _ _ hentry, hmake⟩

variable {archive : ArchiveName} {destination : Path} {s s' : Site V Finalization}

/-- The publication of a dummy plugin for an Archive that stands in a Mod Root. -/
theorem PluginCreated.adds {released : Bool} (hname : RecognizedName request plan s.disk destination)
    (h : PluginCreated root destination request.rules.dummyPlugin released s s') :
    Adds (FrameStep seams request roots plan disk₀) s s' := by
  obtain ⟨receipt, hlog⟩ := h.log
  obtain ⟨q, hcreate⟩ := h.tree
  exact ⟨⟨_, hlog, trace_singleton.mpr ⟨_, q, hcreate, .inr ⟨rfl, hname⟩⟩⟩,
    fun p n hn => (PathTree.has_create hcreate).mpr (.inl hn)⟩

variable (roots disk₀) in
theorem spec_createMissing {names : List Path} (hrules : plan.rules = request.rules)
    (hname : RecognizedName request plan s.disk destination) :
    Spec (createMissing seams plan root names destination) s
      (fun _ s' => Adds (FrameStep seams request roots plan disk₀) s s')
      (fun _ s' => Adds (FrameStep seams request roots plan disk₀) s s') fun _ => False := by
  refine spec_bind.mpr ((reads_findLoadingPlugin _ _ _ s rfl).mono ?_ (fun _ _ h => h.adds) fun _ h => h)
  rintro found s₁ ⟨h₁, -⟩
  split_ifs
  · exact h₁.adds
  · refine spec_bind.mpr ((reads_entryExists _ s₁ rfl).mono ?_ (fun _ _ h => (h₁.trans h).adds) fun _ h => h)
    rintro occupied s₂ ⟨h₂, -⟩
    have h : Idle s s₂ := h₁.trans h₂
    split_ifs
    · exact h.adds
    · have hlogged : ∀ {s₃ : Site V Finalization}, Logged [] s₂ s₃ → Adds (FrameStep seams request roots plan disk₀) s s₃ :=
        fun h₃ => h.adds.trans ⟨(h₃.did (by simp)).moves, fun p n hn => by rwa [h₃.disk]⟩
      refine spec_bind.mpr (spec_publishDummyPlugin.mono ?_ (fun _ _ h₃ => hlogged h₃) fun _ h => h)
      rintro published s₃ (⟨-, h₃⟩ | ⟨released, -, h₃⟩)
      · exact hlogged h₃
      · rw [hrules] at h₃
        rw [← h.disk] at hname
        exact h.adds.trans (h₃.adds hname)

omit [DecidableEq K] in
theorem along_noteFailure {J : Event → Disk V → Disk V → Prop} (category : ArchiveFinalizationFailure) (detail : String) :
    Along (Moves J) (do
      failAccount category detail
      noteCancellation seams
      return false : Prog (Site V Finalization) ε Bool) fun _ => True :=
  (along_modifyAccount _).bind fun _ _ => (along_isCancelled.bind fun _ _ => along_modifyAccount _).bind fun _ _ =>
    along_pure trivial

/-- **Each missing dummy plugin gets a recognized name of an Archive that stands in the Mod Root.** -/
theorem spec_createMissingFor (hrules : plan.rules = request.rules)
    (hcreate : request.choices.createDummyPlugins = true) (hroot : root ∈ plan.roots) {archives : List ArchiveName}
    (harchives : ∀ archive ∈ archives, IsListed request.settings s.disk root .archive archive) :
    Spec (createMissingFor seams plan root archives) s
      (fun _ s' => Moves (FrameStep seams request roots plan disk₀) s s')
      (fun _ s' => Moves (FrameStep seams request roots plan disk₀) s s') fun _ => False := by
  induction archives generalizing s with
  | nil => exact (Idle.refl s).moves
  | cons archive archives ih =>
    refine spec_bind.mpr ((reads_isCancelled s rfl).mono ?_ (fun _ _ h => h.moves) fun _ h => h)
    rintro cancelled s₁ ⟨h₁, -⟩
    have hends : ∀ {x : Prog (Site V Finalization) (Thrown String) Bool} {s₂ : Site V Finalization},
        Moves (FrameStep seams request roots plan disk₀) s s₂ →
        Along (Moves (FrameStep seams request roots plan disk₀)) x (fun _ => True) →
        Spec x s₂ (fun _ s' => Moves (FrameStep seams request roots plan disk₀) s s')
          (fun _ s' => Moves (FrameStep seams request roots plan disk₀) s s') fun _ => False := fun h₂ hx =>
      (hx _).mono (fun _ _ h => h₂.trans h.1) (fun _ _ h => h₂.trans h) fun _ h => h
    split_ifs
    · exact hends h₁.moves ((along_modifyAccount _).bind fun _ _ => along_pure trivial)
    · dsimp only
      split
      · exact h₁.moves
      · next destination hlast =>
        have hlisted := (harchives archive List.mem_cons_self).adds (h₁.adds (J := FrameStep seams request roots plan disk₀))
        have hmem := List.mem_of_getLast? hlast
        rw [hrules] at hmem
        have hname : RecognizedName request plan s₁.disk destination :=
          ⟨hcreate, .inr ⟨root, hroot, archive, hlisted, hmem⟩⟩
        refine spec_bind.mpr (spec_result ((spec_createMissing roots disk₀ hrules hname).mono ?_ ?_ fun _ h => h))
        · intro created s₂ h₂
          have h := h₁.adds.trans h₂
          have hlater : Spec (createMissingFor seams plan root archives) s₂
              (fun _ s' => Moves (FrameStep seams request roots plan disk₀) s s')
              (fun _ s' => Moves (FrameStep seams request roots plan disk₀) s s') fun _ => False := by
            refine (ih fun other hother => ?_).mono (fun _ _ h' => h.1.trans h') (fun _ _ h' => h.1.trans h') fun _ h => h
            exact (harchives other (List.mem_cons_of_mem _ hother)).adds h
          cases created with
          | none => exact hlater
          | some published =>
            dsimp only
            split_ifs
            · exact hlater
            · exact hends h.1 ((along_modifyAccount _).bind fun _ _ => (along_modifyAccount _).bind fun _ _ =>
                (along_isCancelled.bind fun _ _ => along_modifyAccount _).bind fun _ _ => along_pure trivial)
        · intro e s₂ h₂
          have h := (h₁.adds.trans h₂).1
          exact ⟨fun detail _ => hends h (along_noteFailure _ _), fun message _ => h⟩

/-! ## The removal of dummy plugins -/

/-- The facts of an open dummy plugin are those of what stands at its name. -/
theorem reads_dummyFacts {disk : Disk V} (path : Path) :
    Reads disk (dummyFacts seams path : Prog (Site V P) _ _) fun facts => entryAt path disk = .ok facts.node :=
  reads_nextCall.bind fun _ _ => (reads_inspectTree _).mapError.bind fun _ h => reads_pure h

/-- A file whose length and first bytes are those of others holds them. -/
theorem exact_of_read {disk : Disk V} {path : Path} {facts : FileFacts} {bytes : Bytes}
    (hfacts : entryAt path disk = .ok facts.node) (hfile : facts.isOrdinaryFile = true)
    (hsize : facts.size = bytes.length) (hread : readPinned path bytes.length disk = .ok bytes) :
    ∃ q links, disk.find path = some (q, .leaf (.file bytes links)) := by
  unfold entryAt at hfacts
  split at hfacts
  · next q node hfind =>
    cases hfacts
    rw [hfind]
    rcases facts with ⟨_ | (⟨data, links⟩ | _ | _), stamp⟩
    · cases hfile
    · rw [readPinned, hfind] at hread
      have hlength : data.length = bytes.length := hsize
      have htake : data.take bytes.length = bytes := Except.ok.inj hread
      rw [← hlength, List.take_length] at htake
      exact ⟨q, links, by rw [htake]⟩
    · cases hfile
    · cases hfile
  · cases hfacts

/-- **Only an exact dummy plugin is removed.** -/
theorem spec_removeExactDummyPlugin {s : Site V P} {plugin : Path} {bytes : Bytes} :
    Spec (removeExactDummyPlugin seams plugin root bytes) s
      (fun _ s' => Idle s s' ∨ ∃ s₁, Idle s s₁ ∧ (∃ q links, s.disk.find plugin = some (q, .leaf (.file bytes links))) ∧
        Changed [.removed plugin] (SourceFilePin.deleteFile plugin) s₁ s')
      (fun _ s' => Idle s s') fun _ => False := by
  refine spec_bind.mpr (Prog.spec_mapError.mpr ((along_pinDirectories _ _ _ s).mono (fun _ s₁ h₁ => ?_)
    (fun _ _ h => h) fun _ h => h))
  refine spec_bind.mpr (Prog.spec_mapError.mpr (spec_bind.mpr ((reads_inspectTree _ s₁ rfl).mono (fun _ s₂ h₂ => ?_)
    (fun _ _ h => h₁.1.trans h) fun _ h => h)))
  have h₁₂ : Idle s s₂ := h₁.1.trans h₂.1
  refine spec_bind.mpr ((reads_dummyFacts _ s₂ rfl).mono ?_ (fun _ _ h => h₁₂.trans h) fun _ h => h)
  rintro original s₃ ⟨h₃, horiginal⟩
  have h₁₃ : Idle s s₃ := h₁₂.trans h₃
  split_ifs with hordinary hlinks hsize
  · exact h₁₃
  · exact h₁₃
  · exact .inl h₁₃
  · refine spec_bind.mpr (Prog.spec_mapError.mpr ((reads_inspectTree _ s₃ rfl).mono ?_ (fun _ _ h => h₁₃.trans h)
      fun _ h => h))
    rintro contents s₄ ⟨h₄, hread⟩
    have h₁₄ : Idle s s₄ := h₁₃.trans h₄
    split_ifs with hlength hcontents
    · exact h₁₄
    · exact .inl h₁₄
    · refine spec_bind.mpr ((reads_dummyFacts _ s₄ rfl).mono ?_ (fun _ _ h => h₁₄.trans h) fun _ h => h)
      rintro verified s₅ ⟨h₅, -⟩
      have h₁₅ : Idle s s₅ := h₁₄.trans h₅
      split_ifs
      · exact h₁₅
      · have hexact : ∃ q links, s.disk.find plugin = some (q, .leaf (.file bytes links)) := by
          rw [not_not] at hcontents hsize
          rw [hcontents] at hread
          rw [h₃.disk] at hread
          have hexact := exact_of_read horiginal (by simpa using hordinary) hsize hread
          rwa [h₁₂.disk] at hexact
        refine spec_bind.mpr (Prog.spec_mapError.mpr (spec_changeTree.mono (fun _ s₆ h₆ => ?_)
          (fun _ _ h => h₁₅.trans h) fun _ h => h))
        exact .inr ⟨s₅, h₁₅, hexact, h₆⟩

theorem along_removeExactDummyPlugin {entry : OsStr} {name : ArchiveName} (hroot : root ∈ plan.roots)
    (hunwanted : request.choices.createDummyPlugins = false) (hrules : plan.rules = request.rules)
    (hname : FilePath.make (root ++ [entry]) request.settings .plugin = some name) :
    Along (Moves (FrameStep seams request roots plan disk₀))
      (removeExactDummyPlugin seams name.fullPath root plan.rules.dummyPlugin : Prog (Site V P) _ _) fun _ => True := by
  refine fun s => spec_removeExactDummyPlugin.mono ?_ (fun _ _ h => h.moves) fun _ h => h
  rintro _ s' (h | ⟨s₁, h₁, hexact, hdisk, -, -, hlog⟩)
  · exact ⟨h.moves, trivial⟩
  · rw [hrules, ← h₁.disk] at hexact
    have hstep : FrameStep seams request roots plan disk₀ (.removed name.fullPath) s₁.disk s'.disk :=
      ⟨hdisk, .inr ⟨⟨hunwanted, root, hroot, entry, name, hname, rfl⟩, hexact⟩⟩
    exact ⟨h₁.moves.trans ⟨_, hlog, trace_singleton.mpr hstep⟩, trivial⟩

theorem along_removeDummiesOf (hroot : root ∈ plan.roots) (hunwanted : request.choices.createDummyPlugins = false)
    (hrules : plan.rules = request.rules) {plugins : List ArchiveName}
    (hplugins : ∀ name ∈ plugins, ∃ entry, FilePath.make (root ++ [entry]) request.settings .plugin = some name) :
    Along (Moves (FrameStep seams request roots plan disk₀)) (removeDummiesOf seams plan root plugins :
      Prog (Site V Finalization) (Thrown ε) _) fun _ => True := by
  induction plugins with
  | nil => exact along_pure trivial
  | cons plugin plugins ih =>
    have hlater := ih fun name hname => hplugins name (List.mem_cons_of_mem _ hname)
    obtain ⟨entry, hentry⟩ := hplugins plugin List.mem_cons_self
    refine along_isCancelled.bind fun cancelled _ => ?_
    split_ifs
    · exact (along_modifyAccount _).bind fun _ _ => along_pure trivial
    · refine (along_result (along_removeExactDummyPlugin hroot hunwanted hrules hentry)).bind fun removal _ => ?_
      split
      · exact hlater
      · exact (along_modifyProgress _).bind fun _ _ => hlater
      · exact along_noteFailure _ _

/-- **Maintenance creates where dummies are wanted, and removes exact dummies where they are not.** -/
theorem along_maintain (h : Frozen request disk₀ plan) (hroot : root ∈ plan.roots) :
    Along (Moves (FrameStep seams request roots plan disk₀))
      (maintainExistingLoadingPlugins seams request.settings plan root : Prog (Site V Finalization) _ _) fun _ => True := by
  unfold maintainExistingLoadingPlugins
  split_ifs with hcreate
  · rw [h.createDummies] at hcreate
    intro s
    refine spec_bind.mpr ((reads_listNames s rfl).mono ?_ (fun _ _ h => h.moves) fun _ h => h)
    rintro archives s₁ ⟨h₁, harchives⟩
    refine (spec_createMissingFor (s := s₁) h.rules hcreate hroot ?_).mono (fun _ _ h' => ⟨h₁.moves.trans h', trivial⟩)
      (fun _ _ h' => h₁.moves.trans h') fun _ h => h
    rwa [h₁.disk]
  · rw [h.createDummies, Bool.not_eq_true] at hcreate
    have hlist : Along (Moves (FrameStep seams request roots plan disk₀))
        (listNames seams request.settings root .plugin : Prog (Site V Finalization) (Thrown String) _) fun names =>
          ∀ name ∈ names, ∃ entry, FilePath.make (root ++ [entry]) request.settings .plugin = some name := by
      refine Reads.moves fun disk => reads_listNames.mono fun names hnames name hname => ?_
      obtain ⟨-, entry, -, -, -, hmake⟩ := hnames name hname
      exact ⟨entry, hmake⟩
    refine (along_result hlist).bind fun listed hlisted => ?_
    cases listed with
    | ok plugins => exact along_removeDummiesOf hroot hcreate h.rules (hlisted plugins rfl)
    | error detail => exact along_noteFailure _ _

theorem along_maintainRoots (h : Frozen request disk₀ plan) {remaining : List Path}
    (hroots : ∀ root ∈ remaining, root ∈ plan.roots) :
    Along (Moves (FrameStep seams request roots plan disk₀)) (maintainRoots seams request.settings plan remaining :
      Prog (Site V Finalization) _ _) fun _ => True := by
  induction remaining with
  | nil => exact along_pure trivial
  | cons root later ih =>
    refine along_isCancelled.bind fun cancelled _ => ?_
    split_ifs
    · exact (along_modifyAccount _).bind fun _ _ => along_pure trivial
    · refine (along_recheckPlugins later).bind fun short _ => ?_
      cases short with
      | some shortage => exact (along_recordShortage _ _).bind fun _ _ => along_pure trivial
      | none =>
        refine along_isCancelled.bind fun cancelled _ => ?_
        split_ifs
        · exact (along_modifyAccount _).bind fun _ _ => along_pure trivial
        · refine ((along_maintain h (hroots root List.mem_cons_self)).mapError).bind fun maintained _ => ?_
          split_ifs
          · exact ih fun other hother => hroots other (List.mem_cons_of_mem _ hother)
          · exact along_pure trivial

/-! ## Pruning -/

theorem along_pruneDirectory {path : Path} {pruned : Nat} (hroot : root ∈ roots ∨ root ∈ plan.roots)
    (hpath : Prunable seams root path) : Along (Moves (FrameStep seams request roots plan disk₀))
      (pruneDirectory seams pruned path : Prog (Site V P) (Thrown ε) _) fun _ => True := by
  have hchange : Along (Moves (FrameStep seams request roots plan disk₀))
      (changeTree seams.toSeams [.pruned path] (removeDirectory path) : Prog (Site V P) _ _) fun _ => True := by
    refine fun s => spec_changeTree.mono ?_ (fun _ _ h => h.moves) fun _ h => h
    rintro _ s' ⟨hdisk, -, -, hlog⟩
    exact ⟨⟨_, hlog, trace_singleton.mpr ⟨hdisk, root, hroot, hpath⟩⟩, trivial⟩
  refine (along_result hchange).bind fun removed _ => ?_
  cases removed with
  | ok _ => exact along_pure trivial
  | error detail => exact along_pure trivial

theorem along_deleteEmptyDirectories (hroot : root ∈ roots ∨ root ∈ plan.roots) :
    Along (Moves (FrameStep seams request roots plan disk₀))
      (deleteEmptyDirectories seams root : Prog (Site V P) (Thrown ε) _) fun _ => True := by
  intro s
  refine spec_bind.mpr (Prog.spec_get.mpr (spec_bind.mpr ((reads_visitRoot s rfl).mono ?_ (fun _ _ h => h.moves)
    fun _ h => h)))
  rintro directories s₁ ⟨h₁, hdirectories⟩
  have hprune : ∀ (found : List Path) (pruned : Nat), (∀ p ∈ found, Prunable seams root p) →
      Along (Moves (FrameStep seams request roots plan disk₀))
        (Prog.foldEach (pruneDirectory seams) pruned found : Prog (Site V P) (Thrown ε) _) fun _ => True := by
    intro found
    induction found with
    | nil => exact fun _ _ => along_pure trivial
    | cons p found ih =>
      intro pruned hfound
      exact (along_pruneDirectory hroot (hfound p List.mem_cons_self)).bind fun pruned _ =>
        ih pruned fun other hother => hfound other (List.mem_cons_of_mem _ hother)
  refine (hprune _ 0 (fun p hp => hdirectories p ?_) s₁).mono (fun _ _ h => ⟨h₁.moves.trans h.1, trivial⟩)
    (fun _ _ h => h₁.moves.trans h) fun _ h => h
  exact (List.perm_insertionSort _ _).mem_iff.mp hp

theorem along_pruneEmptyDirectories {remaining : List Path}
    (hroots : ∀ root ∈ remaining, root ∈ roots ∨ root ∈ plan.roots) :
    Along (Moves (FrameStep seams request roots plan disk₀)) (pruneEmptyDirectories seams remaining :
      Prog (Site V Finalization) (Thrown ε) _) fun _ => True := by
  induction remaining with
  | nil => exact along_pure trivial
  | cons root remaining ih =>
    have hlater := ih fun other hother => hroots other (List.mem_cons_of_mem _ hother)
    refine along_isCancelled.bind fun cancelled _ => ?_
    split_ifs
    · exact along_modifyAccount _
    · refine (along_deleteEmptyDirectories (hroots root List.mem_cons_self)).bind fun pruned _ => ?_
      dsimp only
      split_ifs
      · exact (along_modifyProgress _).bind fun _ _ => hlater
      · exact hlater

/-! ## The phase -/

theorem along_maintainAndPrune (h : Frozen request disk₀ plan) : Along (Moves (FrameStep seams request roots plan disk₀))
    (maintainAndPrune seams request.settings plan : Prog (Site V Finalization) _ _) fun _ => True := by
  refine (along_maintainRoots h fun _ hroot => hroot).bind fun finished _ => ?_
  refine (along_moves along_getProgress).bind fun phase _ => ?_
  split_ifs
  · exact along_pruneEmptyDirectories fun _ hroot => .inr hroot
  · exact along_pure trivial

theorem along_finishPlan (h : Frozen request disk₀ plan) : Along (Moves (FrameStep seams request roots plan disk₀))
    (finishPlan seams request.settings plan : Prog (Site V Finalization) _ _) fun _ => True := by
  have hrest : ∀ (cancelled safe : Bool), Along (Moves (FrameStep seams request roots plan disk₀)) (do
      modifyAccount fun account => { account with cancelled }
      if cancelled || !safe then return ()
      else do
        let cleanup ← catchUnwind (maintainAndPrune seams request.settings plan)
        endMaintenance cleanup : Prog (Site V Finalization) (Thrown Escape) Unit) fun _ => True := by
    intro cancelled safe
    refine (along_modifyAccount _).bind fun _ _ => ?_
    split_ifs
    · exact along_pure trivial
    · refine (along_maintainAndPrune h).attempt.bind fun cleanup _ => ?_
      unfold endMaintenance
      split
      · exact along_pure trivial
      · exact along_fail
      · exact (along_modifyAccount _).bind fun _ _ => along_failPhase _
      · exact (along_modifyAccount _).bind fun _ _ => along_failPhase _
  refine (along_moves along_getProgress).bind fun phase _ => ?_
  dsimp only
  split_ifs with hcancelled
  · exact hrest true phase.account.safeToContinue
  · exact along_isCancelled.bind fun cancelled _ => hrest cancelled phase.account.safeToContinue

/-- **Whatever follows a plan stays in its frame.** -/
theorem along_finalizePlan (h : Frozen request disk₀ plan) : Along (Moves (FrameStep seams request roots plan disk₀))
    (finalizePlan seams request.settings plan : Prog (Site V Finalization) _ _) fun _ => True := by
  refine along_isCancelled.bind fun cancelled _ => ?_
  split_ifs
  · exact along_modifyAccount _
  · refine along_creationDemand.bind fun demand _ => (along_moves along_nextCall).bind fun n _ => ?_
    split
    · exact along_recordShortage _ _
    · refine (along_attemptOutputs h fun _ houtput => houtput).bind fun goesOn _ => ?_
      split_ifs
      · exact along_finishPlan h
      · exact along_pure trivial

theorem PlanHolds.frozen {inputs reserved : List Path} (h : PlanHolds request disk₀ inputs ⟨plan, reserved⟩) :
    Frozen request disk₀ plan := ⟨h.outputs, h.rules, h.deleteSources, h.createDummies⟩

/-- The state the work of the phase starts in: its account is new. -/
def opened (s : Site V Finalization) : Site V Finalization :=
  { s with progress := { s.progress with account := .default } }

/-- The plan of a phase: the one planning returned, or the empty one where there was none. -/
structure IsPlan (seams : FinalizationSeams) (request : FinalizationRequest) (modRoots : List Path)
    (s : Site V Finalization) (plan : FinalizationPlan) : Prop where
  planned : plan = emptyPlan request ∨
    (planFinalization seams request modRoots (opened s) : Outcome (Thrown PlanningStop) _ × _).1 = .done plan
  holds : ∃ reserved, PlanHolds request s.disk modRoots ⟨plan, reserved⟩

variable {preparation : RunPreparation}

/-- From one state to another, the phase stayed in the frame of its plan. -/
def Framed (seams : FinalizationSeams) (request : FinalizationRequest) (roots : List Path)
    (s s' : Site V Finalization) : Prop :=
  ∃ plan, IsPlan seams request roots s plan ∧ Moves (FrameStep seams request roots plan s.disk) s s'

/-- What follows within the plan's frame. -/
theorem spec_framed {α : Type} {x : Prog (Site V Finalization) ε α} {s s₁ : Site V Finalization}
    (hplan : IsPlan seams request roots s plan) (h : Moves (FrameStep seams request roots plan s.disk) s s₁)
    (hx : Along (Moves (FrameStep seams request roots plan s.disk)) x fun _ => True) :
    Spec x s₁ (fun _ s' => Framed seams request roots s s') (fun _ s' => Framed seams request roots s s') fun _ => False :=
  (hx s₁).mono (fun _ _ h' => ⟨plan, hplan, h.trans h'.1⟩) (fun _ _ h' => ⟨plan, hplan, h.trans h'⟩) fun _ h => h

/-- **The work of the phase stays in the frame of its plan.** -/
theorem spec_runPhase : Spec (runPhase seams request preparation) (opened s)
    (fun _ s' => Framed seams (request.prepared preparation) preparation.modRoots s s')
    (fun _ s' => Framed seams (request.prepared preparation) preparation.modRoots s s') fun _ => False := by
  have hempty : IsPlan seams (request.prepared preparation) preparation.modRoots s
      (emptyPlan (request.prepared preparation)) := ⟨.inl rfl, [], planHolds_empty⟩
  have hopened : ∀ {J : Event → Disk V → Disk V → Prop} {s' : Site V Finalization}, Idle (opened s) s' → Moves J s s' := by
    intro J s' h
    obtain ⟨hlog, htree⟩ := h.did (J := J)
    exact ⟨[], hlog, htree⟩
  unfold runPhase
  split_ifs
  · have hreads : Reads s.disk (planFinalization seams (request.prepared preparation) preparation.modRoots :
        Prog (Site V Finalization) _ _) _ := reads_planFinalization preparation.modRoots
    refine spec_bind.mpr (spec_result ((hreads (opened s) rfl).ran.mono ?_ ?_ fun _ h => h))
    · rintro plan s₁ ⟨⟨h₁, reserved, hholds⟩, hrun⟩
      have hplan : IsPlan seams (request.prepared preparation) preparation.modRoots s plan :=
        ⟨.inr (by rw [hrun]), reserved, hholds⟩
      exact spec_framed hplan (hopened h₁) (along_evidenceFact.bind fun _ _ => along_finalizePlan hholds.frozen)
    · intro e s₁ h₁
      refine ⟨fun stop _ => ?_, fun _ _ => ⟨_, hempty, hopened h₁⟩⟩
      cases stop with
      | cancelled => exact spec_framed hempty (hopened h₁) (along_modifyAccount _)
      | failed detail => exact spec_framed hempty (hopened h₁) along_fail
  · exact spec_framed hempty (hopened (.refl _)) (along_evidenceFact.bind fun _ _ =>
      along_pruneEmptyDirectories fun _ hroot => .inl hroot)

omit [DecidableEq K] in
theorem along_finishPhase {J : Event → Disk V → Disk V → Prop} :
    Along (Moves J) (finishPhase seams : Prog (Site V Finalization) _ Unit) fun _ => True := by
  refine along_moves (along_nextCall.bind fun n _ => ?_)
  cases seams.evidence n with
  | ok _ => exact along_pure trivial
  | error detail => exact along_fail

omit [DecidableEq K] in
theorem along_escaped {J : Event → Disk V → Disk V → Prop} (detail : String) :
    Along (Moves J) (escaped seams detail : Prog (Site V Finalization) _ Unit) fun _ => True :=
  (along_failPhase _).bind fun _ _ => (along_modifyAccount _).bind fun _ _ => along_finishPhase

/-! ## What is gone and what is new -/

/-- An entry that finalization may delete. -/
inductive Gone (seams : FinalizationSeams) (request : FinalizationRequest) (roots : List Path) (plan : FinalizationPlan)
    (disk₀ : Disk V) : Path → Node Leaf → Prop
  | source {p : Path} {n : Node Leaf} (h : PackedSource request plan disk₀ p) : Gone seams request roots plan disk₀ p n
  | plugin {p path : Path} {links : Nat} (h : UnwantedPlugin request plan path) (hfold : p.map V.fold = path.map V.fold) :
      Gone seams request roots plan disk₀ p (.leaf (.file request.rules.dummyPlugin links))
  | directory {p root path : Path} (hroot : root ∈ roots ∨ root ∈ plan.roots) (h : Prunable seams root path)
      (hfold : p.map V.fold = path.map V.fold) : Gone seams request roots plan disk₀ p .dir

/-- An entry that finalization may create: at a planned output's path, or a dummy plugin at a recognized name. -/
inductive Made (request : FinalizationRequest) (plan : FinalizationPlan) : Disk V → Path → Node Leaf → Prop
  | archive {disk : Disk V} {p : Path} {data : Bytes} {output : FinalizationOutput} (houtput : output ∈ plan.outputs)
      (hfold : p.map V.fold = output.archivePath.map V.fold) : Made request plan disk p (.leaf (.file data 1))
  | plugin {disk : Disk V} {p destination : Path} (h : RecognizedName request plan disk destination)
      (hfold : p.map V.fold = destination.map V.fold) :
      Made request plan disk p (.leaf (.file request.rules.dummyPlugin 1))

/-- What is erased from a tree is one entry; the others stay. -/
theorem deleteFile_eq_ok {disk disk' : Disk V} {path : Path} (h : SourceFilePin.deleteFile path disk = .ok disk') :
    ∃ q leaf, disk.find path = some (q, .leaf leaf) ∧ ∀ p n, disk'.Has p n ↔ disk.Has p n ∧ p ≠ q := by
  unfold SourceFilePin.deleteFile at h
  split at h
  · next q leaf hfind =>
    split at h
    · next herase =>
      cases h
      exact ⟨q, leaf, hfind, fun p n => PathTree.has_erase herase⟩
    · cases h
  · cases h

theorem removeDirectory_eq_ok {disk disk' : Disk V} {path : Path} (h : removeDirectory path disk = .ok disk') :
    ∃ q, disk.find path = some (q, .dir) ∧ ∀ p n, disk'.Has p n ↔ disk.Has p n ∧ p ≠ q := by
  unfold removeDirectory at h
  split at h
  · next q hfind =>
    split at h
    · next herase =>
      cases h
      exact ⟨q, hfind, fun p n => PathTree.has_erase herase⟩
    · cases h
  · cases h

/-- What a lookup finds is what stands there. -/
theorem node_of_find {disk : Disk V} {path q : Path} {n m : Node Leaf} (hfind : disk.find path = some (q, m))
    (hq : disk.Has q n) : m = n := by
  have hsame := PathTree.find_congr (t := disk) (PathTree.fold_of_find hfind)
  rw [hq.find, hfind] at hsame
  exact (congrArg Prod.snd (Option.some.inj hsame)).symm

/-- An entry taken by one step of the frame may be deleted. -/
theorem gone_of_step {event : Event} {disk disk' : Disk V} (hstep : FrameStep seams request roots plan disk₀ event disk disk')
    {p : Path} {n : Node Leaf} (h₀ : disk₀.Has p n) (h : disk.Has p n) (h' : ¬ disk'.Has p n) :
    Gone seams request roots plan disk₀ p n := by
  cases event with
  | published receipt destination released =>
    obtain ⟨data, q, hcreate, -⟩ := hstep
    exact absurd ((PathTree.has_create hcreate).mpr (.inl h)) h'
  | removed path =>
    obtain ⟨hdelete, hallowed⟩ := hstep
    obtain ⟨q, leaf, hfind, herased⟩ := deleteFile_eq_ok hdelete
    have hp : p = q := by
      by_contra hne
      exact h' ((herased p n).mpr ⟨h, hne⟩)
    subst hp
    rcases hallowed with hsource | ⟨hplugin, q, links, hexact⟩
    · -- A packed source stood where its path says.
      obtain ⟨-, output, -, source, -, rfl, hfile, -⟩ := id hsource
      obtain ⟨data, links, hhas, -⟩ := hfile.file
      have hsame := PathTree.find_congr (t := disk₀) (PathTree.fold_of_find hfind)
      rw [h₀.find, hhas.find] at hsame
      rw [(Prod.mk.inj (Option.some.inj hsame)).1]
      exact .source hsource
    · rw [hfind] at hexact
      have hnode := node_of_find hfind h
      rw [← hnode, (Prod.mk.inj (Option.some.inj hexact)).2]
      exact .plugin hplugin (PathTree.fold_of_find hfind)
  | pruned path =>
    obtain ⟨hremove, root, hroot, hprunable⟩ := hstep
    obtain ⟨q, hfind, herased⟩ := removeDirectory_eq_ok hremove
    have hp : p = q := by
      by_contra hne
      exact h' ((herased p n).mpr ⟨h, hne⟩)
    subst hp
    rw [← node_of_find hfind h]
    exact .directory hroot hprunable (PathTree.fold_of_find hfind)
  | packed receipt => exact absurd (hstep ▸ h) h'
  | pluginPinned plugin => exact absurd (hstep ▸ h) h'
  | listed archive => exact absurd (hstep ▸ h) h'
  | unloaded => exact absurd (hstep ▸ h) h'
  | readWhole source => exact absurd (hstep ▸ h) h'
  | extracted receipt name data => exact hstep.elim
  | renamed source backup => exact hstep.elim
  | repinned source => exact hstep.elim

/-- An entry added by one step of the frame may be created. -/
theorem made_of_step {event : Event} {disk disk' : Disk V} (hstep : FrameStep seams request roots plan disk₀ event disk disk')
    {p : Path} {n : Node Leaf} (h : ¬ disk.Has p n) (h' : disk'.Has p n) : Made request plan disk p n := by
  cases event with
  | published receipt destination released =>
    obtain ⟨data, q, hcreate, hallowed⟩ := hstep
    obtain ⟨rfl, rfl⟩ := ((PathTree.has_create hcreate).mp h').resolve_left h
    have hfold := (PathTree.create_eq_some hcreate).2.2.2.1
    rcases hallowed with ⟨output, houtput, rfl⟩ | ⟨rfl, hname⟩
    · exact .archive houtput hfold
    · exact .plugin hname hfold
  | removed path =>
    obtain ⟨q, leaf, -, herased⟩ := deleteFile_eq_ok hstep.1
    exact absurd ((herased p n).mp h').1 h
  | pruned path =>
    obtain ⟨q, -, herased⟩ := removeDirectory_eq_ok hstep.1
    exact absurd ((herased p n).mp h').1 h
  | packed receipt => exact absurd (hstep ▸ h') h
  | pluginPinned plugin => exact absurd (hstep ▸ h') h
  | listed archive => exact absurd (hstep ▸ h') h
  | unloaded => exact absurd (hstep ▸ h') h
  | readWhole source => exact absurd (hstep ▸ h') h
  | extracted receipt name data => exact hstep.elim
  | renamed source backup => exact hstep.elim
  | repinned source => exact hstep.elim

/-- **After a run of such changes, whatever stood is unchanged or was allowed to go, and whatever is new was allowed.** -/
theorem trace_framed {events : List Event} {disk' : Disk V}
    (h : Trace (FrameStep seams request roots plan disk₀) events disk₀ disk') :
    (∀ p n, disk₀.Has p n → disk'.Has p n ∨ Gone seams request roots plan disk₀ p n) ∧
      ∀ p n, disk'.Has p n → disk₀.Has p n ∨ ∃ disk : Disk V, Made request plan disk p n := by
  refine h.invariant (I := fun disk => (∀ p n, disk₀.Has p n → disk.Has p n ∨ Gone seams request roots plan disk₀ p n) ∧
    ∀ p n, disk.Has p n → disk₀.Has p n ∨ ∃ disk : Disk V, Made request plan disk p n)
    (fun event _ disk disk' hstep hI => ⟨fun p n h₀ => ?_, fun p n h' => ?_⟩)
    ⟨fun _ _ h => .inl h, fun _ _ h => .inl h⟩
  · rcases hI.1 p n h₀ with hdisk | hgone
    · by_cases h' : disk'.Has p n
      · exact .inl h'
      · exact .inr (gone_of_step hstep h₀ hdisk h')
    · exact .inr hgone
  · by_cases hdisk : disk.Has p n
    · exact hI.2 p n hdisk
    · exact .inr ⟨disk, made_of_step hstep hdisk h'⟩

/-- The frame of a phase, from one state to another. -/
structure InFrame (seams : FinalizationSeams) (request : FinalizationRequest) (roots : List Path)
    (s s' : Site V Finalization) (plan : FinalizationPlan) (events : List Event) : Prop where
  planned : IsPlan seams request roots s plan
  did : Did (FrameStep seams request roots plan s.disk) events s s'
  kept : ∀ p n, s.disk.Has p n → s'.disk.Has p n ∨ Gone seams request roots plan s.disk p n
  added : ∀ p n, s'.disk.Has p n → s.disk.Has p n ∨ ∃ disk : Disk V, Made request plan disk p n

/-- **Archive Finalization always ends, and changes nothing outside its frame.** -/
theorem finalizeArchives_framed (seams : FinalizationSeams) (request : FinalizationRequest)
    (preparation : RunPreparation) (s : Site V Finalization) :
    (finalizeArchives seams request preparation s).1 ≠ .crash ∧
      ∃ plan events, InFrame seams (request.prepared preparation) preparation.modRoots s
        (finalizeArchives seams request preparation s).2 plan events := by
  have hspec : Spec (finalizeArchives seams request preparation) s
      (fun _ s' => Framed seams (request.prepared preparation) preparation.modRoots s s')
      (fun _ s' => Framed seams (request.prepared preparation) preparation.modRoots s s') fun _ => False := by
    refine spec_bind.mpr (Prog.spec_modify.mpr (spec_bind.mpr (Prog.spec_attempt.mpr (spec_runPhase.mono ?_ ?_
      fun _ h => h))))
    · rintro _ s₁ ⟨plan, hplan, h₁⟩
      exact spec_framed hplan h₁ along_finishPhase
    · rintro ((detail | detail) | message) s₁ ⟨plan, hplan, h₁⟩
      · exact ⟨plan, hplan, h₁⟩
      · exact spec_framed hplan h₁ (along_escaped detail)
      · exact spec_framed hplan h₁ (along_escaped message)
  have hframed : ∀ {s' : Site V Finalization}, Framed seams (request.prepared preparation) preparation.modRoots s s' →
      ∃ plan events, InFrame seams (request.prepared preparation) preparation.modRoots s s' plan events := by
    rintro s' ⟨plan, hplan, events, hdid⟩
    obtain ⟨hkept, hadded⟩ := trace_framed hdid.tree
    exact ⟨plan, events, hplan, hdid, hkept, hadded⟩
  unfold Spec at hspec
  split at hspec
  · next hrun =>
    rw [hrun]
    exact ⟨nofun, hframed hspec⟩
  · next hrun =>
    rw [hrun]
    exact ⟨nofun, hframed hspec⟩
  · exact hspec.elim

end Cao.Finalize
