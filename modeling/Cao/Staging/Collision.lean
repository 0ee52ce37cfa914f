import Cao.Staging.CrashAnywhere
import Cao.Staging.Untouched

/-!
# A name that was taken

* `Meets`, `Settles`, **`Collides`**: a staging operation meets an entry at the name it registered, and its
  registration is withdrawn or the conflict marked; **`Collides.perform`**: that is how the operation then fails;
* `Collides.aside`: the entry is set aside;
* `Proven.unmarked`, **`Guarded.recover`**: recovery leaves what is guarded;
* **`collision_spared`**: nothing the run does afterwards, and no later recovery, removes the entry.
-/

namespace Cao

open Finalize (AsciiCase)

variable {K : Type} [DecidableEq K] {V : Volume K} {q : Path} {n : Node Leaf} {w w' : Machine V}
variable {root runId : Text} {used : List Nonce} {random : Nonce}

/-! ## The collision -/

/-- The registration of `a` is published, and its create-new step meets the entry `q`. -/
structure Meets (root : Text) (area : Area) (a : Artifact) (w w' : Machine V) (q : Path) (n : Node Leaf) : Prop where
  claimed : w.scope.area = some area
  published : ∃ w₁ taken,
    publishManifest root w.scope.runId area.child (area.artifacts ++ [a]) w = (.done (), w₁) ∧
    writeNewFile (artifactPath a) [] (w₁.mapArea fun area' => { area' with artifacts := area.artifacts ++ [a] }) =
      (.fail (.collision taken), w')
  occupied : w'.disk.Has q n
  named : q.map V.fold = (artifactPath a).map V.fold

/-- The registration is withdrawn, or the conflict control written. -/
def Settles (root runId : Text) (area : Area) (w w' : Machine V) : Prop :=
  publishManifest root runId area.child area.artifacts
      (w.mapArea fun area => { area with artifacts := area.artifacts.dropLast }) = (.done (), w') ∨
    ∃ e w₁ control, publishManifest root runId area.child area.artifacts
        (w.mapArea fun area => { area with artifacts := area.artifacts.dropLast }) = (.fail e, w₁) ∧
      writeNewFile (controlPath conflictControl) conflictBytes w₁ = (.done control, w')

/-- **A staging operation collides** with the entry `q`, and settles it. -/
def Collides (root : Text) (operation : Operation) (w w' : Machine V) (q : Path) (n : Node Leaf) : Prop :=
  ∃ x chosen w₁ area w₂, choose root operation = some x ∧ x w = (.done chosen, w₁) ∧
    Meets root area ⟨chosen.relative, false, chosen.rootRelative⟩ w₁ w₂ q n ∧
    Settles root w₁.scope.runId area w₂ w'

/-- **A collision is a failure of the operation.** -/
theorem Collides.perform {operation : Operation} (h : Collides root operation w w' q n) :
    ∃ e, perform root operation w = (.fail e, w') := by
  obtain ⟨x, chosen, w₁, area, w₂, hx, hchosen, ⟨harea, ⟨wp, taken, hpublish, hwrite⟩, -, -⟩, hsettles⟩ := h
  rw [perform_choose hx, Prog.bind_of_done hchosen]
  have hget : (Prog.get : Prog (Machine V) StagingError _) w₁ = (.done w₁, w₁) := rfl
  have hmodify : ∀ (f : Area → Area) (w : Machine V), modifyArea f w = (.done (), w.mapArea f) := fun _ _ => rfl
  have hcreate : ∃ e, createRegisteredFile root chosen.relative chosen.rootRelative w₁ = (.fail e, w') := by
    unfold createRegisteredFile
    rw [Prog.bind_of_done hget, harea]
    dsimp only
    rw [Prog.bind_of_done hpublish, Prog.bind_of_done (hmodify _ _)]
    unfold createOrWithdraw
    rw [Prog.bind_of_done (Prog.attempt_of_fail hwrite)]
    dsimp only
    rw [Prog.bind_of_done (hmodify _ _)]
    rcases hsettles with hdone | ⟨e, w₃, control, hfail, hcontrol⟩
    · exact ⟨_, Prog.bind_of_done (Prog.attempt_of_done hdone)⟩
    · rw [Prog.bind_of_done (Prog.attempt_of_fail hfail)]
      exact ⟨e, Prog.bind_of_done (Prog.attempt_of_done hcontrol)⟩
  obtain ⟨e, he⟩ := hcreate
  exact ⟨e, Prog.bind_of_fail he⟩

/-- **A collision sets the entry aside.** -/
theorem Collides.aside {operation : Operation} (h : Collides root operation w w' q n)
    (hledger : Ledger False root runId used w) (haside : ∀ random, operation.nonces = [random] → Minted V random q →
      Aside False root runId q n w) :
    ∃ random, operation.nonces = [random] ∧ Minted V random q ∧ Aside True root runId q n w' := by
  obtain ⟨x, chosen, w₁, area, w₂, hx, hchosen, ⟨harea, ⟨wp, taken, hpublish, hwrite⟩, hoccupied, hnamed⟩, hsettles⟩ := h
  obtain ⟨random, hnonces, hspec⟩ := spec_choose hx hledger False.elim
  have hchose : ChoseName False root runId used random chosen.relative chosen.rootRelative w₁ := hspec.of_done hchosen
  obtain ⟨hledger₁, area', harea', hchild, hcarry⟩ := hchose
  obtain rfl := Option.some.inj (harea'.symm.trans harea)
  have hlist : RunList False runId area'.child used area'.artifacts :=
    (hledger₁.listed area' harea).resolve_left fun he => hchild he.1
  have hminted : Minted V random q := ⟨_, _, _, _, hlist.named, hcarry, hnamed⟩
  refine ⟨random, hnonces, hminted, ?_⟩
  have h₁ : Aside False root runId q n w₁ :=
    (keeps_aside_choose hx hminted w (haside random hnonces hminted)).of_done hchosen
  have hunowned := h₁.unowned area' harea
  have hcontrol := hminted.entry.2
  have hwp := spec_publication.of_done hpublish
  have hsame : Same _ w₂ := (spec_writeNewFile.of_fail hwrite).2 taken rfl
  have hregistered : w₁.scope = ⟨w₁.scope.runId, some area'⟩ := by rw [← harea]
  -- what is dropped again is what was registered
  unfold Settles at hsettles
  generalize hw₃ : (w₂.mapArea fun area => { area with artifacts := area.artifacts.dropLast }) = w₃ at hsettles
  have hscope : w₃.scope = w₁.scope := by
    rw [← hw₃, mapArea_scope, hsame.scope, mapArea_scope, show wp.scope = w₁.scope from hwp.memory.1, harea,
      Option.map_some, Option.map_some, List.dropLast_concat]
    exact hregistered.symm
  have hdurable : w₃.durable = w₁.durable := by
    rw [← hw₃]
    show w₂.durable = _
    rw [hsame.spares.durable]
    exact hwp.memory.2
  have hpresent : w₃.disk.Has q n := by
    rw [← hw₃]
    exact hoccupied
  rcases hsettles with hdone | ⟨e, w₄, control, hfail, hcontrolled⟩
  · have hpublished := spec_publication.of_done hdone
    rw [h₁.run] at hpublished
    exact h₁.meet (hpublished.memory.1.trans hscope) (hpublished.memory.2.trans hdurable) harea hchild
      (hpublished.guards hcontrol hlist hunowned hpresent)
  · have hbegun := (spec_publication.of_fail hfail).spares
    have hmark := spec_writeNewFile.of_done hcontrolled
    refine h₁.meet (hmark.spares.scope.trans (hbegun.scope.trans hscope))
      (hmark.spares.durable.trans (hbegun.durable.trans hdurable)) harea hchild
      ⟨hmark.spares.disk q n (hbegun.disk q n hpresent id) id, control, _, (hmark.disk _ _).mpr (.inr ⟨rfl, rfl⟩),
        .inl hmark.fold⟩

/-! ## Recovery -/

variable {manifest : Manifest} {pins : Pins}

/-- A marked area is not proven. -/
theorem Proven.unmarked (hV : AsciiCase V) {d : Disk V} (hread : ReadsAs d root (controlPath manifestName) manifest)
    (hproven : Proven manifest d pins) {r : Path} {m : Node Leaf} (hr : d.Has r m) :
    r.map V.fold ≠ (controlPath conflictControl).map V.fold := by
  intro he
  obtain ⟨rest, rfl, hne, hrest⟩ := under_staging hproven.area hr (by simp) he
  obtain ⟨_, _, _, _, -, -, hparse⟩ := hread
  obtain ⟨header, _, hh, -, -, hadmitted⟩ := parseManifest_sound hparse
  obtain ⟨-, -, hchild, -⟩ := parseHeader_ok hh
  have hname : ∀ {name : Text}, staging ++ rest = controlPath name →
      V.fold (OsStr.ofText name) = V.fold (OsStr.ofText conflictControl) := by
    intro name hpath
    rw [List.append_cancel_left hpath] at hrest
    exact List.singleton_inj.mp hrest
  have hlength : ∀ {name : Text}, staging ++ rest = controlPath name → name.length = conflictControl.length :=
    fun hpath => length_of_fold (congrArg (fun key => [key]) (hname hpath))
  rcases hproven.entries rest m hne hr with h | h | ⟨-, h, -⟩ | ⟨a, ha, hrelative, h, -⟩
  · exact absurd (hlength h) (by decide)
  · -- the two names are equally long, and differ after the dot
    exact absurd (hV _ _ (hname h) 10 'm' 'c' (by decide) (by decide) (by decide) (by decide)) (by decide)
  · exact absurd (hlength h) (by decide)
  · obtain ⟨parts, hparts⟩ := control_path_length hchild hadmitted ha hrelative
    rw [hparts] at h
    have hrest' : rest = (header.child :: parts).map OsStr.ofText := (List.cons.inj h).2.symm
    rw [hrest', List.map_cons, List.map_cons, List.map_singleton] at hrest
    have hlong := hchild.length
    have := length_of_fold (V := V) (a := header.child) (b := conflictControl)
      (congrArg (fun key => [key]) (List.cons.inj hrest).1)
    rw [this] at hlong
    exact absurd hlong (by decide)

/-- What a recovery removed was owned by a proven area. -/
theorem recover_owned (stop : CancellationToken) (root : Text) (w : Machine V) :
    (recover stop root w).2.disk = w.disk ∨ ∃ manifest pins,
      ReadsAs w.disk root (controlPath manifestName) manifest ∧ Proven manifest w.disk pins ∧
        ∀ p n, w.disk.Has p n → (recover stop root w).2.disk.Has p n ∨ Owned manifest w.disk p := by
  refine Prog.Spec.ends (P := fun w' : Machine V => w'.disk = w.disk ∨ ∃ manifest pins,
    ReadsAs w.disk root (controlPath manifestName) manifest ∧ Proven manifest w.disk pins ∧
      ∀ p n, w.disk.Has p n → w'.disk.Has p n ∨ Owned manifest w.disk p) ?_
  unfold recover
  rw [Prog.spec_bind]
  refine (spec_proveOwnership stop root w).mono (fun o w₁ ⟨hs, ho⟩ => ?_) (fun _ _ h => .inl h.disk)
    fun _ h => .inl h.disk
  cases o with
  | none => exact .inl hs.disk
  | some found =>
    obtain ⟨manifest, pins⟩ := found
    obtain ⟨-, hread, hproven⟩ := ho
    rw [← hs.disk] at hread hproven ⊢
    have hkept : ∀ {w' : Machine V}, Partial manifest w₁.disk w₁ w' → w'.disk = w₁.disk ∨ ∃ manifest pins,
        ReadsAs w₁.disk root (controlPath manifestName) manifest ∧ Proven manifest w₁.disk pins ∧
          ∀ p n, w₁.disk.Has p n → w'.disk.Has p n ∨ Owned manifest w₁.disk p := fun h =>
      .inr ⟨manifest, pins, hread, hproven, h.kept⟩
    refine (spec_deletion stop hread hproven).mono (fun _ w₂ h₂ => ?_) (fun _ w₂ h₂ => hkept h₂.2) fun w₂ h₂ => hkept h₂
    refine .inr ⟨manifest, pins, hread, hproven, fun p n hp => ?_⟩
    by_cases howned : Owned manifest w₁.disk p
    · exact .inr howned
    · exact .inl ((h₂.disk p n).mpr ⟨hp, howned⟩)

/-- **A recovery leaves what is guarded**, and its guard. -/
theorem Guarded.recover (hV : AsciiCase V) (hq : ¬ Control V q) (stop : CancellationToken) {w : Machine V}
    (h : Guarded root q n w.disk) : Guarded root q n (recover stop root w).2.disk := by
  obtain ⟨hpresent, r, m, hr, hguards⟩ := h
  rcases recover_owned stop root w with hsame | ⟨manifest, pins, hread, hproven, hkept⟩
  · rw [hsame]
    exact ⟨hpresent, r, m, hr, hguards⟩
  rcases hguards with hmark | ⟨hmanifest, data, links, rfl, hparse⟩
  · exact absurd hmark (hproven.unmarked hV hread hr)
  obtain ⟨s, data', links', polls, hfind, -, hparsed⟩ := hread
  have hs := (PathTree.find_eq_some (by simp [controlPath, staging])).mp hfind
  have hdata := (hs.1.unique hr (hs.2.trans hmanifest.symm)).2
  rw [Node.leaf.injEq, Leaf.file.injEq] at hdata
  obtain ⟨hnamed, hcontrols⟩ := hparse polls manifest (hdata.1 ▸ hparsed)
  -- the records name neither, and the scratch is another control file
  have howned : ∀ p, p.map V.fold ≠ (controlPath manifestScratch).map V.fold → ¬ Named V manifest.artifacts p →
      ¬ Owned manifest w.disk p := by
    rintro p hscratch hnone (⟨-, k, hp⟩ | ⟨a, ha, k, hp⟩)
    · exact hscratch (PathTree.fold_of_find hp)
    · exact hnone ⟨a, ha, PathTree.fold_of_find hp⟩
  refine ⟨(hkept q n hpresent).resolve_right (howned q (fun he => ?_) hnamed), r, _,
    (hkept r _ hr).resolve_right (howned r (fun he => ?_) (hcontrols r ?_)),
    .inr ⟨hmanifest, data, links, rfl, hparse⟩⟩
  · exact hq ((control_of_mem (by simp [controls])).congr he)
  · have hname := hmanifest.symm.trans he
    have hlength : manifestName.length = manifestScratch.length := length_of_fold (List.cons.inj hname).2
    exact absurd hlength (by decide)
  · exact (control_of_mem (by simp [controls])).congr hmanifest

/-! ## Whatever follows -/

/-- A recovery by a later process: its cancellation, the fates of its steps, and its run. -/
structure Recovery where
  stop : CancellationToken
  tape : List Fate
  runId : Text

/-- Recoveries of the root, one after another. -/
def recoverEach (root : Text) : List Recovery → Disk V → Disk V
  | [], disk => disk
  | recovery :: rest, disk =>
    recoverEach root rest (recover recovery.stop root (Machine.start disk recovery.tape recovery.runId)).2.disk

theorem Guarded.recoverEach (hV : AsciiCase V) (hq : ¬ Control V q) (recoveries : List Recovery) {disk : Disk V}
    (h : Guarded root q n disk) : Guarded root q n (recoverEach root recoveries disk) := by
  induction recoveries generalizing disk with
  | nil => exact h
  | cons recovery rest ih => exact ih (Guarded.recover hV hq recovery.stop h)

/-- A run goes on after an operation that failed. -/
theorem run_append {before later : List Operation} {operation : Operation} {e : StagingError} {w₀ : Machine V}
    (hbefore : run root before w₀ = (.done (), w)) (h : perform root operation w = (.fail e, w')) :
    run root (before ++ operation :: later) w₀ = run root later w' := by
  unfold run at hbefore ⊢
  rw [Prog.forEach_append, Prog.bind_of_done hbefore]
  refine Prog.bind_of_done (Prog.bind_of_done (f := fun _ => pure ()) (Prog.attempt_of_fail h))

/-- **A colliding entry is never adopted.** Where the create-new step of a staging operation meets an entry at the
name it chose, and the registration is then withdrawn or the conflict marked, the entry stands as it was whatever
the run does afterwards and wherever it dies, and through any later recoveries. -/
theorem collision_spared (hV : AsciiCase V) (root runId : Text) (disk : Disk V) (tape : List Fate)
    (before later : List Operation) (operation : Operation) (recoveries : List Recovery)
    (hfresh : (noncesOf (before ++ operation :: later)).Nodup)
    (hbefore : run root before (Machine.start disk tape runId) = (.done (), w))
    (hcollides : Collides root operation w w' q n) :
    (after root runId disk tape (before ++ operation :: later)).disk.Has q n ∧
      (recoverEach root recoveries (after root runId disk tape (before ++ operation :: later)).disk).Has q n := by
  have hledger : Ledger False root runId (noncesOf before) w :=
    (ledger_run before ledger_start False.elim False.elim).of_done hbefore
  have hnonces : noncesOf (before ++ operation :: later) = noncesOf before ++ (operation.nonces ++ noncesOf later) := by
    simp [noncesOf]
  rw [hnonces, List.nodup_append, List.nodup_append] at hfresh
  obtain ⟨-, ⟨-, -, hlater⟩, hearlier⟩ := hfresh
  -- before the collision no operation draws the nonce, so no list names the entry
  obtain ⟨random, hrandom, hminted, haside⟩ := hcollides.aside hledger fun random hrandom hminted => by
    have hstart : Aside False root runId q n (Machine.start disk tape runId) := by
      refine ⟨rfl, ?_, ?_, ?_, False.elim, False.elim⟩
      · intro area harea
        cases harea
      · intro area harea
        cases harea
      · intro d hd
        cases hd
    refine ((aside_run hV hminted before ledger_start hstart fun hm => ?_).of_done hbefore).2
    exact hearlier random hm random (by rw [hrandom]; simp) rfl
  obtain ⟨e, hperform⟩ := hcollides.perform
  have hledger' := (spec_perform operation hledger False.elim False.elim).of_fail hperform
  have hnew : random ∉ noncesOf later := fun hm => hlater random (by rw [hrandom]; simp) random hm rfl
  have hrun := aside_run hV hminted later hledger' haside hnew
  have hend : Guarded root q n (run root later w').2.disk :=
    ((hrun.mono (fun _ _ h => h.2) (fun _ _ h => h.elim) fun _ h => h).ends).guarded trivial
  unfold after
  rw [run_append hbefore hperform]
  exact ⟨hend.1, (hend.recoverEach hV hminted.entry.2 recoveries).1⟩

/-! ## A taken name -/

/-- The mesh of the sample, staged for publication. -/
def takenOperation : Operation :=
  .stageForPublication (["a".toList, "x.NIF".toList].map OsStr.ofText) (sampleNonce 10) (sampleNonce 11)

/-- The name it chooses. -/
def takenName : Text := siblingName "r".toList ".cao-staging-mesh-".toList ".nif".toList (sampleNonce 11)

/-- The run's area when it registers it. -/
def takenArea : Area where
  child := "run-r-".toList ++ nonceText (sampleNonce 10)
  artifacts := [⟨"run-r-".toList ++ nonceText (sampleNonce 10), true, false⟩]
  parentPins := [[OsStr.ofText "a".toList]]
  ready := true

theorem run_eq {σ ε α : Type} {x : Prog σ ε α} {s : σ} {o : Outcome ε α} (h : (x s).1 = o) : x s = (o, (x s).2) :=
  Prod.ext h rfl

/-- The name is taken and the withdrawal refused: the conflict is marked. -/
theorem taken_collides : ∃ w' : Machine asciiVolume,
    Collides "C:/M".toList takenOperation (Machine.start takenDisk refusedWithdrawal "r".toList) w'
      (["a".toList, takenName].map OsStr.ofText) (.leaf (.file [] 1)) := by
  refine ⟨_, _, ⟨"a/".toList ++ takenName, true,
      some ⟨some (["a".toList, "x.NIF".toList].map OsStr.ofText), some none⟩⟩, _, takenArea, _, rfl,
    run_eq (by decide +kernel), ⟨by decide +kernel, ⟨_, artifactPath ⟨"a/".toList ++ takenName, false, true⟩,
      run_eq (by decide +kernel), run_eq (by decide +kernel)⟩, ?_, by decide +kernel⟩,
    .inr ⟨.io "Create" (controlPath manifestScratch) .fault, _, controlPath conflictControl,
      run_eq (by decide +kernel), run_eq (by decide +kernel)⟩⟩
  unfold PathTree.Has
  decide +kernel

theorem collision_spared_sample :
    (after "C:/M".toList "r".toList takenDisk refusedWithdrawal ([] ++ takenOperation :: [.cleanup])).disk.Has
        (["a".toList, takenName].map OsStr.ofText) (.leaf (.file [] 1)) ∧
      (recoverEach "C:/M".toList [⟨.new, [], "s".toList⟩]
          (after "C:/M".toList "r".toList takenDisk refusedWithdrawal ([] ++ takenOperation :: [.cleanup])).disk).Has
        (["a".toList, takenName].map OsStr.ofText) (.leaf (.file [] 1)) := by
  obtain ⟨w', h⟩ := taken_collides
  exact collision_spared Finalize.asciiVolume_asciiCase "C:/M".toList "r".toList takenDisk refusedWithdrawal [] [.cleanup]
    takenOperation [⟨.new, [], "s".toList⟩] (by decide) rfl h

end Cao
