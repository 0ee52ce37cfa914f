import Cao.Staging.Ledger

/-!
# Every operation keeps the ledger

However an operation of the scope ends, by success, by a failure at any step or by a crash, the ledger
holds of what it leaves.

* **`spec_publication`**, **`spec_publishManifest`**: a published list is on disk, and nothing but control
  files moved;
* **`spec_createRegisteredFile`**: a registered file comes after its registration;
* `choose`, **`spec_choose`**, **`perform_choose`**: an operation that stages a file chooses its name first;
* **`keeps_prepareRoot`**, **`spec_prepareArea`**, **`spec_releaseFile`**, **`keeps_cleanupArtifacts`**,
  **`keeps_publish`**: the other operations;
* **`ledger_run`**: any sequence of operations.
-/

namespace Cao

variable {K : Type} [DecidableEq K] {V : Volume K} {p q : Path} {n : Node Leaf} {w w' : Machine V}
variable {l : List Artifact} {a : Artifact} {strict : Prop} {root runId child : Text}
variable {used used' : List Nonce} {random : Nonce} {ε α : Type}

/-! ## Steps that touch control files only -/

/-- A program that touches control files only, and leaves the manifest. -/
def Quietly (x : Prog (Machine V) ε α) : Prop := ∀ w, Prog.Keeps (Kept w) x

omit [DecidableEq K] in
theorem quietly_of_spec {x : Prog (Machine V) ε α}
    (h : ∀ w, Prog.Spec x w (fun _ w' => Kept w w') (fun _ w' => Kept w w') (Kept w)) : Quietly x :=
  fun _ w hw => (h w).mono (fun _ _ h' => hw.trans h') (fun _ _ h' => hw.trans h') fun _ h' => hw.trans h'

omit [DecidableEq K] in
theorem Quietly.spec {x : Prog (Machine V) ε α} (h : Quietly x) (w : Machine V) :
    Prog.Spec x w (fun _ w' => Kept w w') (fun _ w' => Kept w w') (Kept w) := h w w (.refl w)

omit [DecidableEq K] in
theorem quietly_of_observes {x : Prog (Machine V) ε α} {R : Disk V → α → Prop}
    (h : ∀ d, Observes d x (R d)) :
    Quietly x := quietly_of_spec fun w =>
  (h w.disk w rfl).mono (fun _ _ h' => h'.1.kept) (fun _ _ h' => h'.kept) fun _ h' => h'.kept

omit [DecidableEq K] in
theorem Quietly.ledger {x : Prog (Machine V) ε α} (h : Quietly x) :
    Prog.Keeps (Ledger strict root runId used) x := fun w hw =>
  (h.spec w).mono (fun _ _ hk => hw.kept hk) (fun _ _ hk => hw.kept hk) fun _ hk => hw.kept hk

omit [DecidableEq K] in
/-- A quiet program before another. -/
theorem Quietly.before {β : Type} {x : Prog (Machine V) ε α} (hx : Quietly x)
    {f : α → Prog (Machine V) ε β} {Q : β → Machine V → Prop} {E : ε → Machine V → Prop}
    {C : Machine V → Prop} (hf : ∀ a w', Kept w w' → Prog.Spec (f a) w' Q E C)
    (hE : ∀ e w', Kept w w' → E e w') (hC : ∀ w', Kept w w' → C w') : Prog.Spec (x >>= f) w Q E C :=
  Prog.spec_bind.mpr ((hx.spec w).mono hf hE hC)

theorem quietly_makeEntry (h : Control V p) : Quietly (makeEntry n p : Prog (Machine V) IoError Path) :=
  quietly_of_spec fun _ => spec_makeEntry.mono (fun _ _ ha => ha.kept h) (fun _ _ hs => hs.kept)
    fun _ hs => hs.kept

theorem quietly_writeNewFile (h : Control V p) {bytes : Bytes} :
    Quietly (writeNewFile p bytes : Prog (Machine V) StagingError Path) :=
  quietly_of_spec fun _ => spec_writeNewFile.mono (fun _ _ ha => ha.kept h)
    (fun _ _ hb => hb.1.kept h) fun _ hb => hb.kept h

/-! ## The manifest -/

/-- The machine once a publication of `l` is recorded. -/
def requested (w : Machine V) (child : Text) (l : List Artifact) : Machine V :=
  { w with requests := w.requests ++ [(child, l)] }

omit [DecidableEq K] in
theorem Ledger.requested (h : Ledger strict root runId used w)
    (hl : RunList strict runId child used l) :
    Ledger strict root runId used (requested w child l) := by
  refine { h with requests := fun r hr => ?_, covered := h.covered, unclaimed := h.unclaimed, safe := h.safe }
  rcases List.mem_append.mp hr with hr | hr
  · exact h.requests r hr
  · rw [List.mem_singleton.mp hr]
    exact hl

omit [DecidableEq K] in
theorem step_eq {f : Machine V → Except IoError (α × Machine V)} :
    Prog.Spec (step f) w (fun a w' => ∃ tape, f { w with tape } = .ok (a, w'))
      (fun _ w' => Same w w') (Same w) := by
  unfold Prog.Spec step
  rcases htape : w.tape with _ | ⟨_ | _ | _, tape⟩ <;> simp only
  · cases hf : f w with
    | ok e => exact ⟨w.tape, hf⟩
    | error e => rfl
  · cases hf : f { w with tape } with
    | ok e => exact ⟨tape, hf⟩
    | error e => rfl
  · rfl
  · rfl

/-- The snapshot of `l` was written as the scratch, and took the place of the manifest. -/
def Published (root runId child : Text) (l : List Artifact) (w w' : Machine V) : Prop :=
  ∃ w₁ scratch r d tape,
    Added (controlPath manifestScratch) scratch (.leaf (.file (manifestBytes root runId child l) 1)) w w₁ ∧
    w' = { w₁ with disk := d, tape := tape, made := w₁.made ++ [r] } ∧
    r.map V.fold = (controlPath manifestName).map V.fold ∧
    ∀ p m, d.Has p m ↔
      (w₁.disk.Has p m ∧ p ≠ scratch ∧ p.map V.fold ≠ (controlPath manifestName).map V.fold) ∨
        p = r ∧ m = .leaf (.file (manifestBytes root runId child l) 1)

/-- **The steps of a publication**: short of its rename it changes the scratch only. -/
theorem spec_publication : Prog.Spec (publishManifest root runId child l) w
    (fun _ w' => Published root runId child l (requested w child l) w')
    (fun _ w' => Begun (controlPath manifestScratch) (requested w child l) w')
    (Begun (controlPath manifestScratch) (requested w child l)) := by
  unfold publishManifest
  rw [Prog.spec_bind, Prog.spec_modify]
  show Prog.Spec _ (requested w child l) _ _ _
  split
  · exact .inl (.refl _)
  next bytes hbytes =>
  have hb : bytes = manifestBytes root runId child l := by
    unfold publishedBytes at hbytes
    dsimp only at hbytes
    split_ifs at hbytes
    exact (Option.some.inj hbytes).symm
  rw [Prog.spec_bind]
  refine spec_writeNewFile.mono (fun q w₁ h₁ => ?_) (fun e w₁ h₁ => h₁.1) fun w₁ h₁ => h₁
  refine Prog.spec_mapError.mpr (step_eq.mono (fun _ w₂ h₂ => ?_)
    (fun _ w₂ hs => .inr ⟨q, bytes, h₁.same hs⟩) fun w₂ hs => .inr ⟨q, bytes, h₁.same hs⟩)
  obtain ⟨tape, h₂⟩ := h₂
  -- the rename: what stood at the manifest is gone, the scratch stands there
  cases hr : renameEntry .replace (controlPath manifestScratch) (controlPath manifestName) w₁.disk with
  | error e => rw [hr] at h₂; cases h₂
  | ok e =>
    obtain ⟨r, d⟩ := e
    rw [hr] at h₂
    cases h₂
    obtain ⟨s, b, hfind, hfold, hhas⟩ := renameEntry_ok hr
    have hnew := (h₁.disk q _).mpr (.inr ⟨rfl, rfl⟩)
    have hsq : s = q ∧ Node.leaf b = .leaf (.file bytes 1) := by
      have hs := (PathTree.find_eq_some (by simp [controlPath, staging])).mp hfind
      exact hs.1.unique hnew (hs.2.trans h₁.fold.symm)
    obtain ⟨rfl, hbytes'⟩ := hsq
    rw [hbytes'] at hhas
    subst hb
    exact ⟨w₁, s, r, d, tape, h₁, rfl, hfold, hhas⟩

/-- **A publication**: when it succeeds the list is on disk; whatever happens only control files
moved. -/
theorem spec_publishManifest (h : Ledger strict root runId used w)
    (hl : RunList strict runId child used l) (hc : Covered w l) :
    Prog.Spec (publishManifest root runId child l) w
      (fun _ w' => Ledger strict root runId used w' ∧ Quiet (requested w child l) w' ∧
        OnDisk root w' child l)
      (fun _ w' => Ledger strict root runId used w' ∧ Quiet (requested w child l) w')
      (Ledger strict root runId used) := by
  have hscratch : Control V (controlPath manifestScratch) := control_of_mem (by simp [controls])
  have h₀ := h.requested hl
  refine spec_publication.mono (fun _ w' hp => ?_)
    (fun _ w' hb => ⟨h₀.kept (hb.kept hscratch), (hb.kept hscratch).toQuiet⟩)
    fun w' hb => h₀.kept (hb.kept hscratch)
  obtain ⟨w₁, scratch, r, d, tape, h₁, rfl, hfold, hhas⟩ := hp
  have hk₁ := h₁.kept hscratch
  have hl₁ := h₀.kept hk₁
  have hmanifest : Control V r := (control_of_mem (by simp [controls])).congr hfold
  have hquiet : Quiet w₁ { w₁ with disk := d, tape := tape, made := w₁.made ++ [r] } := by
    refine ⟨rfl, fun p hp => ?_, fun p m hp => ?_⟩
    · rcases List.mem_append.mp hp with hp | hp
      · exact .inl hp
      · rw [List.mem_singleton.mp hp]
        exact .inr hmanifest
    · rcases (hhas p m).mp hp with ⟨hp, -⟩ | ⟨rfl, -⟩
      · exact .inl ⟨m, hp⟩
      · exact .inr hmanifest
  have hrun : w₁.scope.runId = runId := hl₁.run
  have hdisk : OnDisk root { w₁ with disk := d, tape := tape, made := w₁.made ++ [r] } child l := by
    refine ⟨r, (hhas r _).mpr (.inr ⟨rfl, ?_⟩), hfold⟩
    show Node.leaf (Leaf.file (manifestBytes root w₁.scope.runId child l) 1) = _
    rw [hrun]
  have hq := hk₁.toQuiet.trans hquiet
  have hcovered : Covered { w₁ with disk := d, tape := tape, made := w₁.made ++ [r] } l :=
    (show Covered (Cao.requested w child l) l from hc).quiet hq
  refine ⟨hl₁.quiet hquiet (.inr ⟨child, l, hdisk, ?_, hcovered⟩), hq, hdisk⟩
  show RunList strict w₁.scope.runId child used l
  rw [hrun]
  exact hl

/-! ## Registered files -/

omit [DecidableEq K] in
theorem mapArea_area {f : Area → Area} : (w.mapArea f).scope.area = w.scope.area.map f := rfl

omit [DecidableEq K] in
theorem mapArea_scope {f : Area → Area} :
    (w.mapArea f).scope = { w.scope with area := w.scope.area.map f } := rfl

omit [DecidableEq K] in
theorem covered_mapArea {f : Area → Area} : Covered (w.mapArea f) l ↔ Covered w l := Iff.rfl

omit [DecidableEq K] in
theorem onDisk_mapArea {f : Area → Area} :
    OnDisk root (w.mapArea f) child l ↔ OnDisk root w child l := Iff.rfl

omit [DecidableEq K] in
/-- Change the claimed area's list. -/
theorem Ledger.mapArea (h : Ledger strict root runId used w) {area : Area} {f : Area → Area}
    (ha : w.scope.area = some area)
    (hl : (f area).child = [] ∧ (f area).artifacts = [] ∨
      RunList strict runId (f area).child used (f area).artifacts)
    (hc : Covered w (f area).artifacts) : Ledger strict root runId used (w.mapArea f) := by
  unfold Machine.mapArea
  rw [ha]
  exact h.setArea hl hc

omit [DecidableEq K] in
theorem spec_modifyArea {f : Area → Area} {Q : Unit → Machine V → Prop}
    {E : StagingError → Machine V → Prop} {C : Machine V → Prop} :
    Prog.Spec (modifyArea f) w Q E C ↔ Q () (w.mapArea f) := Iff.rfl

/-- A file of the run at `path`, which the manifest names. -/
structure Staged (strict : Prop) (root runId : Text) (used : List Nonce) (path : Path) (w : Machine V) :
    Prop where
  ledger : Ledger strict root runId used w
  backed : Backed strict root used w
  claimed : w.scope.area ≠ none
  placed : ¬ Control V path

/-- Once the manifest names it, a file is created, or its name withdrawn. -/
theorem spec_createOrWithdraw {area : Area} (h : Ledger strict root runId used w)
    (harea : w.scope.area = some area) (hchild : area.child = child)
    (hartifacts : area.artifacts = l ++ [a]) (hlist : RunList strict runId child used l)
    (hlist' : RunList strict runId child used (l ++ [a])) (hc : Covered w l)
    (hd : OnDisk root w child (l ++ [a])) :
    Prog.Spec (createOrWithdraw root runId child l (artifactPath a)) w
      (Staged strict root runId used)
      (fun _ w' => Ledger strict root runId used w') (Ledger strict root runId used) := by
  have hnamed : Named V (l ++ [a]) (artifactPath a) := ⟨a, by simp, rfl⟩
  have hregistered : registered w = l ++ [a] := by
    unfold registered
    rw [harea]
    exact hartifacts
  have hbegun : ∀ {w'}, Begun (artifactPath a) w w' → Ledger strict root runId used w' := by
    rintro w' (hs | ⟨q, data, hadd⟩)
    · exact h.same hs
    · exact (h.created hadd hd hlist' hregistered hnamed).1
  unfold createOrWithdraw
  rw [Prog.spec_bind, Prog.spec_attempt]
  refine spec_writeNewFile.mono (fun q w₁ h₁ => ?_) (fun e w₁ ⟨hb, hcollision⟩ => ?_) fun w₁ hb => hbegun hb
  · obtain ⟨h₂, hbacked⟩ := h.created h₁ hd hlist' hregistered hnamed
    refine ⟨h₂, hbacked, ?_, (hlist'.entry (V := V) (by simp)).2 _ rfl⟩
    rw [h₁.frame]
    show w.scope.area ≠ none
    rw [harea]
    nofun
  cases e with
  | collision taken =>
    have hs : Same w w₁ := hcollision taken rfl
    have harea₁ : w₁.scope.area = some area := hs.scope.symm ▸ harea
    have hdrop : area.artifacts.dropLast = l := by rw [hartifacts, List.dropLast_concat]
    dsimp only
    have hc₁ : Covered w₁ l := hc.quiet hs.kept.toQuiet
    rw [Prog.spec_bind, spec_modifyArea]
    have h₂ := (h.same hs).mapArea
      (f := fun area => { area with artifacts := area.artifacts.dropLast }) harea₁
      (.inr (by show RunList _ _ area.child _ area.artifacts.dropLast; rw [hdrop, hchild]; exact hlist))
      (by show Covered _ area.artifacts.dropLast; rw [hdrop]; exact hc₁)
    rw [Prog.spec_bind, Prog.spec_attempt]
    refine (spec_publishManifest h₂ hlist (covered_mapArea.mpr hc₁)).mono
      (fun _ w₃ h₃ => h₃.1) (fun e w₃ h₃ => ?_) fun w₃ h₃ => h₃
    dsimp only
    rw [Prog.spec_bind, Prog.spec_attempt]
    have hconflict : Control V (controlPath conflictControl) := control_of_mem (by simp [controls])
    exact (quietly_writeNewFile hconflict).ledger w₃ h₃.1
  | _ => exact hbegun hb

/-- **A registered file** is created after the manifest names it; a name that was taken is withdrawn. -/
theorem spec_createRegisteredFile {relative : Text} {rootRelative : Bool} {area : Area}
    (h : Ledger strict root runId used w) (harea : w.scope.area = some area) (hne : area.child ≠ [])
    (hcarry : Carries strict (random :: used) runId area.child random ⟨relative, false, rootRelative⟩)
    (hfresh : strict → random ∉ used) :
    Prog.Spec (createRegisteredFile root relative rootRelative) w
      (Staged strict root runId (random :: used))
      (fun _ w' => Ledger strict root runId (random :: used) w')
      (Ledger strict root runId (random :: used)) := by
  have hlist : RunList strict runId area.child used area.artifacts :=
    (h.listed area harea).resolve_left fun he => hne he.1
  have hmono : ∀ m ∈ used, m ∈ random :: used := fun m hm => List.mem_cons_of_mem _ hm
  have hregister := hlist.register hcarry hfresh
  have hcovered : Covered w area.artifacts := by
    have := h.covered
    unfold registered at this
    rwa [harea] at this
  have hwider : ∀ {w : Machine V} {l}, Covered w l → Covered w (l ++ [⟨relative, false, rootRelative⟩]) :=
    fun hc p hp hpresent => (hc p hp hpresent).imp id fun ⟨b, hb, he⟩ =>
      ⟨b, List.mem_append_left _ hb, he⟩
  unfold createRegisteredFile
  rw [Prog.spec_bind, Prog.spec_get, harea, h.run]
  dsimp only
  rw [Prog.spec_bind]
  refine (spec_publishManifest (h.mono hmono) hregister (hwider hcovered)).mono
    (fun _ w₁ ⟨h₁, hq₁, hd₁⟩ => ?_) (fun _ w₁ h₁ => h₁.1) fun w₁ h₁ => h₁
  have harea₁ : w₁.scope.area = some area := hq₁.scope.symm ▸ harea
  have hcovered₁ : Covered w₁ area.artifacts :=
    (show Covered (requested w _ _) _ from hcovered).quiet hq₁
  rw [Prog.spec_bind, spec_modifyArea]
  have h₂ := h₁.mapArea (f := fun a => { a with artifacts :=
    area.artifacts ++ [⟨relative, false, rootRelative⟩] }) harea₁ (.inr hregister) (hwider hcovered₁)
  have harea₂ : (w₁.mapArea fun a => { a with artifacts :=
      area.artifacts ++ [⟨relative, false, rootRelative⟩] }).scope.area =
      some { area with artifacts := area.artifacts ++ [⟨relative, false, rootRelative⟩] } := by
    rw [mapArea_area, harea₁]
    rfl
  exact spec_createOrWithdraw h₂ harea₂ rfl rfl (hlist.mono hmono) hregister
    (covered_mapArea.mpr hcovered₁) (onDisk_mapArea.mpr hd₁)

/-! ## Recovery and the area -/

omit [DecidableEq K] in
/-- What a recovery removes from an unclaimed root. -/
theorem Ledger.shrunk (h : Ledger strict root runId used w) (ha : w.scope.area = none)
    (hs : Shrunk w w') (hd : ∀ r m, w'.disk.Has r m → w.disk.Has r m) :
    Ledger strict root runId used w' ∧ Covered w' [] := by
  have hf : w' = { w with disk := w'.disk, tape := w'.tape } := hs
  have hq : Quiet w w' := by
    refine ⟨?_, fun p hp => ?_, fun p n hp => .inl ⟨n, hd p n hp⟩⟩
    · rw [hf]
    · rw [hf] at hp
      exact .inl hp
  have hc : Covered w [] := by
    have := h.covered
    unfold registered at this
    rwa [ha] at this
  refine ⟨h.quiet hq (.inl ⟨hc.quiet hq, ?_⟩), hc.quiet hq⟩
  rw [hf]
  exact h.unclaimed ha

theorem keeps_recover {stop : CancellationToken} :
    Prog.Keeps (Ledger (V := V) strict root runId used) (recover stop root) := by
  intro w h
  have hend : ∀ {w'}, Shrunk w w' ∧ Touched root w w' → Ledger strict root runId used w' := by
    rintro w' ⟨hs, hsame | ⟨ha, manifest, -, hp⟩⟩
    · have hf : w' = { w with disk := w'.disk, tape := w'.tape } := hs
      rw [hsame] at hf
      exact h.same hf
    · exact (h.shrunk ha hs hp.old).1
  refine (spec_recover stop root w).mono (fun _ w' hd => ?_) (fun _ _ => hend) fun _ => hend
  rcases hd with ⟨hs, -⟩ | ⟨ha, manifest, pins, -, -, hr⟩
  · exact h.same hs
  · have hs : Shrunk w { w with disk := w'.disk, tape := w'.tape } := rfl
    obtain ⟨hl, hc⟩ := h.shrunk ha hs fun r m hm => ((hr.disk r m).mp hm).1
    rw [hr.frame]
    exact hl.setArea (.inl ⟨rfl, rfl⟩) hc

theorem keeps_prepareRoot {stop : CancellationToken} :
    Prog.Keeps (Ledger (V := V) strict root runId used) (prepareRoot stop root) := by
  refine keeps_recover.attempt.bind fun r => ?_
  rcases r with (_ | (_ | _ | _ | _ | _) | _) | _ <;> exact Prog.keeps_pure _

theorem quietly_pinDirectory : Quietly (pinDirectory p : Prog (Machine V) StagingError Path) :=
  quietly_of_observes fun _ => observes_pinDirectory

theorem quietly_createDir (h : Control V p) {f : IoError → ε} :
    Quietly ((createDir p).mapError f : Prog (Machine V) ε Path) := fun w =>
  (quietly_makeEntry h w).mapError

theorem quietly_claimNewLock (h : Control V p) :
    Quietly (claimNewLock p : Prog (Machine V) StagingError Unit) := fun w =>
  ((quietly_makeEntry h w).mapError).bind fun _ =>
    (quietly_of_observes (fun _ => observes_settle) w).mapError

/-- **The claim of the reserved directory.** -/
theorem spec_claimArea (h : Ledger strict root runId used w) (ha : w.scope.area = none) :
    Prog.Spec claimArea w (fun _ w' => Ledger strict root runId used w')
      (fun _ w' => Ledger strict root runId used w') (Ledger strict root runId used) := by
  have hstaging : Control V staging := control_of_mem (by simp [controls])
  have hlock : Control V (controlPath ownerLock) := control_of_mem (by simp [controls])
  have hc : Covered w [] := by
    have := h.covered
    unfold registered at this
    rwa [ha] at this
  have hend : ∀ {w'}, Kept w w' → Ledger strict root runId used w' := fun hk => h.kept hk
  unfold claimArea
  refine quietly_pinDirectory.before (fun _ w₁ h₁ => ?_) (fun _ _ => hend) fun _ => hend
  refine (quietly_createDir hstaging).before (fun _ w₂ h₂ => ?_) (fun _ _ hk => hend (h₁.trans hk))
    fun _ hk => hend (h₁.trans hk)
  refine quietly_pinDirectory.before (fun _ w₃ h₃ => ?_) (fun _ _ hk => hend ((h₁.trans h₂).trans hk))
    fun _ hk => hend ((h₁.trans h₂).trans hk)
  refine (quietly_claimNewLock hlock).before (fun _ w₄ h₄ => ?_)
    (fun _ _ hk => hend (((h₁.trans h₂).trans h₃).trans hk))
    fun _ hk => hend (((h₁.trans h₂).trans h₃).trans hk)
  have hk := ((h₁.trans h₂).trans h₃).trans h₄
  rw [Prog.spec_modify]
  exact (hend hk).setArea (.inl ⟨rfl, rfl⟩) (hc.quiet hk.toQuiet)

theorem keeps_ensureClaimed :
    Prog.Keeps (Ledger (V := V) strict root runId used) ensureClaimed := by
  intro w h
  unfold ensureClaimed
  rw [Prog.spec_bind, Prog.spec_get]
  split_ifs with ha
  · exact spec_claimArea h (Option.isNone_iff_eq_none.mp ha)
  · exact h

omit [DecidableEq K] in
theorem observes_nonce {d : Disk V} : Observes d (nonce random : Prog (Machine V) StagingError Text)
    fun text => text = nonceText random :=
  observes_settle.ioAt.bind fun _ _ => observes_pure rfl

/-- **The run child** is created after the manifest names it. -/
theorem spec_publishChild {area : Area} (h : Ledger strict root runId used w)
    (hrun : validRunId (utf8 runId) = some runId) (ha : w.scope.area = some area)
    (hempty : area.child = []) :
    Prog.Spec (publishChild root random) w
      (fun _ w' => Ledger strict root runId used w' ∧
        ∃ area, w'.scope.area = some area ∧ area.child ≠ [])
      (fun _ w' => Ledger strict root runId used w') (Ledger strict root runId used) := by
  unfold publishChild
  rw [Prog.spec_bind, Prog.spec_get, h.run, Prog.spec_bind]
  refine (observes_nonce w rfl).mono (fun text w₁ ⟨h₁, htext⟩ => ?_) (fun _ _ h₁ => h.same h₁)
    fun _ h₁ => h.same h₁
  subst htext
  have hlist : RunList strict runId _ used _ := runList_child hrun random
  set child := "run-".toList ++ runId ++ ['-'] ++ nonceText random with hchild
  have hne : child ≠ [] := by
    rw [hchild]
    simp
  have hc : Covered w₁ [⟨child, true, false⟩] := by
    have hc := (h.same h₁).covered
    unfold registered at hc
    rw [h₁.scope, ha] at hc
    have he : area.artifacts = [] := ((h.listed area ha).resolve_right fun hl => by
      have := hl.named.length
      rw [hempty] at this
      cases this).2
    intro p hp hpresent
    rcases hc p hp hpresent with hcontrol | ⟨b, hb, -⟩
    · exact .inl hcontrol
    · rw [show (Option.map Area.artifacts (some area)).getD [] = area.artifacts from rfl, he] at hb
      cases hb
  dsimp only
  rw [Prog.spec_bind, spec_modifyArea]
  have ha₁ : w₁.scope.area = some area := h₁.scope.symm ▸ ha
  have h₂ := (h.same h₁).mapArea (f := fun area => { area with child, artifacts :=
    [⟨child, true, false⟩] }) ha₁ (.inr hlist) hc
  rw [Prog.spec_bind]
  refine (spec_publishManifest h₂ hlist (covered_mapArea.mpr hc)).mono
    (fun _ w₃ ⟨h₃, hq₃, hd₃⟩ => ?_) (fun _ _ h₃ => h₃.1) fun _ h₃ => h₃
  have ha₃ : w₃.scope.area = some { area with child, artifacts := [⟨child, true, false⟩] } := by
    rw [hq₃.scope]
    show (w₁.mapArea _).scope.area = _
    rw [mapArea_area, ha₁]
    rfl
  have hpath : artifactPath ⟨child, true, false⟩ = staging ++ [OsStr.ofText child] := by
    rw [artifactPath_control (safe_child hlist.named) rfl,
      List.splitOn_eq_singleton hlist.named.noSlash]
    rfl
  have hregistered : registered w₃ = [⟨child, true, false⟩] := by
    unfold registered
    rw [ha₃]
    rfl
  rw [Prog.spec_bind]
  refine Prog.spec_mapError.mpr (spec_makeEntry.mono (fun q w₄ h₄ => ?_) (fun _ _ hs => h₃.same hs)
    fun _ hs => h₃.same hs)
  have hl₄ := (h₃.created h₄ hd₃ hlist hregistered ⟨_, List.mem_singleton_self _, by rw [hpath]⟩).1
  have ha₄ : w₄.scope.area = w₃.scope.area := by
    rw [h₄.frame]
  refine quietly_pinDirectory.before (fun _ w₅ h₅ => ?_) (fun _ _ hk => hl₄.kept hk)
    fun _ hk => hl₄.kept hk
  have hl₅ := hl₄.kept h₅
  have ha₅ : w₅.scope.area = some { area with child, artifacts := [⟨child, true, false⟩] } := by
    rw [h₅.scope, ha₄, ha₃]
  have hc₅ : Covered w₅ [⟨child, true, false⟩] := by
    have hc := hl₅.covered
    unfold registered at hc
    rwa [ha₅] at hc
  rw [spec_modifyArea]
  refine ⟨hl₅.mapArea (f := fun area => { area with ready := true }) ha₅ (.inr hlist) hc₅,
    { area with child, artifacts := [⟨child, true, false⟩], ready := true }, ?_, hne⟩
  rw [mapArea_area, ha₅]
  rfl

/-- **The area of a run**, claimed and published. -/
theorem spec_prepareArea (h : Ledger strict root runId used w) :
    Prog.Spec (prepareArea root random) w
      (fun _ w' => Ledger strict root runId used w' ∧ validRunId (utf8 runId) = some runId ∧
        ∃ area, w'.scope.area = some area ∧ area.child ≠ [])
      (fun _ w' => Ledger strict root runId used w') (Ledger strict root runId used) := by
  unfold prepareArea
  rw [Prog.spec_bind, Prog.spec_get, h.run]
  split_ifs with hvalid
  · exact h
  have hrun : validRunId (utf8 runId) = some runId := by
    unfold validRunId at hvalid ⊢
    split_ifs at hvalid ⊢
    · exact fromUtf8_utf8 runId
    · exact absurd rfl hvalid
  rw [Prog.spec_bind]
  refine (keeps_prepareRoot w h).mono (fun failure w₁ h₁ => ?_) (fun _ _ h₁ => h₁) fun _ h₁ => h₁
  cases failure with
  | some failure => exact h₁
  | none =>
    dsimp only
    rw [Prog.spec_bind]
    refine (keeps_ensureClaimed w₁ h₁).mono (fun _ w₂ h₂ => ?_) (fun _ _ h₂ => h₂) fun _ h₂ => h₂
    rw [Prog.spec_bind, Prog.spec_get]
    split
    · exact h₂
    · next area ha =>
      split_ifs with hready hchild
      · exact h₂
      · exact (spec_publishChild h₂ hrun ha hchild).mono (fun _ _ h₃ => ⟨h₃.1, hrun, h₃.2⟩)
          (fun _ _ h₃ => h₃) fun _ h₃ => h₃
      · exact ⟨h₂, hrun, area, ha, hchild⟩

/-! ## Staging -/

/-- Every spelling the volume takes for a component of `path` is an ordinary name. -/
def OrdinaryParents (V : Volume K) (path : Path) : Prop :=
  ∀ name ∈ path.dropLast, ∀ b, V.valid b = true → V.fold b = V.fold name → OrdinaryName b

theorem observes_canonical {d : Disk V} :
    Observes d (canonical p) fun q => ∃ n, d.find p = some (q, n) := by
  refine observes_query fun q hq => ?_
  unfold lookup at hq
  split at hq
  · next e he =>
    cases hq
    exact ⟨_, he⟩
  · cases hq

theorem map_of_mapM {p : Path} {names : List Text} (h : p.mapM OsStr.toStr = some names) :
    p = names.map OsStr.ofText := by
  induction p generalizing names with
  | nil =>
    cases h
    rfl
  | cons name p ih =>
    rw [List.mapM_cons] at h
    obtain ⟨text, ht, h⟩ := Option.bind_eq_some_iff.mp h
    obtain ⟨rest, hr, h⟩ := Option.bind_eq_some_iff.mp h
    cases h
    rw [OsStr.eq_ofText_of_toStr ht, ih hr]
    rfl

/-- The components of a relative name built from a parent and a file. -/
theorem splitOn_relative {names : List Text} {file : Text}
    (hn : ∀ name ∈ names, name ≠ [] ∧ '/' ∉ name) (hf : '/' ∉ file) :
    (if ['/'].intercalate names = [] then file else ['/'].intercalate names ++ '/' :: file).splitOn '/' =
      names ++ [file] := by
  by_cases h0 : names = []
  · subst h0
    simp [List.splitOn_eq_singleton hf]
  · have hsplit := List.splitOn_intercalate '/' (fun name hm => (hn name hm).2) h0
    have hne : ['/'].intercalate names ≠ [] := by
      intro he
      rw [he, List.splitOn_nil] at hsplit
      exact (hn [] (hsplit ▸ List.mem_singleton_self _)).1 rfl
    rw [if_neg hne, splitOn_append_file hf, hsplit]

theorem valid_of_find {d : Disk V} {parent : Path} {n : Node Leaf} (hf : d.find p = some (parent, n)) :
    ∀ name ∈ parent, V.valid name = true := by
  intro name hm
  by_cases hp : p = []
  · subst hp
    cases hf
    cases hm
  · exact ((PathTree.find_eq_some hp).mp hf).1.valid name hm

/-- A component of a path's canonical spelling. -/
theorem ordinary_of_find {d : Disk V} {destination parent : Path} {n : Node Leaf}
    (ho : OrdinaryParents V destination) (hf : d.find destination.dropLast = some (parent, n)) :
    ∀ name ∈ parent, OrdinaryName name := by
  intro name hm
  have hmem : V.fold name ∈ destination.dropLast.map V.fold :=
    PathTree.fold_of_find hf ▸ List.mem_map_of_mem hm
  obtain ⟨b, hb, he⟩ := List.mem_map.mp hmem
  exact ho b hb name (valid_of_find hf name hm) he.symm

theorem quietly_pinParents {rest : Path} {current : Path} {pins : List Path} :
    Quietly (pinParentsFrom current rest pins : Prog (Machine V) StagingError _) :=
  quietly_of_observes fun _ => observes_pinParentsFrom

/-! ### Chosen names -/

/-- The half of `stage_file` that chooses a sibling's name, beneath a resolved parent. -/
def chooseBeneath (root : Text) (parent : Path) (destinationParent assetPrefix extension : Text)
    (childRandom random : Nonce) : Prog (Machine V) StagingError Text := do
  prepareArea root childRandom
  let w ← Prog.get
  let (pins, found) ← pinParentDirectories parent ((w.scope.area.map Area.parentPins).getD [])
  modifyArea fun area => { area with parentPins := pins }
  if !(← Prog.ofExcept found) then
    Prog.fail (.unverified parent "A staged Asset parent disappeared before creation.")
  else
    let filename := assetPrefix ++ w.scope.runId ++ ['-'] ++ (← nonce random) ++ extension
    return if destinationParent = [] then filename else destinationParent ++ '/' :: filename

/-- The half of `stage_file` that chooses a name. -/
def chooseSibling (root : Text) (destination : Path) (childRandom random : Nonce) :
    Prog (Machine V) StagingError Text := do
  let _ ← lookupAt "Resolve" [] (canonical [])
  let parent ← lookupAt "Resolve" destination.dropLast (canonical destination.dropLast)
  match destination.getLast? with
  | none => invalid outsideRoot
  | some name =>
    if hasStagingComponent parent then invalid outsideRoot
    else
      ioAt "Resolve" [] settle
      ioAt "Resolve" parent settle
      let extension := destinationExtension name
      match stagingPrefix extension, generic parent with
      | none, _ => invalid "Asset staging requires a DDS, NIF, BTR, BTO, or HKX destination."
      | _, none => Prog.fail (.io "Encode" parent .fault)
      | some assetPrefix, some destinationParent =>
        chooseBeneath root parent destinationParent assetPrefix extension childRandom random

/-- The half of `stage_archive_file` that chooses a name. -/
def chooseEntry (root : Text) (childRandom random : Nonce) : Prog (Machine V) StagingError Text := do
  let _ ← lookupAt "Resolve" [] (canonical [])
  prepareArea root childRandom
  let w ← Prog.get
  let child := (w.scope.area.map Area.child).getD []
  return child ++ '/' :: "archive-entry-".toList ++ (← nonce random)

theorem stageBeneath_eq {parent : Path} {destinationParent assetPrefix extension : Text} {childRandom : Nonce} :
    (stageBeneath root parent destinationParent assetPrefix extension childRandom random :
        Prog (Machine V) StagingError Path) =
      chooseBeneath root parent destinationParent assetPrefix extension childRandom random >>= fun relative =>
        createRegisteredFile root relative true := by
  unfold stageBeneath chooseBeneath
  simp only [Prog.andThen_assoc]
  refine congrArg _ (funext fun _ => congrArg _ (funext fun w => congrArg _ (funext fun ⟨pins, found⟩ => ?_)))
  dsimp only
  refine congrArg _ (funext fun _ => congrArg _ (funext fun there => ?_))
  split
  · rfl
  · rw [Prog.andThen_assoc]
    rfl

theorem stageFile_eq {destination : Path} {childRandom : Nonce} :
    (stageFile root destination childRandom random : Prog (Machine V) StagingError Path) =
      chooseSibling root destination childRandom random >>= fun relative =>
        createRegisteredFile root relative true := by
  unfold stageFile chooseSibling
  rw [Prog.andThen_assoc]
  refine congrArg _ (funext fun _ => ?_)
  rw [Prog.andThen_assoc]
  refine congrArg _ (funext fun parent => ?_)
  cases destination.getLast? with
  | none => rfl
  | some name =>
    dsimp only
    split
    · rfl
    rw [Prog.andThen_assoc]
    refine congrArg _ (funext fun _ => ?_)
    rw [Prog.andThen_assoc]
    refine congrArg _ (funext fun _ => ?_)
    cases stagingPrefix (destinationExtension name) with
    | none => rfl
    | some assetPrefix =>
      cases generic parent with
      | none => rfl
      | some destinationParent => exact stageBeneath_eq

theorem stageArchiveFile_eq {childRandom : Nonce} :
    (stageArchiveFile root childRandom random : Prog (Machine V) StagingError Path) =
      chooseEntry root childRandom random >>= fun relative => createRegisteredFile root relative false := by
  unfold stageArchiveFile chooseEntry
  simp only [Prog.andThen_assoc]
  rfl

/-- A name that an operation chose, in a claimed area. -/
structure ChoseName (strict : Prop) (root runId : Text) (used : List Nonce) (random : Nonce) (relative : Text)
    (rootRelative : Bool) (w : Machine V) : Prop where
  ledger : Ledger strict root runId used w
  claimed : ∃ area, w.scope.area = some area ∧ area.child ≠ [] ∧
    Carries strict (random :: used) runId area.child random ⟨relative, false, rootRelative⟩

/-- The name of a sibling is chosen beneath its parent. -/
theorem spec_chooseBeneath {names : List Text} {assetPrefix extension : Text} {childRandom : Nonce}
    (h : Ledger strict root runId used w) (hpre : stagingPrefix extension = some assetPrefix)
    (hnames : ∀ part ∈ names, '/' ∉ part ∧ part ≠ [] ∧ isStagingName (OsStr.ofText part) = false ∧
      (strict → safePart part = true)) :
    Prog.Spec (chooseBeneath root (names.map OsStr.ofText) (['/'].intercalate names) assetPrefix extension
        childRandom random) w
      (fun relative => ChoseName strict root runId used random relative true)
      (fun _ w' => Ledger strict root runId used w') (Ledger strict root runId used) := by
  unfold chooseBeneath
  rw [Prog.spec_bind]
  refine (spec_prepareArea h).mono (fun _ w₅ ⟨h₅, hrun, area, harea, hne⟩ => ?_)
    (fun _ _ h₅ => h₅) fun _ h₅ => h₅
  rw [Prog.spec_bind, Prog.spec_get]
  refine quietly_pinParents.before (fun pinned w₆ h₆ => ?_) (fun _ _ hk => h₅.kept hk)
    fun _ hk => h₅.kept hk
  obtain ⟨pins, found⟩ := pinned
  have hl₆ := h₅.kept h₆
  have harea₆ : w₆.scope.area = some area := h₆.scope.symm ▸ harea
  have hlist := (hl₆.listed area harea₆).resolve_left fun he => hne he.1
  have hc₆ : Covered w₆ area.artifacts := by
    have hc := hl₆.covered
    unfold registered at hc
    rwa [harea₆] at hc
  dsimp only
  rw [Prog.spec_bind, spec_modifyArea]
  have hl₇ := hl₆.mapArea (f := fun area => { area with parentPins := pins }) harea₆ (.inr hlist) hc₆
  have harea₇ : (w₆.mapArea fun area => { area with parentPins := pins }).scope.area =
      some { area with parentPins := pins } := by
    rw [mapArea_area, harea₆]
    rfl
  rw [Prog.spec_bind, Prog.spec_ofExcept]
  refine ⟨fun there _ => ?_, fun _ _ => hl₇⟩
  split
  · exact hl₇
  rw [Prog.spec_bind]
  refine (observes_nonce _ rfl).mono (fun text w₈ ⟨h₈, htext⟩ => ?_)
    (fun _ _ hs => hl₇.same hs) fun _ hs => hl₇.same hs
  subst htext
  have harea₈ : w₈.scope.area = some { area with parentPins := pins } := h₈.scope.symm ▸ harea₇
  refine ⟨hl₇.same h₈, { area with parentPins := pins }, harea₈, hne, fun _ => List.mem_cons_self, rfl,
    .inr ⟨rfl, names, _, assetPrefix, hpre, ?_, fun part hp => (hnames part hp).2⟩⟩
  rw [h₅.run]
  exact splitOn_relative (fun part hp => ⟨(hnames part hp).2.1, (hnames part hp).1⟩)
    (siblingName_noSlash hrun hpre)

/-- **The name of a staged Asset sibling.** -/
theorem spec_chooseSibling {destination : Path} {childRandom : Nonce} (h : Ledger strict root runId used w)
    (hordinary : strict → ∀ parent n, w.disk.find destination.dropLast = some (parent, n) →
      ∀ name ∈ parent, OrdinaryName name) :
    Prog.Spec (chooseSibling root destination childRandom random) w
      (fun relative => ChoseName strict root runId used random relative true)
      (fun _ w' => Ledger strict root runId used w') (Ledger strict root runId used) := by
  unfold chooseSibling
  rw [Prog.spec_bind]
  refine (observes_canonical.lookupAt w rfl).mono (fun _ w₁ ⟨h₁, _⟩ => ?_)
    (fun _ _ hs => h.same hs) fun _ hs => h.same hs
  rw [Prog.spec_bind]
  refine (observes_canonical.lookupAt w₁ rfl).mono (fun parent w₂ ⟨h₂, n, hfind⟩ => ?_)
    (fun _ _ hs => (h.same h₁).same hs) fun _ hs => (h.same h₁).same hs
  have hl₂ := (h.same h₁).same h₂
  have hend : ∀ {w'}, Same w₂ w' → Ledger strict root runId used w' := fun hs => hl₂.same hs
  split
  · exact hl₂
  next name hname =>
  split_ifs with hreserved
  · exact hl₂
  rw [Bool.not_eq_true] at hreserved
  rw [Prog.spec_bind]
  refine (observes_settle.ioAt w₂ rfl).mono (fun _ w₃ ⟨h₃, _⟩ => ?_) (fun _ _ => hend) fun _ => hend
  rw [Prog.spec_bind]
  refine (observes_settle.ioAt w₃ rfl).mono (fun _ w₄ ⟨h₄, _⟩ => ?_)
    (fun _ _ hs => hend (h₃.trans hs)) fun _ hs => hend (h₃.trans hs)
  have hl₄ := (hl₂.same h₃).same h₄
  dsimp only
  split
  · exact hl₄
  · exact hl₄
  next assetPrefix destinationParent hpre hgeneric =>
  obtain ⟨names, hnames, rfl⟩ := Option.map_eq_some_iff.mp hgeneric
  obtain rfl := map_of_mapM hnames
  refine spec_chooseBeneath hl₄ hpre fun part hp => ?_
  have hm : OsStr.ofText part ∈ names.map OsStr.ofText := List.mem_map_of_mem hp
  obtain ⟨hempty, hslash, -⟩ := V.component _ (valid_of_find hfind _ hm)
  refine ⟨fun hs => hslash (List.mem_map_of_mem hs), fun he => hempty (by rw [he]; rfl), ?_, fun hs => ?_⟩
  · have := List.any_eq_false.mp hreserved _ hm
    simpa using this
  · exact (safePart_of_ordinary (hordinary hs _ _ (h₁.disk ▸ hfind) _ hm)).1

/-- **The name of a staged Archive entry.** -/
theorem spec_chooseEntry {childRandom : Nonce} (h : Ledger strict root runId used w) :
    Prog.Spec (chooseEntry root childRandom random) w
      (fun relative => ChoseName strict root runId used random relative false)
      (fun _ w' => Ledger strict root runId used w') (Ledger strict root runId used) := by
  unfold chooseEntry
  rw [Prog.spec_bind]
  refine (observes_canonical.lookupAt w rfl).mono (fun _ w₁ ⟨h₁, _⟩ => ?_)
    (fun _ _ hs => h.same hs) fun _ hs => h.same hs
  rw [Prog.spec_bind]
  refine (spec_prepareArea (h.same h₁)).mono (fun _ w₂ ⟨h₂, hrun, area, harea, hne⟩ => ?_)
    (fun _ _ h₂ => h₂) fun _ h₂ => h₂
  rw [Prog.spec_bind, Prog.spec_get, harea]
  dsimp only
  rw [Prog.spec_bind]
  refine (observes_nonce _ rfl).mono (fun text w₃ ⟨h₃, htext⟩ => ?_)
    (fun _ _ hs => h₂.same hs) fun _ hs => h₂.same hs
  subst htext
  have hlist := (h₂.listed area harea).resolve_left fun he => hne he.1
  refine ⟨h₂.same h₃, area, h₃.scope.symm ▸ harea, hne, fun _ => List.mem_cons_self, rfl, .inl ⟨rfl, ?_⟩⟩
  show (area.child ++ '/' :: "archive-entry-".toList ++ nonceText random).splitOn '/' = _
  rw [List.append_assoc]
  show (area.child ++ '/' :: archiveEntryName random).splitOn '/' = _
  rw [splitOn_append_file (archiveEntryName_noSlash random),
    List.splitOn_eq_singleton hlist.named.noSlash]
  rfl

/-! ### Staged files -/

/-- A file under a chosen name. -/
theorem ChoseName.created {relative : Text} {rootRelative : Bool}
    (h : ChoseName strict root runId used random relative rootRelative w) (hfresh : strict → random ∉ used) :
    Prog.Spec (createRegisteredFile root relative rootRelative) w
      (Staged strict root runId (random :: used))
      (fun _ w' => Ledger strict root runId (random :: used) w')
      (Ledger strict root runId (random :: used)) := by
  obtain ⟨hledger, area, harea, hne, hcarry⟩ := h
  exact spec_createRegisteredFile hledger harea hne hcarry hfresh

/-! ## Release and cleanup -/

/-- What stands at no path is none of the entries a list still names without it. -/
theorem Covered.release {i : Nat} (h : Covered w l) (ha : l[i]? = some a)
    (hne : artifactPath a ≠ []) (hfree : w.disk.find (artifactPath a) = none) :
    Covered w (l.eraseIdx i) := by
  rintro p hp ⟨n, hn⟩
  rcases h p hp ⟨n, hn⟩ with hc | ⟨b, hb, he⟩
  · exact .inl hc
  · refine .inr ⟨b, ?_, he⟩
    rw [List.mem_eraseIdx_iff_getElem?]
    obtain ⟨j, hj⟩ := List.mem_iff_getElem?.mp hb
    refine ⟨j, ?_, hj⟩
    rintro rfl
    rw [ha, Option.some.injEq] at hj
    subst hj
    exact (PathTree.find_eq_none hne).mp hfree p n hn he

/-- **A release**: the temporary is gone before the manifest drops it. -/
theorem keeps_releaseFile {temporary : Path} :
    Prog.Keeps (Ledger (V := V) strict root runId used) (releaseFile root temporary) := by
  intro w h
  unfold releaseFile
  rw [Prog.spec_bind, Prog.spec_get]
  split
  · exact h
  next area harea =>
  split
  · exact h
  next position hposition =>
  obtain ⟨hlt, hfound, -⟩ := List.findIdx?_eq_some_iff_getElem.mp hposition
  simp only [Bool.and_eq_true, Bool.not_eq_true', beq_iff_eq] at hfound
  obtain ⟨hfile, htemporary⟩ := hfound
  have hget := List.getElem?_eq_getElem hlt
  have hlist : RunList strict runId area.child used area.artifacts := by
    refine (h.listed area harea).resolve_left fun he => ?_
    simp [he.2] at hlt
  have hne : artifactPath area.artifacts[position] ≠ [] := by
    intro he
    have hreserved := (hlist.entry (V := V) (List.getElem_mem hlt)).1
    rw [he] at hreserved
    cases hreserved
  have hc : Covered w area.artifacts := by
    have hc := h.covered
    unfold registered at hc
    rwa [harea] at hc
  rw [Prog.spec_bind]
  refine (observes_inspect w rfl).mono (fun kind w₁ ⟨h₁, hkind⟩ => ?_) (fun _ _ hs => h.same hs)
    fun _ hs => h.same hs
  cases kind with
  | some kind => exact h.same h₁
  | none =>
    have hfree : w₁.disk.find (artifactPath area.artifacts[position]) = none := by
      rw [h₁.disk, htemporary]
      exact hkind
    have hc₁ : Covered w₁ (area.artifacts.eraseIdx position) :=
      (hc.quiet h₁.kept.toQuiet).release hget hne hfree
    have hretained := hlist.release hget hfile
    rw [h.run]
    dsimp only
    rw [Prog.spec_bind]
    refine (spec_publishManifest (h.same h₁) hretained hc₁).mono (fun _ w₂ ⟨h₂, hq₂, _⟩ => ?_)
      (fun _ _ h₂ => h₂.1) fun _ h₂ => h₂
    rw [spec_modifyArea]
    refine h₂.mapArea (f := fun a => { a with artifacts := area.artifacts.eraseIdx position }) ?_
      (.inr hretained) ((show Covered (requested w₁ _ _) _ from hc₁).quiet hq₂)
    rw [hq₂.scope]
    exact h₁.scope.symm ▸ harea

omit [DecidableEq K] in
/-- The removal of one entry that is no control file. -/
theorem Ledger.erased (h : Ledger strict root runId used w) (hs : Shrunk w w')
    (he : w.disk.erase q = some w'.disk) (hq : ¬ Control V q) : Ledger strict root runId used w' := by
  refine h.removed hs (fun r m hm => ((PathTree.has_erase he).mp hm).1) fun r b hr hb => ?_
  refine (PathTree.has_erase he).mpr ⟨hb, ?_⟩
  rintro rfl
  exact hq ((control_of_mem (by simp [controls])).congr hr)

omit [DecidableEq K] in
theorem keeps_deleteByHandle (hq : ¬ Control V q) :
    Prog.Keeps (Ledger (V := V) strict root runId used) (deleteByHandle q) := by
  refine fun w h => spec_change.mono (fun _ w' ⟨hs, hd⟩ => ?_) (fun _ _ hs => h.same hs.1) fun _ hs =>
    h.same hs
  split at hd
  · next d herase =>
    rw [Except.ok.injEq, Prod.mk.injEq] at hd
    exact h.erased hs (hd.2 ▸ herase) hq
  · cases hd

theorem keeps_removeDir (hp : ¬ Control V p) :
    Prog.Keeps (Ledger (V := V) strict root runId used) (removeDir p) := by
  refine fun w h => spec_change.mono (fun _ w' ⟨hs, hd⟩ => ?_) (fun _ _ hs => h.same hs.1) fun _ hs =>
    h.same hs
  split at hd
  · next q hfind =>
    split at hd
    · next d herase =>
      rw [Except.ok.injEq, Prod.mk.injEq] at hd
      refine h.erased hs (hd.2 ▸ herase) fun hc => hp ?_
      exact hc.congr (PathTree.fold_of_find hfind).symm
    · cases hd
  · cases hd
  · cases hd

theorem keeps_removeArtifact {affected : Path} (hp : ¬ Control V affected) :
    Prog.Keeps (Ledger (V := V) strict root runId used) (removeArtifact affected a) := by
  have hweakly : ∀ p : Path, Quietly (weaklyCanonical p : Prog (Machine V) IoError Path) := fun p =>
    quietly_of_observes (R := fun _ _ => True) fun _ => observes_query fun _ _ => trivial
  have hinspect : Quietly (inspect affected : Prog (Machine V) StagingError (Option Kind)) :=
    quietly_of_observes fun _ => observes_inspect
  unfold removeArtifact
  refine ((hweakly _).ledger.mapError).bind fun resolved => ?_
  split
  · exact Prog.keeps_fail _
  refine hinspect.ledger.bind fun kind => ?_
  cases kind with
  | none => exact Prog.keeps_pure _
  | some kind =>
    dsimp only
    split
    · exact Prog.keeps_fail _
    split
    · exact (keeps_removeDir hp).mapError
    · intro w h
      rw [Prog.spec_bind]
      refine (observes_openTemporaryFile w rfl).mono (fun file w₁ ⟨h₁, data, hfind⟩ => ?_)
        (fun _ _ hs => h.same hs) fun _ hs => h.same hs
      have hfile : ¬ Control V file := fun hc => hp (hc.congr (PathTree.fold_of_find hfind).symm)
      exact (keeps_deleteByHandle hfile).mapError w₁ (h.same h₁)

/-- **Safety Cleanup** removes registered entries only. -/
theorem keeps_cleanupArtifacts :
    Prog.Keeps (Ledger (V := V) strict root runId used) cleanupArtifacts := by
  intro w h
  unfold cleanupArtifacts
  rw [Prog.spec_bind, Prog.spec_get]
  split
  · exact h
  next area harea =>
  split_ifs with hchild
  · exact h
  have hlist := (h.listed area harea).resolve_left fun he => hchild he.1
  refine (Prog.Spec.foldEach (E := fun _ : StagingError => Ledger strict root runId used)
    (C := Ledger strict root runId used) (I := fun _ after (_ : List (Path × StagingError)) w =>
      Ledger strict root runId used w ∧ ∀ a ∈ after, a ∈ area.artifacts)
    (fun before a after failures w₁ h₁ => ?_) [] area.artifacts.reverse
    ⟨h, fun a ha => List.mem_reverse.mp ha⟩).mono (fun _ _ h' => h'.1) (fun _ _ h' => h') fun _ h' => h'
  · obtain ⟨h₁, hmem⟩ := h₁
    have hp : ¬ Control V (artifactPath a) :=
      (hlist.entry (V := V) (hmem a List.mem_cons_self)).2 _ rfl
    rw [Prog.spec_bind, Prog.spec_attempt]
    have hrest : ∀ b ∈ after, b ∈ area.artifacts := fun b hb => hmem b (List.mem_cons_of_mem _ hb)
    exact (keeps_removeArtifact hp w₁ h₁).mono (fun _ _ h' => ⟨h', hrest⟩) (fun _ _ h' => ⟨h', hrest⟩)
      fun _ h' => h'

/-! ## Publication -/

theorem observes_destinationSnapshot {d : Disk V} :
    Observes d (destinationSnapshot p) fun _ => True := by
  unfold destinationSnapshot
  refine observes_lookup.attempt.bind fun r _ => ?_
  rcases r with (_ | _ | _ | _ | _) | ⟨_, _ | ⟨data, _ | _ | _⟩ | _ | _⟩
  all_goals first
    | exact observes_fail
    | exact observes_pure trivial
    | exact observes_settle.ioAt.bind fun _ _ => observes_pure trivial

theorem observes_checkLeaf {d : Disk V} {leaf : Option (Option Bytes)} :
    Observes d (checkLeaf leaf p) fun _ => True := by
  cases leaf with
  | none => exact observes_pure trivial
  | some leaf =>
    refine observes_destinationSnapshot.bind fun current _ => ?_
    split
    · exact observes_fail
    · exact observes_pure trivial

theorem observes_unchanged {d : Disk V} :
    Observes d (unchanged p) fun same => same = true → ∃ n, d.find p = some (p, n) := by
  unfold unchanged
  refine observes_canonical.attempt.bind fun r hr => ?_
  cases r with
  | ok resolved =>
    refine observes_pure fun he => ?_
    rw [decide_eq_true_eq] at he
    exact he ▸ hr resolved rfl
  | error e => exact observes_pure nofun

/-- A destination `pin_destination` accepts. -/
structure Pinnable (d : Disk V) (p : Path) : Prop where
  unreserved : hasStagingComponent p = false
  unambiguous : ∀ name ∈ p, ambiguousWindowsName name.lossy = false
  parent : ∃ n, d.find p.dropLast = some (p.dropLast, n)

theorem observes_pinDestination {d : Disk V} : Observes d (pinDestination p) fun _ => Pinnable d p := by
  unfold pinDestination
  split
  · exact observes_fail
  next hreserved =>
  rw [not_or, Bool.not_eq_true] at hreserved
  split
  · exact observes_fail
  next hambiguous =>
  rw [Bool.not_eq_true, List.any_eq_false] at hambiguous
  refine observes_unchanged.bind fun _ _ => observes_unchanged.bind fun same hparent => ?_
  split
  · exact observes_fail
  next hsame =>
  simp only [Bool.or_eq_true, Bool.not_eq_true', not_or, Bool.not_eq_false] at hsame
  refine (Observes.forEach (Q := fun _ => True) (fun _ =>
    observes_pinDirectory.bind fun _ _ => observes_pure trivial) _).mono fun _ _ => ?_
  exact ⟨hreserved.2, fun name hm => by simpa using hambiguous name hm, hparent hsame.2⟩

/-- The parent of a pinned destination is what it resolves to, and ordinary. -/
theorem Pinnable.ordinary {d : Disk V} (h : Pinnable d p) {parent : Path} {n : Node Leaf}
    (hf : d.find p.dropLast = some (parent, n)) : ∀ name ∈ parent, OrdinaryName name := by
  intro name hm
  obtain ⟨n', hn'⟩ := h.parent
  rw [hf, Option.some.injEq, Prod.mk.injEq] at hn'
  obtain ⟨-, hslash, hbackslash⟩ := V.component name (valid_of_find hf name hm)
  exact ⟨h.unambiguous name (List.dropLast_subset p (hn'.1 ▸ hm)), hslash, hbackslash⟩

omit [DecidableEq K] in
/-- A used receipt, or a committed artifact. -/
theorem Ledger.setDurable (h : Ledger strict root runId used w) {i : Nat} {d : Registered}
    (hd : ¬ Control V d.path) :
    Ledger strict root runId used { w with durable := w.durable.set i d } := by
  have hnil : w.durable = [] → w.durable.set i d = [] := fun he => by rw [he]; rfl
  refine { h with
    durable := fun d' hm => ?_
    covered := h.covered
    unclaimed := fun ha => ⟨hnil (h.unclaimed ha).1, (h.unclaimed ha).2⟩
    safe := h.safe.imp (fun hs => ⟨hs.1, hnil hs.2.1, hs.2.2⟩) id }
  rcases List.mem_or_eq_of_mem_set hm with hm | rfl
  · exact h.durable d' hm
  · exact hd

/-- **A commit** keeps the ledger. -/
theorem spec_commitDestination {policy : PublicationPolicy} {temporary destination : Path}
    (h : Ledger strict root runId used w) (hdurable : w.durable ≠ []) (ht : ¬ Control V temporary)
    (hd : hasStagingComponent destination = false) :
    Prog.Spec (commitDestination policy temporary destination) w
      (fun _ w' => Ledger strict root runId used w') (fun _ w' => Ledger strict root runId used w')
      (Ledger strict root runId used) := by
  refine step_eq.mono (fun _ w' ⟨tape, hw'⟩ => ?_) (fun _ _ hs => h.same hs) fun _ hs => h.same hs
  cases hr : renameEntry policy temporary destination w.disk with
  | error e => rw [hr] at hw'; cases hw'
  | ok e =>
    obtain ⟨q, d⟩ := e
    rw [hr] at hw'
    cases hw'
    obtain ⟨s, b, hfind, hfold, hhas⟩ := renameEntry_ok hr
    refine h.moved (s := s) (r := q) (b := b) rfl hdurable
      (fun hc => ht (hc.congr (PathTree.fold_of_find hfind).symm)) ?_ fun t m => ?_
    · rw [hasStagingComponent_fold hfold, hd]
    · rw [hfold]
      exact hhas t m

/-- **Publication** through a receipt. -/
theorem keeps_publish {index : Nat} {destination : Path} {policy : PublicationPolicy} :
    Prog.Keeps (Ledger (V := V) strict root runId used) (publish root index destination policy) := by
  intro w h
  unfold publish
  rw [Prog.spec_bind, Prog.spec_get]
  split
  · next temporary receipt hget =>
    have ht : ¬ Control V temporary := h.durable _ (List.mem_of_getElem? hget)
    rw [Prog.spec_bind, Prog.spec_modify]
    have h₁ := h.setDurable (i := index) (d := ⟨temporary, false, none⟩) ht
    have hne : (w.durable.set index ⟨temporary, false, none⟩) ≠ [] := by
      rw [Ne, List.set_eq_nil_iff]
      exact List.ne_nil_of_mem (List.mem_of_getElem? hget)
    generalize hw₁ : { w with durable := w.durable.set index ⟨temporary, false, none⟩ } = w₁ at h₁
    have hne₁ : w₁.durable ≠ [] := by
      rw [← hw₁]
      exact hne
    split
    · exact h₁
    split
    · exact h₁
    rw [Prog.spec_bind]
    refine (observes_pinDestination w₁ rfl).mono (fun _ w₂ ⟨h₂, hd⟩ => ?_) (fun _ _ hs => h₁.same hs)
      fun _ hs => h₁.same hs
    rw [Prog.spec_bind]
    refine (observes_openTemporaryFile w₂ rfl).mono (fun staged w₃ ⟨h₃, data, hfind⟩ => ?_)
      (fun _ _ hs => h₁.same (h₂.trans hs)) fun _ hs => h₁.same (h₂.trans hs)
    have h₂₃ := h₂.trans h₃
    have hstaged : ¬ Control V staged := fun hc => ht (hc.congr (PathTree.fold_of_find hfind).symm)
    rw [Prog.spec_bind]
    refine (observes_settle.ioAt w₃ rfl).mono (fun _ w₄ ⟨h₄, _⟩ => ?_)
      (fun _ _ hs => h₁.same (h₂₃.trans hs)) fun _ hs => h₁.same (h₂₃.trans hs)
    have h₂₄ := h₂₃.trans h₄
    rw [Prog.spec_bind]
    refine (observes_checkLeaf w₄ rfl).mono (fun _ w₅ ⟨h₅, _⟩ => ?_)
      (fun _ _ hs => h₁.same (h₂₄.trans hs)) fun _ hs => h₁.same (h₂₄.trans hs)
    have h₂₅ := h₂₄.trans h₅
    have hne₅ : w₅.durable ≠ [] := by
      have hf : w₅ = { w₁ with tape := w₅.tape } := h₂₅
      rw [hf]
      exact hne₁
    rw [Prog.spec_bind]
    refine Prog.spec_mapError.mpr ((spec_commitDestination (h₁.same h₂₅) hne₅ hstaged
      hd.unreserved).mono (fun _ w₆ h₆ => ?_) (fun _ _ h₆ => h₆) fun _ h₆ => h₆)
    refine keeps_releaseFile.bind (fun _ w₇ h₇ => ?_) w₆ h₆
    rw [Prog.spec_modify]
    exact h₇.setDurable ht
  · exact h

/-! ## Runs -/

/-- The destinations of recoverable staging are ordinary in every spelling; publication checks its
own. -/
def Operation.Ordinary (V : Volume K) : Operation → Prop
  | .stageFile destination _ _ => OrdinaryParents V destination
  | _ => True

omit [DecidableEq K] in
theorem keeps_openRegistry :
    Prog.Keeps (Ledger (V := V) strict root runId used) openRegistry := by
  intro w h
  unfold openRegistry
  rw [Prog.spec_bind, Prog.spec_get]
  split_ifs
  · exact h
  · exact h

omit [DecidableEq K] in
theorem spec_pushDurable {receipt : Option Receipt} (h : Staged strict root runId used p w) :
    Prog.Spec (pushDurable p receipt) w
      (fun _ w' => Ledger strict root runId used w') (fun _ w' => Ledger strict root runId used w')
      (Ledger strict root runId used) := by
  obtain ⟨h, hbacked, hclaimed, hplaced⟩ := h
  unfold pushDurable
  rw [Prog.spec_modify]
  refine { h with
    durable := fun d hm => ?_
    covered := h.covered
    unclaimed := fun ha => absurd ha hclaimed
    safe := .inr hbacked }
  rcases List.mem_append.mp hm with hm | hm
  · exact h.durable d hm
  · rw [List.mem_singleton.mp hm]
    exact hplaced

/-- What an operation that stages a file has chosen, with the receipt it will give. -/
structure Chosen where
  relative : Text
  rootRelative : Bool
  receipt : Option Receipt
  deriving DecidableEq

/-- The half of an operation that chooses a name, where it stages a file. -/
def choose (root : Text) : Operation → Option (Prog (Machine V) StagingError Chosen)
  | .stageFile destination childRandom random => some do
    openRegistry
    let relative ← chooseSibling root destination childRandom random
    return ⟨relative, true, none⟩
  | .stageForPublication destination childRandom random => some do
    openRegistry
    pinDestination destination
    let leaf ← destinationSnapshot destination
    pinDestination destination
    checkLeaf (some leaf) destination
    let relative ← chooseSibling root destination childRandom random
    return ⟨relative, true, some ⟨some destination, some leaf⟩⟩
  | .stageArchive childRandom random => some do
    openRegistry
    let relative ← chooseEntry root childRandom random
    return ⟨relative, false, some ⟨none, none⟩⟩
  | _ => none

/-- **An operation that stages a file** creates it under the name it chose, and registers it. -/
theorem perform_choose {operation : Operation} {x : Prog (Machine V) StagingError Chosen}
    (h : choose root operation = some x) :
    perform root operation = x >>= fun chosen =>
      createRegisteredFile root chosen.relative chosen.rootRelative >>= fun path => pushDurable path chosen.receipt := by
  cases operation with
  | stageFile destination childRandom random =>
    cases h
    unfold perform
    simp only [stageFile_eq, Prog.andThen_assoc]
    rfl
  | stageForPublication destination childRandom random =>
    cases h
    unfold perform
    simp only [stageFile_eq, Prog.andThen_assoc]
    rfl
  | stageArchive childRandom random =>
    cases h
    unfold perform
    simp only [stageArchiveFile_eq, Prog.andThen_assoc]
    rfl
  | prepareRoot | publish | release | cleanup => cases h

/-- **What an operation chooses** carries its nonce. -/
theorem spec_choose {operation : Operation} {x : Prog (Machine V) StagingError Chosen}
    (hx : choose root operation = some x) (h : Ledger strict root runId used w)
    (hordinary : strict → operation.Ordinary V) :
    ∃ random, operation.nonces = [random] ∧
      Prog.Spec x w (fun chosen => ChoseName strict root runId used random chosen.relative chosen.rootRelative)
        (fun _ w' => Ledger strict root runId used w') (Ledger strict root runId used) := by
  cases operation with
  | stageFile destination childRandom random =>
    cases hx
    refine ⟨random, rfl, Prog.spec_bind.mpr ((keeps_openRegistry w h).mono (fun _ w₁ h₁ => ?_) (fun _ _ h₁ => h₁)
      fun _ h₁ => h₁)⟩
    rw [Prog.spec_bind]
    exact spec_chooseSibling h₁ fun hs parent n hf => ordinary_of_find (hordinary hs) hf
  | stageForPublication destination childRandom random =>
    cases hx
    refine ⟨random, rfl, Prog.spec_bind.mpr ((keeps_openRegistry w h).mono (fun _ w₁ h₁ => ?_) (fun _ _ h₁ => h₁)
      fun _ h₁ => h₁)⟩
    have hend : ∀ {w'}, Same w₁ w' → Ledger strict root runId used w' := fun hs => h₁.same hs
    rw [Prog.spec_bind]
    refine (observes_pinDestination w₁ rfl).mono (fun _ w₂ ⟨h₂, hpin⟩ => ?_) (fun _ _ => hend)
      fun _ => hend
    rw [Prog.spec_bind]
    refine (observes_destinationSnapshot w₂ rfl).mono (fun leaf w₃ ⟨h₃, _⟩ => ?_)
      (fun _ _ hs => hend (h₂.trans hs)) fun _ hs => hend (h₂.trans hs)
    have h₂₃ := h₂.trans h₃
    rw [Prog.spec_bind]
    refine (observes_pinDestination w₃ rfl).mono (fun _ w₄ ⟨h₄, _⟩ => ?_)
      (fun _ _ hs => hend (h₂₃.trans hs)) fun _ hs => hend (h₂₃.trans hs)
    have h₂₄ := h₂₃.trans h₄
    rw [Prog.spec_bind]
    refine (observes_checkLeaf w₄ rfl).mono (fun _ w₅ ⟨h₅, _⟩ => ?_)
      (fun _ _ hs => hend (h₂₄.trans hs)) fun _ hs => hend (h₂₄.trans hs)
    have h₂₅ := h₂₄.trans h₅
    rw [Prog.spec_bind]
    exact spec_chooseSibling (h₁.same h₂₅) fun hs parent n hf => hpin.ordinary (h₂₅.disk ▸ hf)
  | stageArchive childRandom random =>
    cases hx
    refine ⟨random, rfl, Prog.spec_bind.mpr ((keeps_openRegistry w h).mono (fun _ w₁ h₁ => ?_) (fun _ _ h₁ => h₁)
      fun _ h₁ => h₁)⟩
    rw [Prog.spec_bind]
    exact spec_chooseEntry h₁
  | prepareRoot | publish | release | cleanup => cases hx

/-- **One operation keeps the ledger.** -/
theorem spec_perform (operation : Operation) (h : Ledger strict root runId used w)
    (hfresh : strict → ∀ n ∈ operation.nonces, n ∉ used)
    (hordinary : strict → operation.Ordinary V) :
    Prog.Spec (perform root operation) w
      (fun _ w' => Ledger strict root runId (operation.nonces ++ used) w')
      (fun _ w' => Ledger strict root runId (operation.nonces ++ used) w')
      (Ledger strict root runId (operation.nonces ++ used)) := by
  have hstage : ∀ x : Prog (Machine V) StagingError Chosen, choose root operation = some x →
      Prog.Spec (perform root operation) w
        (fun _ w' => Ledger strict root runId (operation.nonces ++ used) w')
        (fun _ w' => Ledger strict root runId (operation.nonces ++ used) w')
        (Ledger strict root runId (operation.nonces ++ used)) := by
    intro x hx
    obtain ⟨random, hnonces, hspec⟩ := spec_choose hx h hordinary
    have hmono : ∀ m ∈ used, m ∈ random :: used := fun m hm => List.mem_cons_of_mem _ hm
    rw [hnonces] at hfresh ⊢
    rw [perform_choose hx, Prog.spec_bind]
    refine hspec.mono (fun chosen w₁ h₁ => ?_) (fun _ _ h₁ => h₁.mono hmono) fun _ h₁ => h₁.mono hmono
    rw [Prog.spec_bind]
    exact (h₁.created fun hs => hfresh hs _ (List.mem_singleton_self _)).mono
      (fun path w₂ h₂ => spec_pushDurable h₂) (fun _ _ h₂ => h₂) fun _ h₂ => h₂
  cases operation with
  | prepareRoot =>
    exact keeps_openRegistry.bind (fun _ => keeps_prepareRoot.bind fun _ => Prog.keeps_pure _) w h
  | stageFile => exact hstage _ rfl
  | stageForPublication => exact hstage _ rfl
  | stageArchive => exact hstage _ rfl
  | publish index destination policy => exact keeps_publish w h
  | release temporary => exact keeps_releaseFile w h
  | cleanup =>
    unfold perform
    rw [Prog.spec_bind, Prog.spec_get]
    split_ifs
    · exact h
    · rw [Prog.spec_bind, Prog.spec_modify]
      have h₁ : Ledger strict root runId used { w with cleaned := true } :=
        { h with covered := h.covered, unclaimed := h.unclaimed, safe := h.safe }
      exact keeps_cleanupArtifacts.bind (fun _ => Prog.keeps_pure _) _ h₁

/-- The nonces of the files a run stages, the last first. -/
def noncesOf (operations : List Operation) : List Nonce := operations.flatMap Operation.nonces

/-- **Any sequence of operations keeps the ledger**, wherever the process dies. -/
theorem ledger_run (operations : List Operation) (h : Ledger strict root runId [] w)
    (hfresh : strict → (noncesOf operations).Nodup)
    (hordinary : strict → ∀ operation ∈ operations, operation.Ordinary V) :
    Prog.Spec (run root operations) w
      (fun _ w' => Ledger strict root runId (noncesOf operations) w') (fun _ _ => False)
      (Ledger strict root runId (noncesOf operations)) := by
  unfold run
  have hloop := Prog.Spec.forEach (E := fun (_ : StagingError) (_ : Machine V) => False)
    (C := Ledger strict root runId (noncesOf operations))
    (I := fun before after w => before ++ after = operations ∧
      Ledger strict root runId (noncesOf before) w)
    (f := fun operation => do
      let _ ← (Prog.attempt (perform root operation) : Prog (Machine V) StagingError _))
    (fun before operation after w₁ ⟨he, h₁⟩ => ?_) [] operations (s := w) ⟨rfl, h⟩
  · exact hloop.mono (fun _ _ h' => by simpa using h'.2) (fun _ _ h' => h') fun _ h' => h'
  · have hsplit : noncesOf operations = noncesOf before ++ (operation.nonces ++ noncesOf after) := by
      rw [← he]
      simp [noncesOf]
    have hnew : strict → ∀ n ∈ operation.nonces, n ∉ noncesOf before := by
      intro hs n hn hm
      have hnodup := hfresh hs
      rw [hsplit, List.nodup_append] at hnodup
      exact hnodup.2.2 n hm n (List.mem_append_left _ hn) rfl
    have hspec := spec_perform operation h₁ hnew fun hs => hordinary hs operation (by rw [← he]; simp)
    have hstep : ∀ n ∈ operation.nonces ++ noncesOf before, n ∈ noncesOf (before ++ [operation]) := by
      intro n hn
      simp only [noncesOf, List.flatMap_append, List.flatMap_cons, List.flatMap_nil, List.append_nil,
        List.mem_append] at hn ⊢
      exact hn.symm
    have hall : ∀ n ∈ operation.nonces ++ noncesOf before, n ∈ noncesOf operations := by
      intro n hn
      rw [hsplit]
      simp only [List.mem_append] at hn ⊢
      tauto
    have hnext : before ++ [operation] ++ after = operations := by
      rw [List.append_assoc]
      exact he
    rw [Prog.spec_bind, Prog.spec_attempt]
    exact hspec.mono (fun _ _ h₂ => ⟨hnext, h₂.mono hstep⟩) (fun _ _ h₂ => ⟨hnext, h₂.mono hstep⟩)
      fun _ h₂ => h₂.mono hall

end Cao
