import Cao.Staging.CrashAnywhere

/-!
# Outside the reserved namespace

The scope works under reserved names, and the rename that commits a destination is its only other step
on the Mod Root.

* `SameOutside`, `Inside`: trees that differ below reserved names only, and the steps between them;
* `Stays`: what every step keeps, from the machine an operation or a run started in;
* **`stays_perform`**: one operation;
* **`staging_outside`**: wherever a run ends, the entries outside the namespace are those the root held
  and the destinations committed, and no later recovery touches either.
-/

namespace Cao

variable {K : Type} [DecidableEq K] {V : Volume K} {p q : Path} {n m : Node Leaf} {w₀ w w' : Machine V}
variable {l : List Artifact} {a : Artifact} {root runId child : Text} {used : List Nonce} {random : Nonce}
variable {dest : Path → Prop} {ε α : Type}

/-! ## Steps below reserved names -/

/-- The trees hold the same entries outside the reserved namespace. -/
def SameOutside (d d' : Disk V) : Prop :=
  ∀ p n, hasStagingComponent p = false → (d'.Has p n ↔ d.Has p n)

omit [DecidableEq K] in
theorem SameOutside.refl (d : Disk V) : SameOutside d d := fun _ _ _ => Iff.rfl

omit [DecidableEq K] in
theorem SameOutside.trans {d₁ d₂ d₃ : Disk V} (h : SameOutside d₁ d₂) (h' : SameOutside d₂ d₃) : SameOutside d₁ d₃ :=
  fun p n hp => (h' p n hp).trans (h p n hp)

/-- The step changed reserved entries only, and none of the memory but the requests. -/
structure Inside (w w' : Machine V) : Prop where
  frame : w' = { w with disk := w'.disk, tape := w'.tape, made := w'.made, requests := w'.requests }
  disk : SameOutside w.disk w'.disk

omit [DecidableEq K] in
theorem Inside.trans {w₁ : Machine V} (h : Inside w w₁) (h' : Inside w₁ w') : Inside w w' := by
  refine ⟨?_, h.disk.trans h'.disk⟩
  rw [h'.frame, h.frame]

omit [DecidableEq K] in
theorem Same.inside (h : Same w w') : Inside w w' := by
  refine ⟨?_, ?_⟩
  · rw [h]
  · rw [h.disk]
    exact .refl _

omit [DecidableEq K] in
theorem Added.inside (h : Added p q n w w') (hp : hasStagingComponent p = true) : Inside w w' := by
  refine ⟨?_, fun r m hr => ?_⟩
  · rw [h.frame]
  · rw [h.disk]
    constructor
    · rintro (hold | ⟨rfl, -⟩)
      · exact hold
      · rw [hasStagingComponent_fold h.fold, hp] at hr
        cases hr
    · exact Or.inl

omit [DecidableEq K] in
theorem Begun.inside (h : Begun p w w') (hp : hasStagingComponent p = true) : Inside w w' := by
  rcases h with h | ⟨q, data, h⟩
  · exact h.inside
  · exact h.inside hp

omit [DecidableEq K] in
/-- The removal of a reserved entry. -/
theorem inside_of_erase (hs : Shrunk w w') (he : w.disk.erase p = some w'.disk) (hp : hasStagingComponent p = true) :
    Inside w w' := by
  have hframe : w' = { w with disk := w'.disk, tape := w'.tape } := hs
  refine ⟨?_, fun r m hr => ?_⟩
  · rw [hframe]
  · rw [PathTree.has_erase he]
    constructor
    · exact And.left
    · intro hold
      refine ⟨hold, ?_⟩
      rintro rfl
      rw [hp] at hr
      cases hr

theorem reserved_of_controls : ∀ c ∈ controls, hasStagingComponent c = true := by decide

omit [DecidableEq K] in
theorem Published.inside (h : Published root runId child l w w') : Inside w w' := by
  obtain ⟨w₁, scratch, r, d, tape, hadded, rfl, hfold, hhas⟩ := h
  have hscratch : hasStagingComponent (controlPath manifestScratch) = true :=
    reserved_of_controls _ (by simp [controls])
  have hmanifest : hasStagingComponent (controlPath manifestName) = true :=
    reserved_of_controls _ (by simp [controls])
  have hbegun : Inside w w₁ := hadded.inside hscratch
  refine hbegun.trans ⟨rfl, fun p m hp => ?_⟩
  have hne : p ≠ scratch := by
    rintro rfl
    rw [hasStagingComponent_fold hadded.fold, hscratch] at hp
    cases hp
  have hname : p.map V.fold ≠ (controlPath manifestName).map V.fold := by
    intro heq
    rw [hasStagingComponent_fold heq, hmanifest] at hp
    cases hp
  have hr : p ≠ r := by
    rintro rfl
    exact hname hfold
  rw [show PathTree.Has _ p m ↔ _ from hhas p m]
  simp [hne, hname, hr]

/-- Whatever comes of it, the publication of a list changes control files only. -/
theorem inside_publishManifest : Prog.Spec (publishManifest root runId child l) w
    (fun _ w' => Inside w w') (fun _ w' => Inside w w') (Inside w) := by
  have hrequested : Inside w (requested w child l) := ⟨rfl, .refl _⟩
  have hscratch : hasStagingComponent (controlPath manifestScratch) = true :=
    reserved_of_controls _ (by simp [controls])
  exact spec_publication.mono (fun _ _ h => hrequested.trans h.inside) (fun _ _ h => hrequested.trans (h.inside hscratch))
    fun _ h => hrequested.trans (h.inside hscratch)

/-! ## What every step keeps -/

/-- The lists and the staged files of the scope have reserved names. -/
structure Listed (w : Machine V) : Prop where
  artifacts : ∀ area, w.scope.area = some area → ∀ a ∈ area.artifacts, hasStagingComponent (artifactPath a) = true
  durable : ∀ d ∈ w.durable, hasStagingComponent d.path = true

/-- A file stands at the path, in some spelling. -/
def Stands (d : Disk V) (q : Path) : Prop := ∃ r b, r.map V.fold = q.map V.fold ∧ d.Has r (.leaf b)

/-- The receipt of a staged file is gone. -/
def Used (w : Machine V) (i : Nat) : Prop := ∃ d, w.durable[i]? = some d ∧ d.receipt = none

/-- Since `w₀` files came to stand at unreserved destinations in `dest`, and nothing else moved outside the
reserved namespace. -/
structure Moved (dest : Path → Prop) (w₀ w : Machine V) (since : List Path) : Prop where
  committed : w.committed = w₀.committed ++ since
  stands : ∀ q ∈ since, dest q ∧ hasStagingComponent q = false ∧ Stands w.disk q
  disk : ∀ p n, hasStagingComponent p = false → (∀ q ∈ since, q.map V.fold ≠ p.map V.fold) →
    (w.disk.Has p n ↔ w₀.disk.Has p n)

/-- **What every step of the scope keeps**, from `w₀` on: the names it owns are reserved, a used receipt
stays used, Safety Cleanup stays started, and outside the namespace only destinations moved. -/
structure Stays (dest : Path → Prop) (w₀ w : Machine V) : Prop where
  listed : Listed w
  used : ∀ i, Used w₀ i → Used w i
  cleaned : w₀.cleaned = true → w.cleaned = true
  moved : ∃ since, Moved dest w₀ w since

omit [DecidableEq K] in
theorem Stays.refl (h : Listed w) : Stays dest w w where
  listed := h
  used := fun _ => id
  cleaned := id
  moved := ⟨[], (List.append_nil _).symm, nofun, fun _ _ _ _ => Iff.rfl⟩

omit [DecidableEq K] in
theorem Stands.outside {d d' : Disk V} (h : Stands d q) (hq : hasStagingComponent q = false) (hd : SameOutside d d') :
    Stands d' q := by
  obtain ⟨r, b, hr, hhas⟩ := h
  exact ⟨r, b, hr, (hd r _ ((hasStagingComponent_fold hr).trans hq)).mpr hhas⟩

omit [DecidableEq K] in
/-- A step that commits nothing, and changes the tree below reserved names only. -/
theorem Moved.step {since : List Path} (h : Moved dest w₀ w since) (hcommitted : w'.committed = w.committed)
    (hdisk : SameOutside w.disk w'.disk) : Moved dest w₀ w' since where
  committed := hcommitted.trans h.committed
  stands := fun q hq => ⟨(h.stands q hq).1, (h.stands q hq).2.1, (h.stands q hq).2.2.outside (h.stands q hq).2.1 hdisk⟩
  disk := fun p n hp hne => (hdisk p n hp).trans (h.disk p n hp hne)

omit [DecidableEq K] in
theorem Stays.trans {w₁ : Machine V} (h : Stays dest w₀ w₁) (h' : Stays dest w₁ w) : Stays dest w₀ w := by
  obtain ⟨since, hmoved⟩ := h.moved
  obtain ⟨since', hmoved'⟩ := h'.moved
  refine ⟨h'.listed, fun i hi => h'.used i (h.used i hi), fun hc => h'.cleaned (h.cleaned hc), since ++ since', ?_,
    fun q hq => ?_, fun p n hp hne => ?_⟩
  · rw [hmoved'.committed, hmoved.committed, List.append_assoc]
  · rcases List.mem_append.mp hq with hq | hq
    · obtain ⟨hdest, hreserved, r, b, hfold, hhas⟩ := hmoved.stands q hq
      refine ⟨hdest, hreserved, ?_⟩
      by_cases hagain : ∃ q' ∈ since', q'.map V.fold = r.map V.fold
      · obtain ⟨q', hq', heq⟩ := hagain
        obtain ⟨-, -, t, c, ht, hhas'⟩ := hmoved'.stands q' hq'
        exact ⟨t, c, (ht.trans heq).trans hfold, hhas'⟩
      · have hr := (hasStagingComponent_fold hfold).trans hreserved
        exact ⟨r, b, hfold, (hmoved'.disk r _ hr fun q' hq' heq => hagain ⟨q', hq', heq⟩).mpr hhas⟩
    · exact hmoved'.stands q hq
  · exact (hmoved'.disk p n hp fun q hq => hne q (List.mem_append_right _ hq)).trans
      (hmoved.disk p n hp fun q hq => hne q (List.mem_append_left _ hq))

omit [DecidableEq K] in
theorem Stays.inside (h : Stays dest w₀ w) (hw : Inside w w') : Stays dest w₀ w' := by
  have hf := hw.frame
  obtain ⟨since, hmoved⟩ := h.moved
  refine ⟨⟨?_, ?_⟩, ?_, ?_, since, hmoved.step ?_ hw.disk⟩
  · rw [hf]
    exact h.listed.artifacts
  · rw [hf]
    exact h.listed.durable
  · rw [hf]
    exact h.used
  · rw [hf]
    exact h.cleaned
  · rw [hf]

omit [DecidableEq K] in
/-- A step that changes what the scope lists. -/
theorem Stays.scoped (h : Stays dest w₀ w) (hframe : w' = { w with disk := w'.disk, tape := w'.tape, scope := w'.scope })
    (hdisk : SameOutside w.disk w'.disk)
    (hlisted : ∀ area, w'.scope.area = some area → ∀ a ∈ area.artifacts, hasStagingComponent (artifactPath a) = true) :
    Stays dest w₀ w' := by
  obtain ⟨since, hmoved⟩ := h.moved
  refine ⟨⟨hlisted, ?_⟩, ?_, ?_, since, hmoved.step ?_ hdisk⟩
  · rw [hframe]
    exact h.listed.durable
  · rw [hframe]
    exact h.used
  · rw [hframe]
    exact h.cleaned
  · rw [hframe]

omit [DecidableEq K] in
/-- A change of the staged files that gives no receipt back. -/
theorem Stays.setDurable (h : Stays dest w₀ w) {i : Nat} {d : Registered} (hpath : hasStagingComponent d.path = true)
    (hreceipt : d.receipt = none) : Stays dest w₀ { w with durable := w.durable.set i d } := by
  refine ⟨⟨h.listed.artifacts, fun e he => ?_⟩, fun j hj => ?_, h.cleaned, ?_⟩
  · rcases List.mem_or_eq_of_mem_set he with he | rfl
    · exact h.listed.durable e he
    · exact hpath
  · obtain ⟨e, he, hnone⟩ := h.used j hj
    by_cases hij : i = j
    · subst hij
      exact ⟨d, by simp [(List.getElem?_eq_some_iff.mp he).1], hreceipt⟩
    · exact ⟨e, by simp [List.getElem?_set_ne hij, he], hnone⟩
  · obtain ⟨since, hmoved⟩ := h.moved
    exact ⟨since, hmoved.step rfl (.refl _)⟩

omit [DecidableEq K] in
/-- **What happens outside is nothing to the ledger.** -/
theorem Ledger.outside (h : Ledger False root runId used w) (hf : w' = { w with disk := w'.disk, tape := w'.tape })
    (hdisk : ∀ p n, hasStagingComponent p = true → (w'.disk.Has p n ↔ w.disk.Has p n)) :
    Ledger False root runId used w' := by
  have hmade : w'.made = w.made := by rw [hf]
  have hscope : w'.scope = w.scope := by rw [hf]
  have hregistered : registered w' = registered w := by unfold registered; rw [hscope]
  have hcovered : ∀ {l}, Covered w l → Covered w' l := by
    rintro l hl p hp ⟨m, hm⟩
    rw [hmade] at hp
    exact hl p hp ⟨m, (hdisk p m (h.made p hp)).mp hm⟩
  refine ⟨hscope ▸ h.run, ?_, hmade ▸ h.made, ?_, ?_, hscope ▸ h.listed, hregistered ▸ hcovered h.covered, ?_, ?_⟩
  · rw [hf]; exact h.requests
  · rw [hf]; exact h.committed
  · rw [hf]; exact h.durable
  · rw [hf]; exact h.unclaimed
  · rcases h.safe with ⟨hc, hrest⟩ | ⟨child, l, ⟨q, hq, hfold⟩, hl, hc⟩
    · refine .inl ⟨hcovered hc, ?_⟩
      rw [hf]
      exact hrest
    · have hreserved : hasStagingComponent q = true :=
        ((control_of_mem (by simp [controls])).congr hfold : Control V q).reserved
      exact .inr ⟨child, l, ⟨q, (hdisk q _ hreserved).mpr (hscope ▸ hq), hfold⟩, hscope ▸ hl, hcovered hc⟩

/-! ## Programs -/

omit [DecidableEq K] in
theorem keeps_stays {x : Prog (Machine V) ε α}
    (h : ∀ w, Prog.Spec x w (fun _ w' => Inside w w') (fun _ w' => Inside w w') (Inside w)) : Prog.Keeps (Stays dest w₀) x :=
  fun w hw => (h w).mono (fun _ _ hs => hw.inside hs) (fun _ _ hs => hw.inside hs) fun _ hs => hw.inside hs

omit [DecidableEq K] in
theorem keeps_stays_of_observes {x : Prog (Machine V) ε α} {R : Disk V → α → Prop} (h : ∀ d, Observes d x (R d)) :
    Prog.Keeps (Stays dest w₀) x :=
  keeps_stays fun w => (h w.disk w rfl).mono (fun _ _ hs => hs.1.inside) (fun _ _ hs => hs.inside) fun _ hs => hs.inside

theorem keeps_stays_makeEntry (hp : hasStagingComponent p = true) : Prog.Keeps (Stays (V := V) dest w₀) (makeEntry n p) :=
  keeps_stays fun _ => spec_makeEntry.mono (fun _ _ ha => ha.inside hp) (fun _ _ hs => hs.inside) fun _ hs => hs.inside

theorem keeps_stays_writeNewFile {bytes : Bytes} (hp : hasStagingComponent p = true) :
    Prog.Keeps (Stays (V := V) dest w₀) (writeNewFile p bytes) :=
  keeps_stays fun _ => spec_writeNewFile.mono (fun _ _ ha => ha.inside hp) (fun _ _ hb => hb.1.inside hp) fun _ hb =>
    hb.inside hp

omit [DecidableEq K] in
theorem stays_modifyArea {f : Area → Area} (h : Stays dest w₀ w)
    (hf : ∀ area, w.scope.area = some area → ∀ a ∈ (f area).artifacts, hasStagingComponent (artifactPath a) = true) :
    Stays dest w₀ (w.mapArea f) := by
  refine h.scoped rfl (.refl _) fun area harea => ?_
  rw [mapArea_area, Option.map_eq_some_iff] at harea
  obtain ⟨before, hbefore, rfl⟩ := harea
  exact hf before hbefore

omit [DecidableEq K] in
theorem keeps_stays_modifyArea {f : Area → Area} (hf : ∀ area, ∀ a ∈ (f area).artifacts, a ∈ area.artifacts) :
    Prog.Keeps (Stays (V := V) dest w₀) (modifyArea f) := by
  intro w h
  rw [spec_modifyArea]
  exact stays_modifyArea h fun area harea a ha => h.listed.artifacts area harea a (hf area a ha)

theorem keeps_stays_publishManifest : Prog.Keeps (Stays (V := V) dest w₀) (publishManifest root runId child l) :=
  keeps_stays fun _ => inside_publishManifest

/-! ### Registered files -/

/-- The half of a registered file after its registration. -/
theorem stays_createOrWithdraw (h : Stays dest w₀ w) (hp : hasStagingComponent p = true) :
    Prog.Spec (createOrWithdraw root runId child l p) w (fun path w' => Stays dest w₀ w' ∧ path = p)
      (fun _ w' => Stays dest w₀ w') (Stays dest w₀) := by
  have hconflict : hasStagingComponent (controlPath conflictControl) = true :=
    reserved_of_controls _ (by simp [controls])
  unfold createOrWithdraw
  rw [Prog.spec_bind, Prog.spec_attempt]
  refine (keeps_stays_writeNewFile hp w h).mono (fun path w₁ h₁ => ⟨h₁, rfl⟩) (fun e w₁ h₁ => ?_) fun _ h₁ => h₁
  cases e with
  | collision taken =>
    dsimp only
    rw [Prog.spec_bind]
    refine (keeps_stays_modifyArea (fun _ _ => List.mem_of_mem_dropLast) w₁ h₁).mono (fun _ w₂ h₂ => ?_)
      (fun _ _ h₂ => h₂) fun _ h₂ => h₂
    rw [Prog.spec_bind, Prog.spec_attempt]
    refine (keeps_stays_publishManifest w₂ h₂).mono (fun _ w₃ h₃ => h₃) (fun e w₃ h₃ => ?_) fun _ h₃ => h₃
    dsimp only
    rw [Prog.spec_bind, Prog.spec_attempt]
    exact keeps_stays_writeNewFile hconflict w₃ h₃
  | _ => exact h₁

/-- **A registered file** gets the reserved path its name was chosen for. -/
theorem stays_createRegisteredFile {relative : Text} {rootRelative : Bool} (h : Stays dest w₀ w)
    (hchose : ChoseName False root runId used random relative rootRelative w) :
    Prog.Spec (createRegisteredFile root relative rootRelative) w
      (fun path w' => Stays dest w₀ w' ∧ hasStagingComponent path = true) (fun _ w' => Stays dest w₀ w')
      (Stays dest w₀) := by
  obtain ⟨hledger, area, harea, hchild, hcarry⟩ := hchose
  have hlist : RunList False runId area.child used area.artifacts :=
    (hledger.listed area harea).resolve_left fun he => hchild he.1
  have hpath : hasStagingComponent (artifactPath ⟨relative, false, rootRelative⟩) = true :=
    ((hlist.register hcarry False.elim).entry (V := V) (by simp)).1
  unfold createRegisteredFile
  rw [Prog.spec_bind, Prog.spec_get, harea]
  dsimp only
  rw [Prog.spec_bind]
  refine (inside_publishManifest.and (keeps_stays_publishManifest w h)).mono (fun _ w₁ ⟨hinside, h₁⟩ => ?_)
    (fun _ _ h₁ => h₁.2) fun _ h₁ => h₁.2
  rw [Prog.spec_bind, spec_modifyArea]
  have h₂ := stays_modifyArea (f := fun a => { a with artifacts :=
      area.artifacts ++ [⟨relative, false, rootRelative⟩] }) h₁ fun area' _ a ha => by
    rcases List.mem_append.mp ha with ha | ha
    · exact h.listed.artifacts area harea a ha
    · rw [List.mem_singleton.mp ha]
      exact hpath
  exact (stays_createOrWithdraw h₂ hpath).mono (fun path w₃ ⟨h₃, heq⟩ => ⟨h₃, heq ▸ hpath⟩) (fun _ _ h₃ => h₃)
    fun _ h₃ => h₃

/-- **A release** drops a name from the list. -/
theorem keeps_stays_releaseFile {temporary : Path} : Prog.Keeps (Stays (V := V) dest w₀) (releaseFile root temporary) := by
  have hinspect : Prog.Keeps (Stays (V := V) dest w₀) (inspect temporary : Prog (Machine V) StagingError (Option Kind)) :=
    keeps_stays_of_observes fun _ => observes_inspect
  intro w h
  unfold releaseFile
  rw [Prog.spec_bind, Prog.spec_get]
  split
  · exact h
  next area harea =>
  split
  · exact h
  next position _ =>
  refine (hinspect.bind fun kind => ?_) w h
  cases kind with
  | some _ => exact Prog.keeps_fail _
  | none =>
    refine keeps_stays_publishManifest.bind fun _ => ?_
    intro w₁ h₁
    rw [spec_modifyArea]
    exact stays_modifyArea h₁ fun _ _ a ha => h.listed.artifacts area harea a (List.mem_of_mem_eraseIdx ha)

/-! ### Recovery and the area -/

omit [DecidableEq K] in
/-- What removes reserved names only leaves the rest. -/
theorem outside_of_gone {d d' : Disk V} (hold : ∀ p n, d'.Has p n → d.Has p n)
    (hgone : ∀ p n, d.Has p n → ¬ d'.Has p n → hasStagingComponent p = true) : SameOutside d d' := by
  intro p n hp
  refine ⟨hold p n, fun hhas => ?_⟩
  by_contra hnot
  rw [hgone p n hhas hnot] at hp
  cases hp

/-- **A recovery** removes what its manifest owns, which is reserved. -/
theorem keeps_stays_recover {stop : CancellationToken} : Prog.Keeps (Stays (V := V) dest w₀) (recover stop root) := by
  intro w h
  have hpart : ∀ {w'}, Shrunk w w' ∧ Touched root w w' → Stays dest w₀ w' := by
    rintro w' ⟨hs, ht⟩
    have hf : w' = { w with disk := w'.disk, tape := w'.tape } := hs
    refine h.scoped ?_ ?_ fun area harea => h.listed.artifacts area ?_
    · rw [hf]
    · rcases ht with hsame | ⟨-, manifest, hread, hremains⟩
      · rw [hsame]
        exact .refl _
      · exact outside_of_gone hremains.old fun p n hp hnot => ((hremains.kept p n hp).resolve_left hnot).reserved hread
    · rwa [hf] at harea
  refine (spec_recover stop root w).mono (fun _ w' hd => ?_) (fun _ _ => hpart) fun _ => hpart
  rcases hd with ⟨hs, -⟩ | ⟨-, manifest, pins, hread, -, hr⟩
  · exact h.inside hs.inside
  · have hf := hr.frame
    refine h.scoped ?_ ?_ fun area harea => ?_
    · rw [hf]
    · refine outside_of_gone (fun p n hp => ((hr.disk p n).mp hp).1) fun p n hp hnot => ?_
      by_contra hreserved
      exact hnot ((hr.disk p n).mpr ⟨hp, fun howned => hreserved (howned.reserved hread)⟩)
    · rw [hf] at harea
      cases harea
      simp [Area.default]

theorem keeps_stays_prepareRoot {stop : CancellationToken} : Prog.Keeps (Stays (V := V) dest w₀) (prepareRoot stop root) := by
  refine keeps_stays_recover.attempt.bind fun result => ?_
  rcases result with (_ | (_ | _ | _ | _ | _) | _) | _ <;> exact Prog.keeps_pure _

theorem keeps_stays_pinDirectory : Prog.Keeps (Stays (V := V) dest w₀) (pinDirectory p) :=
  keeps_stays_of_observes fun _ => observes_pinDirectory

theorem keeps_stays_ensureClaimed : Prog.Keeps (Stays (V := V) dest w₀) ensureClaimed := by
  have hstaging : hasStagingComponent staging = true := reserved_of_controls _ (by simp [controls])
  have hlock : hasStagingComponent (controlPath ownerLock) = true := reserved_of_controls _ (by simp [controls])
  have hclaim : Prog.Keeps (Stays (V := V) dest w₀) claimArea := by
    unfold claimArea
    refine keeps_stays_pinDirectory.bind fun _ => (keeps_stays_makeEntry hstaging).mapError.bind fun _ =>
      keeps_stays_pinDirectory.bind fun _ => ?_
    have hnew : Prog.Keeps (Stays (V := V) dest w₀) (claimNewLock (controlPath ownerLock)) :=
      (keeps_stays_makeEntry hlock).mapError.bind fun _ => (keeps_stays_of_observes fun _ => observes_settle).mapError
    refine hnew.bind fun _ => fun w h => ?_
    rw [Prog.spec_modify]
    refine h.scoped rfl (.refl _) fun area harea => ?_
    cases harea
    simp [Area.default]
  unfold ensureClaimed
  refine Prog.keeps_get.bind fun w => ?_
  split
  · exact hclaim
  · exact Prog.keeps_pure _

/-- **The run child** lies below the reserved directory. -/
theorem keeps_stays_publishChild : Prog.Keeps (Stays (V := V) dest w₀) (publishChild root random) := by
  have hbelow : ∀ rest : Path, hasStagingComponent (staging ++ rest) = true := fun rest => by
    simp [staging, hasStagingComponent, isStagingName_staging]
  have hnonce : Prog.Keeps (Stays (V := V) dest w₀) (nonce random) := keeps_stays_of_observes fun _ => observes_nonce
  unfold publishChild
  refine Prog.keeps_get.bind fun w => hnonce.bind fun text => ?_
  have hmodify : Prog.Keeps (Stays (V := V) dest w₀) (modifyArea fun area =>
      { area with child := "run-".toList ++ w.scope.runId ++ ['-'] ++ text, artifacts :=
        [⟨"run-".toList ++ w.scope.runId ++ ['-'] ++ text, true, false⟩] }) := by
    intro w₁ h₁
    rw [spec_modifyArea]
    refine stays_modifyArea h₁ fun _ _ a ha => ?_
    rw [List.mem_singleton.mp ha, artifactPath_of_control rfl]
    exact hbelow _
  exact hmodify.bind fun _ => keeps_stays_publishManifest.bind fun _ => (keeps_stays_makeEntry (hbelow _)).mapError.bind
    fun _ => keeps_stays_pinDirectory.bind fun _ => keeps_stays_modifyArea fun _ _ => id

/-- **The area of a run**, claimed and published. -/
theorem keeps_stays_prepareArea : Prog.Keeps (Stays (V := V) dest w₀) (prepareArea root random) := by
  unfold prepareArea
  refine Prog.keeps_get.bind fun w => ?_
  split
  · exact Prog.keeps_fail _
  refine keeps_stays_prepareRoot.bind fun failure => ?_
  cases failure with
  | some _ => exact Prog.keeps_fail _
  | none =>
    refine keeps_stays_ensureClaimed.bind fun _ => Prog.keeps_get.bind fun w₁ => ?_
    split
    · exact Prog.keeps_fail _
    · split_ifs
      · exact Prog.keeps_fail _
      · exact keeps_stays_publishChild
      · exact Prog.keeps_pure _

/-! ### Cleanup -/

omit [DecidableEq K] in
theorem keeps_stays_deleteByHandle (hp : hasStagingComponent p = true) :
    Prog.Keeps (Stays (V := V) dest w₀) (deleteByHandle p) := by
  refine keeps_stays fun w => spec_change.mono (fun _ w' ⟨hs, hd⟩ => ?_) (fun _ _ hs => hs.1.inside) fun _ hs => hs.inside
  split at hd
  · next d herase =>
    rw [Except.ok.injEq, Prod.mk.injEq] at hd
    exact inside_of_erase hs (hd.2 ▸ herase) hp
  · cases hd

theorem keeps_stays_removeDir (hp : hasStagingComponent p = true) : Prog.Keeps (Stays (V := V) dest w₀) (removeDir p) := by
  refine keeps_stays fun w => spec_change.mono (fun _ w' ⟨hs, hd⟩ => ?_) (fun _ _ hs => hs.1.inside) fun _ hs => hs.inside
  split at hd
  · next r hfind =>
    split at hd
    · next d herase =>
      rw [Except.ok.injEq, Prod.mk.injEq] at hd
      exact inside_of_erase hs (hd.2 ▸ herase) ((hasStagingComponent_fold (PathTree.fold_of_find hfind)).trans hp)
    · cases hd
  · cases hd
  · cases hd

theorem keeps_stays_removeArtifact (hp : hasStagingComponent p = true) :
    Prog.Keeps (Stays (V := V) dest w₀) (removeArtifact p a) := by
  have hweakly : Prog.Keeps (Stays (V := V) dest w₀) (weaklyCanonical p.dropLast : Prog (Machine V) IoError Path) :=
    keeps_stays_of_observes (R := fun _ _ => True) fun _ => observes_query fun _ _ => trivial
  have hinspect : Prog.Keeps (Stays (V := V) dest w₀) (inspect p : Prog (Machine V) StagingError (Option Kind)) :=
    keeps_stays_of_observes fun _ => observes_inspect
  unfold removeArtifact
  refine hweakly.mapError.bind fun resolved => ?_
  split
  · exact Prog.keeps_fail _
  refine hinspect.bind fun kind => ?_
  cases kind with
  | none => exact Prog.keeps_pure _
  | some kind =>
    dsimp only
    split
    · exact Prog.keeps_fail _
    split
    · exact (keeps_stays_removeDir hp).mapError
    · intro w h
      rw [Prog.spec_bind]
      refine (observes_openTemporaryFile w rfl).mono (fun file w₁ ⟨h₁, data, hfind⟩ => ?_)
        (fun _ _ hs => h.inside hs.inside) fun _ hs => h.inside hs.inside
      have hfile := (hasStagingComponent_fold (PathTree.fold_of_find hfind)).trans hp
      exact (keeps_stays_deleteByHandle hfile).mapError w₁ (h.inside h₁.inside)

/-- **Safety Cleanup** removes entries of the list. -/
theorem keeps_stays_cleanupArtifacts : Prog.Keeps (Stays (V := V) dest w₀) cleanupArtifacts := by
  intro w h
  unfold cleanupArtifacts
  rw [Prog.spec_bind, Prog.spec_get]
  split
  · exact h
  next area harea =>
  split_ifs
  · exact h
  refine (Prog.Spec.foldEach (E := fun _ : StagingError => Stays dest w₀) (C := Stays dest w₀)
    (I := fun _ after (_ : List (Path × StagingError)) w => Stays dest w₀ w ∧ ∀ a ∈ after, a ∈ area.artifacts)
    (fun before a after failures w₁ ⟨h₁, hmem⟩ => ?_) [] area.artifacts.reverse
    ⟨h, fun a ha => List.mem_reverse.mp ha⟩).mono (fun _ _ h' => h'.1) (fun _ _ h' => h') fun _ h' => h'
  have ha := h.listed.artifacts area harea a (hmem a List.mem_cons_self)
  have hrest : ∀ b ∈ after, b ∈ area.artifacts := fun b hb => hmem b (List.mem_cons_of_mem _ hb)
  rw [Prog.spec_bind, Prog.spec_attempt]
  exact (keeps_stays_removeArtifact ha w₁ h₁).mono (fun _ _ h' => ⟨h', hrest⟩) (fun _ _ h' => ⟨h', hrest⟩)
    fun _ h' => h'

/-! ### Publication -/

omit [DecidableEq K] in
/-- **A commit** at a destination. -/
theorem Stays.commit (h : Stays dest w₀ w) {s r : Path} {b : Leaf}
    (hframe : w' = { w with disk := w'.disk, tape := w'.tape, committed := w.committed ++ [r] })
    (hs : hasStagingComponent s = true) (hr : hasStagingComponent r = false) (hdest : dest r)
    (hdisk : ∀ t m, w'.disk.Has t m ↔ (w.disk.Has t m ∧ t ≠ s ∧ t.map V.fold ≠ r.map V.fold) ∨ t = r ∧ m = .leaf b) :
    Stays dest w₀ w' := by
  obtain ⟨since, hmoved⟩ := h.moved
  have hother : ∀ t m, hasStagingComponent t = false → t.map V.fold ≠ r.map V.fold →
      (w'.disk.Has t m ↔ w.disk.Has t m) := by
    intro t m ht hne
    have hts : t ≠ s := by
      rintro rfl
      rw [hs] at ht
      cases ht
    have htr : t ≠ r := by
      rintro rfl
      exact hne rfl
    simp [hdisk, hts, htr, hne]
  refine ⟨⟨?_, ?_⟩, ?_, ?_, since ++ [r], ?_, fun q hq => ?_, fun p n hp hne => ?_⟩
  · rw [hframe]
    exact h.listed.artifacts
  · rw [hframe]
    exact h.listed.durable
  · rw [hframe]
    exact h.used
  · rw [hframe]
    exact h.cleaned
  · rw [hframe]
    show w.committed ++ [r] = _
    rw [hmoved.committed, List.append_assoc]
  · rcases List.mem_append.mp hq with hq | hq
    · obtain ⟨hto, hreserved, t, c, hfold, hhas⟩ := hmoved.stands q hq
      refine ⟨hto, hreserved, ?_⟩
      by_cases hqr : t.map V.fold = r.map V.fold
      · exact ⟨r, b, hqr.symm.trans hfold, (hdisk r _).mpr (.inr ⟨rfl, rfl⟩)⟩
      · exact ⟨t, c, hfold, (hother t _ ((hasStagingComponent_fold hfold).trans hreserved) hqr).mpr hhas⟩
    · rw [List.mem_singleton.mp hq]
      exact ⟨hdest, hr, r, b, rfl, (hdisk r _).mpr (.inr ⟨rfl, rfl⟩)⟩
  · have hold := hmoved.disk p n hp fun q hq => hne q (List.mem_append_left _ hq)
    have hpr := hne r (List.mem_append_right _ (List.mem_singleton_self r))
    exact (hother p n hp hpr.symm).trans hold

theorem keeps_stays_commitDestination {policy : PublicationPolicy} {temporary destination : Path}
    (ht : hasStagingComponent temporary = true) (hd : hasStagingComponent destination = false)
    (hdest : ∀ r, r.map V.fold = destination.map V.fold → dest r) :
    Prog.Keeps (Stays (V := V) dest w₀) (commitDestination policy temporary destination) := by
  refine fun w h => step_eq.mono (fun _ w' ⟨tape, hw'⟩ => ?_) (fun _ _ hs => h.inside hs.inside) fun _ hs =>
    h.inside hs.inside
  cases hr : renameEntry policy temporary destination w.disk with
  | error e => rw [hr] at hw'; cases hw'
  | ok e =>
    obtain ⟨r, d⟩ := e
    rw [hr] at hw'
    cases hw'
    obtain ⟨s, b, hfind, hfold, hhas⟩ := renameEntry_ok hr
    refine h.commit (s := s) (r := r) (b := b) rfl ((hasStagingComponent_fold (PathTree.fold_of_find hfind)).trans ht)
      ((hasStagingComponent_fold hfold).trans hd) (hdest r hfold) fun t m => ?_
    rw [hfold]
    exact hhas t m

/-- **Publication** through a receipt, which it uses before it commits. -/
theorem stays_publish {index : Nat} {destination : Path} {policy : PublicationPolicy} (h : Listed w)
    (hdest : ∀ r, r.map V.fold = destination.map V.fold → dest r) :
    Prog.Spec (publish root index destination policy) w
      (fun _ w' => Stays dest w w' ∧ (w'.committed = w.committed ∨ ¬Used w index ∧ Used w' index))
      (fun _ w' => Stays dest w w' ∧ (w'.committed = w.committed ∨ ¬Used w index ∧ Used w' index))
      (fun w' => Stays dest w w' ∧ (w'.committed = w.committed ∨ ¬Used w index ∧ Used w' index)) := by
  unfold publish
  rw [Prog.spec_bind, Prog.spec_get]
  split
  · next temporary receipt hget =>
    have ht := h.durable _ (List.mem_of_getElem? hget)
    have hunused : ¬Used w index := by
      rintro ⟨d, hd, hnone⟩
      rw [hget, Option.some.injEq] at hd
      rw [← hd] at hnone
      cases hnone
    rw [Prog.spec_bind, Prog.spec_modify]
    have hself : Stays dest w w := .refl h
    have h₁ := hself.setDurable (i := index) (d := ⟨temporary, false, none⟩) ht rfl
    have hused : Used { w with durable := w.durable.set index ⟨temporary, false, none⟩ } index :=
      ⟨⟨temporary, false, none⟩, by simp [(List.getElem?_eq_some_iff.mp hget).1], rfl⟩
    split
    · exact ⟨h₁, .inl rfl⟩
    split
    · exact ⟨h₁, .inl rfl⟩
    generalize { w with durable := w.durable.set index ⟨temporary, false, none⟩ } = w₁ at h₁ hused
    have hend : ∀ {w'}, Stays dest w₁ w' → Stays dest w w' ∧ (w'.committed = w.committed ∨ ¬Used w index ∧ Used w' index) :=
      fun h' => ⟨h₁.trans h', .inr ⟨hunused, h'.used index hused⟩⟩
    have hstart : Stays dest w₁ w₁ := .refl h₁.listed
    rw [Prog.spec_bind]
    refine (observes_pinDestination w₁ rfl).mono (fun _ w₂ ⟨h₂, hd⟩ => ?_) (fun _ _ hs => hend (hstart.inside hs.inside))
      fun _ hs => hend (hstart.inside hs.inside)
    have ha₂ := hstart.inside h₂.inside
    rw [Prog.spec_bind]
    refine (observes_openTemporaryFile w₂ rfl).mono (fun staged w₃ ⟨h₃, data, hfind⟩ => ?_)
      (fun _ _ hs => hend (ha₂.inside hs.inside)) fun _ hs => hend (ha₂.inside hs.inside)
    have hstaged := (hasStagingComponent_fold (PathTree.fold_of_find hfind)).trans ht
    have hcommit : Prog.Keeps (Stays (V := V) dest w₁) (commitDestination policy staged destination) :=
      keeps_stays_commitDestination hstaged hd.unreserved hdest
    refine (((keeps_stays_of_observes fun _ => observes_settle.ioAt).bind fun _ =>
      (keeps_stays_of_observes fun _ => observes_checkLeaf).bind fun _ => hcommit.mapError.bind fun _ =>
        keeps_stays_releaseFile.bind fun _ => fun w₄ h₄ => ?_) w₃ (ha₂.inside h₃.inside)).mono
      (fun _ _ h' => hend h') (fun _ _ h' => hend h') fun _ h' => hend h'
    rw [Prog.spec_modify]
    exact h₄.setDurable ht rfl
  · exact ⟨.refl h, .inl rfl⟩

/-! ## Operations -/

omit [DecidableEq K] in
theorem keeps_stays_openRegistry : Prog.Keeps (Stays (V := V) dest w₀) openRegistry := by
  unfold openRegistry
  refine Prog.keeps_get.bind fun w => ?_
  split
  · exact Prog.keeps_fail _
  · exact Prog.keeps_pure _

theorem keeps_stays_chooseBeneath {parent : Path} {destinationParent assetPrefix extension : Text} {childRandom : Nonce} :
    Prog.Keeps (Stays (V := V) dest w₀)
      (chooseBeneath root parent destinationParent assetPrefix extension childRandom random) := by
  have hpins : ∀ pins, Prog.Keeps (Stays (V := V) dest w₀) (pinParentDirectories parent pins) := fun _ =>
    keeps_stays_of_observes fun _ => observes_pinParentsFrom
  have hnonce : Prog.Keeps (Stays (V := V) dest w₀) (nonce random) := keeps_stays_of_observes fun _ => observes_nonce
  unfold chooseBeneath
  refine keeps_stays_prepareArea.bind fun _ => Prog.keeps_get.bind fun w => (hpins _).bind fun pinned => ?_
  obtain ⟨pins, found⟩ := pinned
  dsimp only
  have hmodify : Prog.Keeps (Stays (V := V) dest w₀) (modifyArea fun area => { area with parentPins := pins }) :=
    keeps_stays_modifyArea fun _ _ => id
  refine hmodify.bind fun _ => (Prog.keeps_ofExcept found).bind fun there => ?_
  split
  · exact Prog.keeps_fail _
  · exact hnonce.bind fun _ => Prog.keeps_pure _

theorem keeps_stays_chooseSibling {destination : Path} {childRandom : Nonce} :
    Prog.Keeps (Stays (V := V) dest w₀) (chooseSibling root destination childRandom random) := by
  have hcanonical : ∀ p, Prog.Keeps (Stays (V := V) dest w₀) (canonical p) := fun _ =>
    keeps_stays_of_observes fun _ => observes_canonical
  have hsettle : ∀ context p, Prog.Keeps (Stays (V := V) dest w₀) (ioAt context p settle) := fun _ _ =>
    keeps_stays_of_observes fun _ => observes_settle.ioAt
  unfold chooseSibling
  refine (hcanonical _).mapError.bind fun _ => (hcanonical _).mapError.bind fun parent => ?_
  split
  · exact Prog.keeps_fail _
  split
  · exact Prog.keeps_fail _
  refine (hsettle _ _).bind fun _ => (hsettle _ _).bind fun _ => ?_
  dsimp only
  split
  · exact Prog.keeps_fail _
  · exact Prog.keeps_fail _
  · exact keeps_stays_chooseBeneath

/-- **What an operation chooses a name from** moves nothing outside the namespace. -/
theorem keeps_stays_choose {operation : Operation} {x : Prog (Machine V) StagingError Chosen}
    (hx : choose root operation = some x) : Prog.Keeps (Stays (V := V) dest w₀) x := by
  have hpin : ∀ destination, Prog.Keeps (Stays (V := V) dest w₀) (pinDestination destination) := fun _ =>
    keeps_stays_of_observes fun _ => observes_pinDestination
  have hsnapshot : ∀ destination, Prog.Keeps (Stays (V := V) dest w₀) (destinationSnapshot destination) :=
    fun _ => keeps_stays_of_observes fun _ => observes_destinationSnapshot
  have hleaf : ∀ leaf destination, Prog.Keeps (Stays (V := V) dest w₀) (checkLeaf leaf destination) :=
    fun _ _ => keeps_stays_of_observes fun _ => observes_checkLeaf
  have hcanonical : ∀ p, Prog.Keeps (Stays (V := V) dest w₀) (canonical p) := fun _ =>
    keeps_stays_of_observes fun _ => observes_canonical
  have hnonce : ∀ random, Prog.Keeps (Stays (V := V) dest w₀) (nonce random) := fun _ =>
    keeps_stays_of_observes fun _ => observes_nonce
  cases operation with
  | stageFile destination childRandom random' =>
    cases hx
    exact keeps_stays_openRegistry.bind fun _ => keeps_stays_chooseSibling.bind fun _ => Prog.keeps_pure _
  | stageForPublication destination childRandom random' =>
    cases hx
    exact keeps_stays_openRegistry.bind fun _ => (hpin _).bind fun _ => (hsnapshot _).bind fun _ =>
      (hpin _).bind fun _ => (hleaf _ _).bind fun _ => keeps_stays_chooseSibling.bind fun _ => Prog.keeps_pure _
  | stageArchive childRandom random' =>
    cases hx
    have hentry : Prog.Keeps (Stays (V := V) dest w₀) (chooseEntry root childRandom random') :=
      (hcanonical _).mapError.bind fun _ => keeps_stays_prepareArea.bind fun _ => Prog.keeps_get.bind fun _ =>
        (hnonce _).bind fun _ => Prog.keeps_pure _
    exact keeps_stays_openRegistry.bind fun _ => hentry.bind fun _ => Prog.keeps_pure _
  | prepareRoot | publish | release | cleanup => cases hx

omit [DecidableEq K] in
theorem stays_pushDurable {receipt : Option Receipt} (h : Stays dest w₀ w) (hp : hasStagingComponent p = true) :
    Prog.Spec (pushDurable p receipt) w (fun _ w' => Stays dest w₀ w') (fun _ w' => Stays dest w₀ w')
      (Stays dest w₀) := by
  unfold pushDurable
  rw [Prog.spec_modify]
  refine ⟨⟨h.listed.artifacts, fun d hd => ?_⟩, fun i hi => ?_, h.cleaned, ?_⟩
  · rcases List.mem_append.mp hd with hd | hd
    · exact h.listed.durable d hd
    · rw [List.mem_singleton.mp hd]
      exact hp
  · obtain ⟨d, hd, hnone⟩ := h.used i hi
    exact ⟨d, by rw [List.getElem?_append_left (List.getElem?_eq_some_iff.mp hd).1, hd], hnone⟩
  · obtain ⟨since, hmoved⟩ := h.moved
    exact ⟨since, hmoved.step rfl (.refl _)⟩

/-- The destinations an operation may commit: its own, in any spelling. -/
def Operation.Publishes (V : Volume K) (operation : Operation) (q : Path) : Prop :=
  ∃ index destination policy, operation = .publish index destination policy ∧ q.map V.fold = destination.map V.fold

/-- **One operation**: outside the namespace it moves nothing but its own destination. -/
theorem stays_perform (operation : Operation) (hledger : Ledger False root runId used w) (h : Stays dest w₀ w)
    (hdest : ∀ q, operation.Publishes V q → dest q) :
    Prog.Spec (perform root operation) w (fun _ w' => Stays dest w₀ w') (fun _ w' => Stays dest w₀ w')
      (Stays dest w₀) := by
  have hstage : ∀ x : Prog (Machine V) StagingError Chosen, choose root operation = some x →
      Prog.Spec (perform root operation) w (fun _ w' => Stays dest w₀ w') (fun _ w' => Stays dest w₀ w')
        (Stays dest w₀) := by
    intro x hx
    obtain ⟨random, -, hspec⟩ := spec_choose hx hledger False.elim
    rw [perform_choose hx, Prog.spec_bind]
    refine ((keeps_stays_choose hx w h).and hspec).mono (fun chosen w₁ ⟨h₁, hchose⟩ => ?_)
      (fun _ _ h₁ => h₁.1) fun _ h₁ => h₁.1
    rw [Prog.spec_bind]
    exact (stays_createRegisteredFile h₁ hchose).mono (fun path w₂ h₂ => stays_pushDurable h₂.1 h₂.2)
      (fun _ _ h₂ => h₂) fun _ h₂ => h₂
  cases operation with
  | prepareRoot =>
    exact keeps_stays_openRegistry.bind (fun _ => keeps_stays_prepareRoot.bind fun _ => Prog.keeps_pure _) w h
  | stageFile => exact hstage _ rfl
  | stageForPublication => exact hstage _ rfl
  | stageArchive => exact hstage _ rfl
  | publish index destination policy =>
    have hpublishes : ∀ r, r.map V.fold = destination.map V.fold → dest r := fun r hr =>
      hdest r ⟨index, destination, policy, rfl, hr⟩
    exact (stays_publish h.listed hpublishes).mono (fun _ _ h' => h.trans h'.1) (fun _ _ h' => h.trans h'.1) fun _ h' => h.trans h'.1
  | release temporary => exact keeps_stays_releaseFile w h
  | cleanup =>
    unfold perform
    rw [Prog.spec_bind, Prog.spec_get]
    split_ifs
    · exact h
    · rw [Prog.spec_bind, Prog.spec_modify]
      have h₁ : Stays dest w₀ { w with cleaned := true } := by
        obtain ⟨since, hmoved⟩ := h.moved
        exact ⟨⟨h.listed.artifacts, h.listed.durable⟩, h.used, fun _ => rfl, since, hmoved.step rfl (.refl _)⟩
      exact keeps_stays_cleanupArtifacts.bind (fun _ => Prog.keeps_pure _) _ h₁

/-- The receipt an operation publishes through. -/
def Operation.receiptIndex : Operation → Option Nat
  | .publish index _ _ => some index
  | _ => none

/-- Nothing was committed, or it was through a receipt unused until then. -/
def Spent (operation : Operation) (w w' : Machine V) : Prop :=
  w'.committed = w.committed ∨ ∃ index, operation.receiptIndex = some index ∧ ¬Used w index ∧ Used w' index

omit [DecidableEq K] in
theorem Spent.of_idle {operation : Operation} (h : Stays (fun _ => False) w w') : Spent operation w w' := by
  obtain ⟨since, hmoved⟩ := h.moved
  have hsince : since = [] := List.eq_nil_iff_forall_not_mem.mpr fun q hq => (hmoved.stands q hq).1
  refine .inl ?_
  rw [hmoved.committed, hsince, List.append_nil]

/-- **A receipt commits once.** -/
theorem spent_perform (operation : Operation) (hledger : Ledger False root runId used w) (h : Listed w) :
    Prog.Spec (perform root operation) w (fun _ w' => Spent operation w w') (fun _ w' => Spent operation w w')
      (Spent operation w) := by
  have hidle : (∀ q, ¬operation.Publishes V q) → Prog.Spec (perform root operation) w
      (fun _ w' => Spent operation w w') (fun _ w' => Spent operation w w') (Spent operation w) := by
    intro hnone
    exact (stays_perform operation hledger (.refl h) hnone).mono (fun _ _ => .of_idle) (fun _ _ => .of_idle)
      fun _ => .of_idle
  cases operation with
  | publish index destination policy =>
    have hend : ∀ {w' : Machine V}, Stays (fun _ => True) w w' ∧
        (w'.committed = w.committed ∨ ¬Used w index ∧ Used w' index) → Spent (.publish index destination policy) w w' :=
      fun h' => h'.2.imp id fun hused => ⟨index, rfl, hused⟩
    exact (stays_publish h fun _ _ => trivial).mono (fun _ _ => hend) (fun _ _ => hend) fun _ => hend
  | prepareRoot | stageFile | stageForPublication | stageArchive | release | cleanup =>
    refine hidle ?_
    rintro q ⟨_, _, _, heq, -⟩
    cases heq

/-! ## Runs -/

/-- **A whole run**, wherever it ends. -/
theorem stays_run (operations : List Operation) (hledger : Ledger False root runId used w) (hlisted : Listed w) :
    Prog.Spec (run root operations) w
      (fun _ w' => Stays (fun q => ∃ operation ∈ operations, operation.Publishes V q) w w') (fun _ _ => False)
      (Stays (fun q => ∃ operation ∈ operations, operation.Publishes V q) w) := by
  set dest : Path → Prop := fun q => ∃ operation ∈ operations, operation.Publishes V q with hdest
  unfold run
  have hloop := Prog.Spec.forEach (E := fun (_ : StagingError) (_ : Machine V) => False) (C := Stays dest w)
    (I := fun before after w' => before ++ after = operations ∧ (∃ used, Ledger False root runId used w') ∧
      Stays dest w w')
    (f := fun operation => do
      let _ ← (Prog.attempt (perform root operation) : Prog (Machine V) StagingError _))
    (fun before operation after w₁ ⟨he, ⟨used, hl₁⟩, h₁⟩ => ?_) [] operations (s := w)
    ⟨rfl, ⟨used, hledger⟩, .refl hlisted⟩
  · exact hloop.mono (fun _ _ h' => h'.2.2) (fun _ _ h' => h') fun _ h' => h'
  · have hmem : operation ∈ operations := by rw [← he]; simp
    have hnext : before ++ [operation] ++ after = operations := by
      rw [List.append_assoc]
      exact he
    rw [Prog.spec_bind, Prog.spec_attempt]
    exact ((spec_perform operation hl₁ False.elim False.elim).and
      (stays_perform operation hl₁ h₁ fun q hq => ⟨operation, hmem, hq⟩)).mono
      (fun _ _ h₂ => ⟨hnext, ⟨_, h₂.1⟩, h₂.2⟩) (fun _ _ h₂ => ⟨hnext, ⟨_, h₂.1⟩, h₂.2⟩) fun _ h₂ => h₂.2

/-- **Staging keeps to its names.** Wherever a run ends, on any root and whatever is refused, the entries
outside the reserved namespace are those the root held, but for the destinations committed; a file stands
at each of these, and an operation published it there. No later recovery changes an entry outside. -/
theorem staging_outside (root runId : Text) (disk : Disk V) (tape : List Fate) (operations : List Operation) :
    (∀ q ∈ (after root runId disk tape operations).committed,
      (∃ operation ∈ operations, operation.Publishes V q) ∧ hasStagingComponent q = false ∧
        Stands (after root runId disk tape operations).disk q) ∧
    (∀ p n, hasStagingComponent p = false →
      (∀ q ∈ (after root runId disk tape operations).committed, q.map V.fold ≠ p.map V.fold) →
      ((after root runId disk tape operations).disk.Has p n ↔ disk.Has p n)) ∧
    ∀ (stop : CancellationToken) (tape' : List Fate) (runId' : Text) (o : Outcome Halt Unit) (w' : Machine V),
      recover stop root (Machine.start (after root runId disk tape operations).disk tape' runId') = (o, w') →
        SameOutside (after root runId disk tape operations).disk w'.disk := by
  have hlisted : Listed (Machine.start disk tape runId) := ⟨nofun, nofun⟩
  have hstays : Stays (fun q => ∃ operation ∈ operations, operation.Publishes V q) (Machine.start disk tape runId)
      (after root runId disk tape operations) :=
    ((stays_run operations (@ledger_start _ V False root runId disk tape) hlisted).mono (fun _ _ h => h) (fun _ _ h => h.elim)
      fun _ h => h).ends
  obtain ⟨since, hcommitted, hstands, hdisk⟩ := hstays.moved
  have hsince : (after root runId disk tape operations).committed = since := hcommitted
  rw [hsince]
  refine ⟨hstands, hdisk, fun stop tape' runId' o w' hrecover => ?_⟩
  have hgone := gone_of_recover hrecover
  refine outside_of_gone hgone.1 fun p n hp hnot => ?_
  obtain ⟨manifest, hread, howned⟩ := hgone.2 p n hp hnot
  exact howned.reserved hread

end Cao
