import Cao.Staging.RecoverExact
import Cao.Staging.Scope
import Cao.Staging.Lists

/-!
# The ownership ledger

What the manifest on disk owes to the entries the run has made, and how the steps of the scope change
the two.

* `Control`, `Named`, `Covered`, `OnDisk`: a made entry is a control file or named by a list, and the
  list a manifest on disk holds;
* `Added`, **`spec_writeNewFile`**, **`renameEntry_ok`**: what a creation and a rename leave;
* `Quiet`, `Kept`: steps that touch control files only;
* **`Ledger`**: the invariant; `Ledger.quiet`, `Ledger.created`, `Ledger.removed`, `Ledger.moved`: its
  steps.
-/

namespace Cao

variable {K : Type} {V : Volume K} {p q : Path} {n : Node Leaf} {w w' : Machine V}
variable {l : List Artifact} {a : Artifact}

/-! ## Control files and names -/

/-- The reserved directory and the control files of the protocol. -/
def controls : List Path := [staging, controlPath ownerLock, controlPath manifestName,
  controlPath manifestScratch, controlPath conflictControl]

/-- A control file, in any spelling the volume takes for it. -/
def Control (V : Volume K) (p : Path) : Prop := ∃ c ∈ controls, p.map V.fold = c.map V.fold

/-- An entry a list names. -/
def Named (V : Volume K) (l : List Artifact) (p : Path) : Prop :=
  ∃ a ∈ l, p.map V.fold = (artifactPath a).map V.fold

/-- Something stands at `p`. -/
def Present (w : Machine V) (p : Path) : Prop := ∃ n, w.disk.Has p n

/-- Every entry the run made that is present is a control file or named by `l`. -/
def Covered (w : Machine V) (l : List Artifact) : Prop :=
  ∀ p ∈ w.made, Present w p → Control V p ∨ Named V l p

/-- The manifest on disk is the run's snapshot of `l`. -/
def OnDisk (root : Text) (w : Machine V) (child : Text) (l : List Artifact) : Prop :=
  ∃ q, w.disk.Has q (.leaf (.file (manifestBytes root w.scope.runId child l) 1)) ∧
    q.map V.fold = (controlPath manifestName).map V.fold

/-- Names the volume takes for one path are both reserved or both not. -/
theorem hasStagingComponent_fold (h : p.map V.fold = q.map V.fold) :
    hasStagingComponent p = hasStagingComponent q := by
  induction p generalizing q with
  | nil => rw [List.map_eq_nil_iff.mp h.symm]
  | cons a p ih =>
    cases q with
    | nil => cases h
    | cons b q =>
      obtain ⟨hab, hpq⟩ := List.cons.inj h
      have := ih hpq
      unfold hasStagingComponent at this ⊢
      rw [List.any_cons, List.any_cons, this, V.staging a b hab]

theorem isStagingName_staging : isStagingName (OsStr.ofText stagingDirectory) = true := by decide

theorem controls_head {c : Path} (hc : c ∈ controls) :
    ∃ rest, c = OsStr.ofText stagingDirectory :: rest := by
  simp only [controls, List.mem_cons, List.not_mem_nil, or_false] at hc
  rcases hc with rfl | rfl | rfl | rfl | rfl <;> exact ⟨_, rfl⟩

theorem Control.reserved (h : Control V p) : hasStagingComponent p = true := by
  obtain ⟨c, hc, he⟩ := h
  rw [hasStagingComponent_fold he]
  obtain ⟨rest, rfl⟩ := controls_head hc
  simp [hasStagingComponent, isStagingName_staging]

theorem control_of_mem {c : Path} (h : c ∈ controls) : Control V c := ⟨c, h, rfl⟩

theorem Control.congr (h : Control V q) (he : p.map V.fold = q.map V.fold) : Control V p := by
  obtain ⟨c, hc, hq⟩ := h
  exact ⟨c, hc, he.trans hq⟩

/-- A path whose names are as long as those of no control file is none. -/
theorem not_control_of_length (h : ∀ c ∈ controls, p.map List.length ≠ c.map List.length) :
    ¬ Control V p := by
  rintro ⟨c, hc, he⟩
  refine h c hc ?_
  have hlen : ∀ {p q : Path}, p.map V.fold = q.map V.fold → p.map List.length = q.map List.length := by
    intro p
    induction p with
    | nil =>
      intro q h
      rw [List.map_eq_nil_iff.mp h.symm]
    | cons a p ih =>
      intro q h
      cases q with
      | nil => cases h
      | cons b q =>
        obtain ⟨hab, hpq⟩ := List.cons.inj h
        rw [List.map_cons, List.map_cons, V.length a b hab, ih hpq]
  exact hlen he

theorem controls_length : ∀ c ∈ controls, c.map List.length = [12] ∨
    ∃ k ≤ 23, c.map List.length = [12, k] := by
  have hall : ∀ c ∈ controls, c.map List.length ∈ [[12], [12, 10], [12, 18], [12, 23]] := by
    decide +kernel
  intro c hc
  have := hall c hc
  simp only [List.mem_cons, List.not_mem_nil, or_false] at this
  rcases this with h | h | h | h
  · exact .inl h
  · exact .inr ⟨_, by decide, h⟩
  · exact .inr ⟨_, by decide, h⟩
  · exact .inr ⟨_, by decide, h⟩

variable {strict : Prop} {root runId child : Text} {used used' : List Nonce} {random : Nonce}

/-- A reserved name stays one under a suffix. -/
theorem isStagingName_append {name : Text} (h : isStagingName (OsStr.ofText name) = true) (suffix : Text) :
    isStagingName (OsStr.ofText (name ++ suffix)) = true := by
  unfold isStagingName at h ⊢
  rw [OsStr.lossy_ofText, List.isPrefixOf_iff_prefix] at h ⊢
  rw [List.map_append]
  exact h.trans (List.prefix_append _ _)

/-- The path of a carried name. -/
theorem Carries.shape (h : Carries strict used runId child random a) (hc : IsRunChild runId child) :
    artifactPath a = stagingPath [child, archiveEntryName random] ∨
      ∃ parents extension assetPrefix, stagingPrefix extension = some assetPrefix ∧
        artifactPath a = (parents ++ [siblingName runId assetPrefix extension random]).map OsStr.ofText ∧
        ∀ part ∈ parents, isStagingName (OsStr.ofText part) = false := by
  rcases h.name with ⟨hr, hsplit⟩ | ⟨hr, parents, extension, assetPrefix, hpre, hsplit, hparents⟩
  · left
    have hne : ∀ part ∈ [child, archiveEntryName random], decide (part ≠ []) = true := by
      intro part hp
      simp only [List.mem_cons, List.not_mem_nil, or_false] at hp
      rcases hp with rfl | rfl
      · have := hc.length
        refine decide_eq_true fun he => ?_
        rw [he] at this
        cases this
      · exact decide_eq_true fun he => by cases he
    unfold artifactPath components
    rw [hr, hsplit, List.filter_eq_self.mpr hne]
    rfl
  · right
    have hfile : siblingName runId assetPrefix extension random ≠ [] := by
      simp [siblingName]
    refine ⟨parents, extension, assetPrefix, hpre, ?_, fun part hp => (hparents part hp).2.1⟩
    have hparts : ∀ part ∈ parents ++ [siblingName runId assetPrefix extension random],
        decide (part ≠ []) = true := by
      intro part hp
      rw [List.mem_append, List.mem_singleton] at hp
      rcases hp with hp | rfl
      · exact decide_eq_true (hparents part hp).1
      · exact decide_eq_true hfile
    unfold artifactPath components
    rw [hr, hsplit, List.filter_eq_self.mpr hparts]
    rfl

/-- Where a carried name stands. -/
theorem Carries.path (h : Carries strict used runId child random a) (hc : IsRunChild runId child) :
    artifactPath a = stagingPath [child, archiveEntryName random] ∨
      ∃ parents file, artifactPath a = (parents ++ [file]).map OsStr.ofText ∧ 12 < file.length ∧
        isStagingName (OsStr.ofText file) = true ∧
        ∀ part ∈ parents, isStagingName (OsStr.ofText part) = false := by
  rcases h.shape hc with hp | ⟨parents, extension, assetPrefix, hpre, hp, hparents⟩
  · exact .inl hp
  · right
    obtain ⟨-, -, hstaging, -⟩ := stagingPrefix_chars hpre
    have hlong : 12 < assetPrefix.length := by
      have hall : ∀ e ∈ [(".dds".toList, ".cao-staging-texture-".toList),
          (".hkx".toList, ".cao-staging-animation-".toList),
          (".nif".toList, ".cao-staging-mesh-".toList),
          (".btr".toList, ".cao-staging-mesh-".toList),
          (".bto".toList, ".cao-staging-mesh-".toList)], 12 < e.2.length := by decide
      exact hall _ (stagingPrefix_eq_some hpre)
    refine ⟨parents, siblingName runId assetPrefix extension random, hp, ?_, ?_, hparents⟩
    · simp only [siblingName, List.length_append]
      omega
    · have := isStagingName_append hstaging (runId ++ ['-'] ++ nonceText random ++ extension)
      unfold siblingName
      simp only [List.append_assoc] at this ⊢
      exact this

/-- **The entries of a run's list are reserved names, and no control files.** -/
theorem RunList.entry (h : RunList strict runId child used l) (ha : a ∈ l) :
    hasStagingComponent (artifactPath a) = true ∧
      ∀ p, p.map V.fold = (artifactPath a).map V.fold → ¬ Control V p := by
  obtain ⟨rest, rfl, hrest⟩ := h.files
  have hlong := h.named.length
  have hcongr : ∀ {p q : Path}, p.map V.fold = q.map V.fold → ¬ Control V q → ¬ Control V p :=
    fun he hq hp => hq (hp.congr he.symm)
  have hunder : ∀ parts, hasStagingComponent (stagingPath (child :: parts)) = true ∧
      ¬ Control V (stagingPath (child :: parts)) := by
    intro parts
    refine ⟨by simp [stagingPath, hasStagingComponent, isStagingName_staging], ?_⟩
    refine not_control_of_length fun c hc he => ?_
    rcases controls_length c hc with hk | ⟨k, hk, hk'⟩
    · rw [hk] at he
      cases he
    · rw [hk'] at he
      have hchild := (List.cons.inj (List.cons.inj he).2).1
      simp only [OsStr.ofText, List.length_map] at hchild
      omega
  have hpath : artifactPath ⟨child, true, false⟩ = stagingPath [child] := by
    rw [artifactPath_control (safe_child h.named) rfl, List.splitOn_eq_singleton h.named.noSlash]
  rw [List.mem_cons] at ha
  rcases ha with rfl | ha
  · rw [hpath]
    exact ⟨(hunder []).1, fun p hp => hcongr hp (hunder []).2⟩
  · obtain ⟨random, hcarry⟩ := hrest a ha
    rcases hcarry.path h.named with hp | ⟨parents, file, hp, hfile, hstaging, hparents⟩
    · rw [hp]
      exact ⟨(hunder _).1, fun p hp => hcongr hp (hunder _).2⟩
    · rw [hp]
      refine ⟨by simp [hasStagingComponent, hstaging], fun p hp => hcongr hp ?_⟩
      rintro ⟨c, hc, he⟩
      cases parents with
      | nil =>
        refine not_control_of_length (V := V) (p := [OsStr.ofText file]) (fun c hc he => ?_) ⟨c, hc, he⟩
        rcases controls_length c hc with hk | ⟨k, -, hk⟩
        · rw [hk] at he
          have := (List.cons.inj he).1
          simp only [OsStr.ofText, List.length_map] at this
          omega
        · rw [hk] at he
          cases (List.cons.inj he).2
      | cons part parents =>
        -- a control file's first component is reserved, a sibling's parents are not
        obtain ⟨rest, rfl⟩ := controls_head hc
        have hfold := V.staging _ _ (List.cons.inj he).1
        rw [hparents part List.mem_cons_self, isStagingName_staging] at hfold
        cases hfold

/-! ## What the steps leave -/

/-- `n` was created as `q`, which `p` names, and recorded. -/
structure Added (p q : Path) (n : Node Leaf) (w w' : Machine V) : Prop where
  frame : w' = { w with disk := w'.disk, tape := w'.tape, made := w.made ++ [q] }
  fold : q.map V.fold = p.map V.fold
  fresh : ∀ m, ¬ w.disk.Has q m
  disk : ∀ r m, w'.disk.Has r m ↔ w.disk.Has r m ∨ r = q ∧ m = n

theorem Added.same {w₁ w₂ : Machine V} (h : Added p q n w w₁) (hs : Same w₁ w₂) : Added p q n w w₂ := by
  refine ⟨?_, h.fold, h.fresh, fun r m => by rw [hs.disk]; exact h.disk r m⟩
  have hf := h.frame
  unfold Same at hs
  rw [hs, hf]

variable [DecidableEq K]

theorem spec_makeEntry : Prog.Spec (makeEntry n p) w (fun q w' => Added p q n w w')
    (fun _ w' => Same w w') (Same w) := by
  unfold Prog.Spec makeEntry step createEntry
  have hcreate : ∀ {tape : List Fate} {q : Path} {d : Disk V}, w.disk.create p n = some (q, d) →
      Added p q n w { w with disk := d, tape := tape, made := w.made ++ [q] } := by
    intro tape q d hc
    obtain ⟨hhas, -, -, hfold, hnone, -⟩ := PathTree.create_eq_some hc
    refine ⟨rfl, hfold, fun m hm => ?_, hhas⟩
    have hp : p ≠ [] := by
      rintro rfl
      cases hnone
    exact (PathTree.find_eq_none hp).mp hnone q m hm hfold
  rcases htape : w.tape with _ | ⟨_ | _ | _, tape⟩ <;> simp only
  · cases hc : w.disk.create p n with
    | some e => exact hcreate hc
    | none => rfl
  · cases hc : w.disk.create p n with
    | some e => exact hcreate hc
    | none => rfl
  · rfl
  · rfl

omit [DecidableEq K] in
/-- A write to the file just created. -/
theorem Added.written {data bytes : Bytes} {k : Nat} {tape : List Fate} {w₁ : Machine V}
    (h : Added p q (.leaf (.file data 1)) w w₁) :
    Added p q (.leaf (.file (bytes.take k) 1)) w
      { w₁ with tape := tape, disk := w₁.disk.update q (.file (bytes.take k) 1) } := by
  refine ⟨?_, h.fold, h.fresh, fun r m => ?_⟩
  · have hf := h.frame
    rw [hf]
  · cases m with
    | dir =>
      rw [show PathTree.Has _ r .dir ↔ w₁.disk.Has r .dir from PathTree.has_update_dir, h.disk]
      simp
    | leaf b =>
      rw [show PathTree.Has _ r (.leaf b) ↔ _ from PathTree.has_update]
      constructor
      · rintro ⟨b', hb, rfl⟩
        rcases (h.disk r _).mp hb with hb | ⟨rfl, -⟩
        · refine .inl ?_
          rw [if_neg fun he => h.fresh _ (he ▸ hb)]
          exact hb
        · exact .inr ⟨rfl, by rw [if_pos rfl]⟩
      · rintro (hb | ⟨rfl, he⟩)
        · exact ⟨b, (h.disk r _).mpr (.inl hb), by rw [if_neg fun he => h.fresh _ (he ▸ hb)]⟩
        · exact ⟨_, (h.disk r _).mpr (.inr ⟨rfl, rfl⟩), by rw [if_pos rfl]; exact Node.leaf.inj he⟩

/-- A creation that may not have finished: nothing, or a file of some bytes. -/
def Begun (p : Path) (w w' : Machine V) : Prop :=
  Same w w' ∨ ∃ q data, Added p q (.leaf (.file data 1)) w w'

/-- **A new file**: with all its bytes when it succeeds, not there after a collision. -/
theorem spec_writeNewFile {bytes : Bytes} : Prog.Spec (writeNewFile p bytes) w
    (fun q w' => Added p q (.leaf (.file bytes 1)) w w')
    (fun e w' => Begun p w w' ∧ ∀ t, e = .collision t → Same w w') (Begun p w) := by
  unfold writeNewFile
  rw [Prog.spec_bind, Prog.spec_attempt]
  refine spec_makeEntry.mono (fun q w₁ h₁ => ?_) (fun e w₁ h₁ => ?_) fun _ h => .inl h
  · have hwrite : Prog.Spec (writeAll q bytes) w₁ (fun _ w' => Added p q (.leaf (.file bytes 1)) w w')
        (fun _ w' => ∃ data, Added p q (.leaf (.file data 1)) w w')
        fun w' => ∃ data, Added p q (.leaf (.file data 1)) w w' := by
      unfold Prog.Spec writeAll
      have hall : ∀ tape, Added p q (.leaf (.file bytes 1)) w
          { w₁ with tape, disk := w₁.disk.update q (.file (bytes.take bytes.length) 1) } := by
        intro tape
        have hw : Added p q (.leaf (.file (bytes.take bytes.length) 1)) w
            { w₁ with tape, disk := w₁.disk.update q (.file (bytes.take bytes.length) 1) } := h₁.written
        rw [List.take_length] at hw ⊢
        exact hw
      rcases w₁.tape with _ | ⟨_ | k | k, tape⟩ <;> simp only
      · exact hall _
      · exact hall _
      · exact ⟨_, h₁.written⟩
      · exact ⟨_, h₁.written⟩
    dsimp only
    rw [Prog.spec_bind]
    refine Prog.spec_mapError.mpr (hwrite.mono (fun _ w₂ h₂ => ?_)
      (fun e w₂ ⟨data, h₂⟩ => ⟨.inr ⟨q, data, h₂⟩, nofun⟩) fun w₂ ⟨data, h₂⟩ => .inr ⟨q, data, h₂⟩)
    rw [Prog.spec_bind]
    refine Prog.spec_mapError.mpr ((observes_settle w₂ rfl).mono (fun _ w₃ h₃ => ?_)
      (fun e w₃ h₃ => ⟨.inr ⟨q, bytes, h₂.same h₃⟩, nofun⟩) fun w₃ h₃ => .inr ⟨q, bytes, h₂.same h₃⟩)
    rw [Prog.spec_pure]
    exact h₂.same h₃.1
  · cases e with
    | alreadyExists => exact ⟨.inl h₁, fun _ _ => h₁⟩
    | _ => exact ⟨.inl h₁, nofun⟩

/-- **A rename** takes the file `p` names to `q`, in place of what stood there. -/
theorem renameEntry_ok {mode : RenameMode} {d d' : Disk V} {r : Path}
    (h : renameEntry mode p q d = .ok (r, d')) :
    ∃ s b, d.find p = some (s, .leaf b) ∧ r.map V.fold = q.map V.fold ∧
      ∀ t m, d'.Has t m ↔ (d.Has t m ∧ t ≠ s ∧ t.map V.fold ≠ q.map V.fold) ∨ t = r ∧ m = .leaf b := by
  unfold renameEntry at h
  rcases hp : d.find p with _ | ⟨s, _ | b⟩ <;> rw [hp] at h
  · cases h
  · cases h
  have hplace : ∀ {d₀ : Disk V}, ((d₀.erase s).bind fun disk => disk.create q (.leaf b)) = some (r, d') →
      r.map V.fold = q.map V.fold ∧ q ≠ [] ∧ ∀ t m, d'.Has t m ↔ (d₀.Has t m ∧ t ≠ s) ∨ t = r ∧ m = .leaf b := by
    intro d₀ hplaced
    obtain ⟨d₁, he, hc⟩ := Option.bind_eq_some_iff.mp hplaced
    obtain ⟨hhas, -, -, hfold, hnone, -⟩ := PathTree.create_eq_some hc
    refine ⟨hfold, ?_, fun t m => by rw [hhas, PathTree.has_erase he]⟩
    rintro rfl
    cases hnone
  refine ⟨s, b, rfl, ?_⟩
  rcases hq : d.find q with _ | ⟨r₀, _ | b₀⟩
  · rw [hq] at h
    dsimp only at h
    split at h
    swap
    · cases h
    next e hplaced =>
    cases h
    obtain ⟨hfold, hne, hhas⟩ := hplace hplaced
    refine ⟨hfold, fun t m => ?_⟩
    rw [hhas]
    constructor
    · rintro (⟨ht, hts⟩ | ht)
      · exact .inl ⟨ht, hts, (PathTree.find_eq_none hne).mp hq t m ht⟩
      · exact .inr ht
    · rintro (⟨ht, hts, -⟩ | ht)
      · exact .inl ⟨ht, hts⟩
      · exact .inr ht
  · rw [hq] at h
    cases h
  · cases mode with
    | noReplace =>
      rw [hq] at h
      cases h
    | replace =>
      rw [hq] at h
      dsimp only at h
      cases he : d.erase r₀ with
      | none => rw [he] at h; cases h
      | some d₁ =>
        rw [he] at h
        dsimp only at h
        split at h
        swap
        · cases h
        next e hplaced =>
        cases h
        obtain ⟨hfold, hne, hhas⟩ := hplace hplaced
        have hr₀ := (PathTree.find_eq_some hne).mp hq
        refine ⟨hfold, fun t m => ?_⟩
        rw [hhas, PathTree.has_erase he]
        -- what the path names is the one entry with its fold
        constructor
        · rintro (⟨⟨ht, hr⟩, hts⟩ | ht)
          · exact .inl ⟨ht, hts, fun hf => hr (ht.unique hr₀.1 (hf.trans hr₀.2.symm)).1⟩
          · exact .inr ht
        · rintro (⟨ht, hts, hf⟩ | ht)
          · exact .inl ⟨⟨ht, fun hr => hf (hr ▸ hr₀.2)⟩, hts⟩
          · exact .inr ht

/-! ## Quiet steps -/

/-- Only control files came or changed; the run's memory did not. -/
structure Quiet (w w' : Machine V) : Prop where
  frame : w' = { w with disk := w'.disk, tape := w'.tape, made := w'.made }
  made : ∀ p ∈ w'.made, p ∈ w.made ∨ Control V p
  disk : ∀ p n, w'.disk.Has p n → Present w p ∨ Control V p

/-- A quiet step that leaves the manifest. -/
structure Kept (w w' : Machine V) : Prop extends Quiet w w' where
  manifest : ∀ q b, q.map V.fold = (controlPath manifestName).map V.fold →
    w.disk.Has q (.leaf b) → w'.disk.Has q (.leaf b)

omit [DecidableEq K]

theorem Same.kept (h : Same w w') : Kept w w' := by
  refine ⟨⟨?_, fun p hp => ?_, fun p n hp => ?_⟩, fun q b _ hb => ?_⟩
  · rw [h]
  · rw [h] at hp
    exact .inl hp
  · rw [h.disk] at hp
    exact .inl ⟨n, hp⟩
  · rw [h.disk]
    exact hb

theorem Added.kept (h : Added p q n w w') (hc : Control V p) : Kept w w' := by
  have hq : Control V q := hc.congr h.fold
  have hf := h.frame
  refine ⟨⟨?_, fun r hr => ?_, fun r m hr => ?_⟩, fun r b _ hb => (h.disk r _).mpr (.inl hb)⟩
  · rw [hf]
  · rw [hf] at hr
    rcases List.mem_append.mp hr with hr | hr
    · exact .inl hr
    · rw [List.mem_singleton.mp hr]
      exact .inr hq
  · rcases (h.disk r m).mp hr with hr | ⟨rfl, -⟩
    · exact .inl ⟨m, hr⟩
    · exact .inr hq

theorem Begun.kept (h : Begun p w w') (hc : Control V p) : Kept w w' := by
  rcases h with h | ⟨q, data, h⟩
  · exact h.kept
  · exact h.kept hc

theorem Quiet.trans {w₁ w₂ w₃ : Machine V} (h : Quiet w₁ w₂) (h' : Quiet w₂ w₃) : Quiet w₁ w₃ := by
  refine ⟨?_, fun p hp => ?_, fun p n hp => ?_⟩
  · have hf := h.frame
    have hf' := h'.frame
    rw [hf', hf]
  · exact (h'.made p hp).elim (h.made p) .inr
  · rcases h'.disk p n hp with ⟨m, hm⟩ | hc
    · exact h.disk p m hm
    · exact .inr hc

theorem Quiet.scope (h : Quiet w w') : w'.scope = w.scope := by rw [h.frame]

/-- **A quiet step covers what was covered.** -/
theorem Covered.quiet (h : Covered w l) (hq : Quiet w w') : Covered w' l := by
  rintro p hp ⟨n, hn⟩
  rcases hq.made p hp with hm | hc
  · rcases hq.disk p n hn with hpresent | hc
    · exact h p hm hpresent
    · exact .inl hc
  · exact .inl hc

theorem OnDisk.kept (h : OnDisk root w child l) (hk : Kept w w') : OnDisk root w' child l := by
  obtain ⟨q, hq, hf⟩ := h
  rw [← hk.scope] at hq
  exact ⟨q, hk.manifest q _ hf hq, hf⟩

/-! ## The invariant -/

/-- The registered list, empty before the run child is published. -/
def registered (w : Machine V) : List Artifact := (w.scope.area.map Area.artifacts).getD []

/-- The manifest on disk is a list of the run that covers what it has made. -/
def Backed (strict : Prop) (root : Text) (used : List Nonce) (w : Machine V) : Prop :=
  ∃ child l, OnDisk root w child l ∧ RunList strict w.scope.runId child used l ∧ Covered w l

/-- The manifest on disk covers what the run has made, or the run has made control files only. -/
def Safe (strict : Prop) (root : Text) (used : List Nonce) (w : Machine V) : Prop :=
  Covered w [] ∧ w.durable = [] ∧ w.committed = [] ∨ Backed strict root used w

/-- **The ledger of a run**: the invariant of every step of the scope. -/
structure Ledger (strict : Prop) (root runId : Text) (used : List Nonce) (w : Machine V) : Prop where
  run : w.scope.runId = runId
  requests : ∀ r ∈ w.requests, RunList strict runId r.1 used r.2
  made : ∀ p ∈ w.made, hasStagingComponent p = true
  committed : ∀ p ∈ w.committed, hasStagingComponent p = false
  durable : ∀ d ∈ w.durable, ¬ Control V d.path
  listed : ∀ area, w.scope.area = some area →
    area.child = [] ∧ area.artifacts = [] ∨ RunList strict runId area.child used area.artifacts
  covered : Covered w (registered w)
  unclaimed : w.scope.area = none → w.durable = [] ∧ w.committed = []
  safe : Safe strict root used w

variable {runId : Text}

theorem Ledger.mono (h : Ledger strict root runId used w) (hu : ∀ n ∈ used, n ∈ used') :
    Ledger strict root runId used' w := by
  refine { h with
    requests := fun r hr => (h.requests r hr).mono hu
    listed := fun area ha => (h.listed area ha).imp id fun hl => hl.mono hu
    safe := h.safe.imp id ?_ }
  rintro ⟨child, l, hd, hl, hc⟩
  exact ⟨child, l, hd, hl.mono hu, hc⟩

/-- A quiet step keeps the ledger, given what the manifest then covers. -/
theorem Ledger.quiet (h : Ledger strict root runId used w) (hq : Quiet w w')
    (hs : Safe strict root used w') : Ledger strict root runId used w' := by
  have hf := hq.frame
  have hregistered : registered w' = registered w := by unfold registered; rw [hf]
  refine ⟨?_, ?_, fun p hp => ?_, ?_, ?_, ?_, hregistered ▸ h.covered.quiet hq, ?_, hs⟩
  · rw [hf]; exact h.run
  · rw [hf]; exact h.requests
  · exact (hq.made p hp).elim (h.made p) Control.reserved
  · rw [hf]; exact h.committed
  · rw [hf]; exact h.durable
  · rw [hf]; exact h.listed
  · rw [hf]; exact h.unclaimed

theorem Ledger.kept (h : Ledger strict root runId used w) (hk : Kept w w') :
    Ledger strict root runId used w' := by
  have hf := hk.frame
  refine h.quiet hk.toQuiet ?_
  rcases h.safe with ⟨hc, hrest⟩ | ⟨child, l, hd, hl, hc⟩
  · refine .inl ⟨hc.quiet hk.toQuiet, ?_⟩
    rw [hf]
    exact hrest
  · exact .inr ⟨child, l, hd.kept hk, hk.scope ▸ hl, hc.quiet hk.toQuiet⟩

theorem Ledger.same (h : Ledger strict root runId used w) (hs : Same w w') :
    Ledger strict root runId used w' := h.kept hs.kept

/-- **The creation of a registered entry**, once the manifest names it. -/
theorem Ledger.created (h : Ledger strict root runId used w) (ha : Added p q n w w')
    (hd : OnDisk root w child l) (hl : RunList strict runId child used l)
    (hr : registered w = l) (hn : Named V l p) :
    Ledger strict root runId used w' ∧ Backed strict root used w' := by
  have hf := ha.frame
  have hnamed : Named V l q := hn.imp fun b hb => ⟨hb.1, ha.fold.trans hb.2⟩
  have hregistered : registered w' = registered w := by unfold registered; rw [hf]
  have hmade : ∀ r ∈ w'.made, r ∈ w.made ∨ r = q := by
    intro r hr
    rw [hf] at hr
    simpa using hr
  have hcovered : Covered w' l := by
    rintro r hr' ⟨m, hm⟩
    rcases hmade r hr' with hr' | rfl
    · rcases (ha.disk r m).mp hm with hm | ⟨rfl, -⟩
      · exact (hr ▸ h.covered) r hr' ⟨m, hm⟩
      · exact .inr hnamed
    · exact .inr hnamed
  have hscope : w'.scope = w.scope := by rw [hf]
  have hbacked : Backed strict root used w' := by
    obtain ⟨m, hm, hfold⟩ := hd
    refine ⟨child, l, ⟨m, (ha.disk _ _).mpr (.inl (hscope ▸ hm)), hfold⟩, ?_, hcovered⟩
    rw [hscope, h.run]
    exact hl
  refine ⟨⟨?_, ?_, fun r hr' => ?_, ?_, ?_, ?_, ?_, ?_, .inr hbacked⟩, hbacked⟩
  · rw [hf]; exact h.run
  · rw [hf]; exact h.requests
  · rcases hmade r hr' with hr' | rfl
    · exact h.made r hr'
    · obtain ⟨b, hb, hfold⟩ := hnamed
      rw [hasStagingComponent_fold hfold]
      exact (hl.entry (V := V) hb).1
  · rw [hf]; exact h.committed
  · rw [hf]; exact h.durable
  · rw [hf]; exact h.listed
  · rw [hregistered, hr]; exact hcovered
  · rw [hf]; exact h.unclaimed

/-- **The removal of entries that are no manifest.** -/
theorem Ledger.removed (h : Ledger strict root runId used w) (hs : Shrunk w w')
    (hd : ∀ r m, w'.disk.Has r m → w.disk.Has r m)
    (hm : ∀ q b, q.map V.fold = (controlPath manifestName).map V.fold →
      w.disk.Has q (.leaf b) → w'.disk.Has q (.leaf b)) : Ledger strict root runId used w' := by
  have hf : w' = { w with disk := w'.disk, tape := w'.tape } := hs
  have hk : Kept w w' := by
    refine ⟨⟨?_, fun p hp => ?_, fun p n hp => .inl ⟨n, hd p n hp⟩⟩, hm⟩
    · rw [hf]
    · rw [hf] at hp
      exact .inl hp
  exact h.kept hk

/-- **A commit**: a file of the run moved to a destination outside the reserved namespace. -/
theorem Ledger.moved (h : Ledger strict root runId used w) {s r : Path} {b : Leaf}
    (hf : w' = { w with disk := w'.disk, tape := w'.tape, committed := w.committed ++ [r] })
    (hdurable : w.durable ≠ []) (hs : ¬ Control V s) (hr : hasStagingComponent r = false)
    (hd : ∀ t m, w'.disk.Has t m ↔
      (w.disk.Has t m ∧ t ≠ s ∧ t.map V.fold ≠ r.map V.fold) ∨ t = r ∧ m = .leaf b) :
    Ledger strict root runId used w' := by
  have hmade : w'.made = w.made := by rw [hf]
  have hscope : w'.scope = w.scope := by rw [hf]
  have hcovered : ∀ {l}, Covered w l → Covered w' l := by
    rintro l hl p hp ⟨m, hm⟩
    rw [hmade] at hp
    rcases (hd p m).mp hm with ⟨hm, -⟩ | ⟨rfl, -⟩
    · exact hl p hp ⟨m, hm⟩
    · -- a destination is nothing the run made
      rw [h.made p hp] at hr
      cases hr
  have hregistered : registered w' = registered w := by unfold registered; rw [hscope]
  refine ⟨?_, ?_, ?_, fun p hp => ?_, ?_, ?_, hregistered ▸ hcovered h.covered, fun ha => ?_, .inr ?_⟩
  · rw [hscope]; exact h.run
  · rw [hf]; exact h.requests
  · rw [hmade]; exact h.made
  · rw [hf] at hp
    rcases List.mem_append.mp hp with hp | hp
    · exact h.committed p hp
    · rw [List.mem_singleton.mp hp, hr]
  · rw [hf]; exact h.durable
  · rw [hscope]; exact h.listed
  · exact absurd (h.unclaimed (hscope ▸ ha)).1 hdurable
  · obtain ⟨child, l, ⟨q, hq, hfold⟩, hl, hc⟩ := h.safe.resolve_left fun hc => hdurable hc.2.1
    refine ⟨child, l, ⟨q, (hd _ _).mpr (.inl ⟨hscope ▸ hq, ?_, fun he => ?_⟩), hfold⟩, hscope ▸ hl,
      hcovered hc⟩
    · rintro rfl
      exact hs ((control_of_mem (by simp [controls])).congr hfold)
    · have hreserved : hasStagingComponent q = true :=
        ((control_of_mem (by simp [controls])).congr hfold : Control V q).reserved
      rw [hasStagingComponent_fold he, hr] at hreserved
      cases hreserved

/-- Change what the run's memory holds of its area. -/
theorem Ledger.setArea (h : Ledger strict root runId used w) {area : Area}
    (hl : area.child = [] ∧ area.artifacts = [] ∨ RunList strict runId area.child used area.artifacts)
    (hc : Covered w area.artifacts) :
    Ledger strict root runId used { w with scope := { w.scope with area := some area } } := by
  refine { h with listed := ?_, covered := hc, unclaimed := nofun, safe := h.safe }
  intro a he
  cases he
  exact hl

theorem Kept.refl (w : Machine V) : Kept w w := (Same.refl w).kept

theorem Kept.trans {w₁ w₂ w₃ : Machine V} (h : Kept w₁ w₂) (h' : Kept w₂ w₃) : Kept w₁ w₃ :=
  ⟨h.toQuiet.trans h'.toQuiet, fun q b hf hb => h'.manifest q b hf (h.manifest q b hf hb)⟩

end Cao
