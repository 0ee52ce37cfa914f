import Cao.Finalize.OutputNames

/-!
# Entries a run does not own

An entry no list of the run names stays as it is, and the manifest on disk or the conflict control keeps a
later recovery from it.

* `nonce_of_fold`, **`Carries.random_eq`**: one name carries one nonce;
* `Minted`: a path that carries a nonce;
* `Spares`: what a step leaves in place;
* `Guarded`, **`Aside`**: the invariant;
* `aside_publishManifest`, `aside_createRegisteredFile`, `keeps_aside_prepareArea`, `keeps_aside_publish`, ...:
  its steps;
* **`aside_perform`**, **`aside_run`**: every operation keeps it, and so does every run.
-/

namespace Cao

open Finalize (AsciiCase)

variable {K : Type} [DecidableEq K] {V : Volume K} {p q r : Path} {n m : Node Leaf} {w w' : Machine V}
variable {l : List Artifact} {a a' : Artifact} {strict : Prop} {root runId runId' child child' : Text}
variable {used used' : List Nonce} {random random' : Nonce} {ε α : Type}

/-! ## Names that carry nonces -/

theorem nonceText_length (random : Nonce) : (nonceText random).length = 32 :=
  nonce_length (isLowercaseNonce_nonceText random)

/-- A nonce's text has one spelling. -/
theorem nonceText_chars (random : Nonce) : ∀ c ∈ nonceText random, c.toLower = c ∧ c.toNat < 128 := by
  have hdigit : ∀ k < 16, (hexDigit k).toLower = hexDigit k ∧ (hexDigit k).toNat < 128 := by decide
  intro c hc
  obtain ⟨b, -, hc⟩ := List.mem_flatMap.mp hc
  have hb := b.toNat_lt
  simp only [List.mem_cons, List.not_mem_nil, or_false] at hc
  rcases hc with rfl | rfl
  · exact hdigit _ (by omega)
  · exact hdigit _ (by omega)

omit [DecidableEq K] in
/-- **One name carries one nonce.** -/
theorem nonce_of_fold (hV : AsciiCase V) {pre pre' suf suf' : Text} (hlen : suf.length = suf'.length)
    (h : V.fold (OsStr.ofText (pre ++ nonceText random ++ suf)) =
      V.fold (OsStr.ofText (pre' ++ nonceText random' ++ suf'))) : random = random' := by
  have hpre : pre.length = pre'.length := by
    have := V.length _ _ h
    simp only [OsStr.ofText, List.length_map, List.length_append, nonceText_length] at this
    omega
  have hchar : ∀ {pre suf : Text} {random : Nonce} {i : Nat} (hi : i < (nonceText random).length),
      (OsStr.ofText (pre ++ nonceText random ++ suf))[pre.length + i]? = some (.char (nonceText random)[i]) := by
    intro pre suf random i hi
    rw [OsStr.ofText, List.getElem?_map, List.append_assoc, List.getElem?_append_right (by omega),
      Nat.add_sub_cancel_left, List.getElem?_append_left hi, List.getElem?_eq_getElem hi]
    rfl
  refine nonceText_injective (List.ext_getElem (by rw [nonceText_length, nonceText_length]) fun i hi hi' => ?_)
  have hc := nonceText_chars random _ (List.getElem_mem hi)
  have hd := nonceText_chars random' _ (List.getElem_mem hi')
  have := hV _ _ h (pre.length + i) _ _ (hchar hi) (hpre ▸ hchar hi') hc.2 hd.2
  rwa [hc.1, hd.1] at this

theorem stagingPrefix_length {extension assetPrefix : Text} (h : stagingPrefix extension = some assetPrefix) :
    extension.length = 4 := by
  have hall : ∀ e ∈ [(".dds".toList, ".cao-staging-texture-".toList),
      (".hkx".toList, ".cao-staging-animation-".toList), (".nif".toList, ".cao-staging-mesh-".toList),
      (".btr".toList, ".cao-staging-mesh-".toList), (".bto".toList, ".cao-staging-mesh-".toList)],
      e.1.length = 4 := by decide
  exact hall _ (stagingPrefix_eq_some h)

omit [DecidableEq K] in
/-- A sibling does not stand beneath the reserved directory. -/
theorem sibling_ne_staging {parents : List Text} {file : Text} {rest : Path} (hrest : rest ≠ [])
    (hparents : ∀ part ∈ parents, isStagingName (OsStr.ofText part) = false) :
    ((parents ++ [file]).map OsStr.ofText).map V.fold ≠ (staging ++ rest).map V.fold := by
  intro he
  cases parents with
  | nil =>
    have := congrArg List.length he
    simp [staging, List.length_eq_zero_iff, hrest] at this
  | cons part parents =>
    have hstaging := V.staging _ _ (List.cons.inj he).1
    rw [hparents part List.mem_cons_self, isStagingName_staging] at hstaging
    cases hstaging

omit [DecidableEq K] in
/-- **Files that carry different nonces have different names.** -/
theorem Carries.random_eq (hV : AsciiCase V) (h : Carries strict used runId child random a)
    (h' : Carries strict used' runId' child' random' a') (hc : IsRunChild runId child)
    (hc' : IsRunChild runId' child')
    (he : (artifactPath a).map V.fold = (artifactPath a').map V.fold) : random = random' := by
  rcases h.shape hc with hp | ⟨parents, extension, assetPrefix, hpre, hp, hparents⟩ <;>
    rcases h'.shape hc' with hp' | ⟨parents', extension', assetPrefix', hpre', hp', hparents'⟩ <;>
    rw [hp, hp'] at he
  · have hlast : V.fold (OsStr.ofText (archiveEntryName random)) =
        V.fold (OsStr.ofText (archiveEntryName random')) := by
      simpa [stagingPath] using (List.cons.inj (List.cons.inj he).2).2
    unfold archiveEntryName at hlast
    rw [← List.append_nil (_ ++ nonceText random), ← List.append_nil (_ ++ nonceText random')] at hlast
    exact nonce_of_fold hV rfl hlast
  · exact absurd he.symm (sibling_ne_staging (by simp) hparents')
  · exact absurd he (sibling_ne_staging (by simp) hparents)
  · simp only [List.map_append, List.map_cons, List.map_nil] at he
    have hlast := (List.append_inj' he rfl).2
    rw [List.singleton_inj] at hlast
    exact nonce_of_fold hV (by rw [stagingPrefix_length hpre, stagingPrefix_length hpre']) hlast

/-- A path that carries a nonce. -/
def Minted (V : Volume K) (random : Nonce) (q : Path) : Prop :=
  ∃ used runId child a, IsRunChild runId child ∧ Carries False used runId child random a ∧
    q.map V.fold = (artifactPath a).map V.fold

omit [DecidableEq K] in
/-- A carried file in a list of its own. -/
theorem Minted.entry (h : Minted V random q) : hasStagingComponent q = true ∧ ¬ Control V q := by
  obtain ⟨used, runId, child, a, hc, hcarry, he⟩ := h
  have hlist : RunList False runId child used [⟨child, true, false⟩, a] := by
    refine ⟨hc, ⟨[a], rfl, fun b hb => ?_⟩, False.elim⟩
    rw [List.mem_singleton.mp hb]
    exact ⟨random, hcarry⟩
  have hentry := hlist.entry (V := V) (a := a) (by simp)
  exact ⟨(hasStagingComponent_fold he).trans hentry.1, hentry.2 q he⟩

omit [DecidableEq K] in
/-- **A path that carries a nonce is the name of no file that carries another.** -/
theorem Minted.ne_carried (hV : AsciiCase V) (h : Minted V random q)
    (hcarry : Carries False used runId child random' a) (hc : IsRunChild runId child)
    (hne : random' ≠ random) : q.map V.fold ≠ (artifactPath a).map V.fold := by
  obtain ⟨used₀, runId₀, child₀, a₀, hc₀, hcarry₀, he₀⟩ := h
  exact fun he => hne (hcarry.random_eq hV hcarry₀ hc hc₀ (he.symm.trans he₀))

omit [DecidableEq K] in
/-- A path that carries a nonce is no run child. -/
theorem Minted.ne_child (h : Minted V random q) : q.map V.fold ≠ (staging ++ [OsStr.ofText child]).map V.fold := by
  obtain ⟨used, runId, child₀, a, hc, hcarry, he⟩ := h
  rw [he]
  rcases hcarry.shape hc with hp | ⟨parents, extension, assetPrefix, -, hp, hparents⟩ <;> rw [hp]
  · intro hlen
    have := congrArg List.length hlen
    simp [stagingPath, staging] at this
  · exact sibling_ne_staging (by simp) hparents

/-! ## What a step leaves in place -/

/-- The memory of the scope is as it was, and every entry still stands that is not `gone`. -/
structure Spares (gone : Path → Prop) (w w' : Machine V) : Prop where
  scope : w'.scope = w.scope
  durable : w'.durable = w.durable
  disk : ∀ p n, w.disk.Has p n → ¬ gone p → w'.disk.Has p n

omit [DecidableEq K] in
theorem Same.spares (h : Same w w') : Spares (fun _ => False) w w' := by
  refine ⟨h.scope, ?_, fun p n hp _ => ?_⟩
  · rw [h]
  · rw [h.disk]
    exact hp

omit [DecidableEq K] in
theorem Added.spares (h : Added p q n w w') : Spares (fun _ => False) w w' := by
  refine ⟨?_, ?_, fun r m hr _ => (h.disk r m).mpr (.inl hr)⟩
  · rw [h.frame]
  · rw [h.frame]

omit [DecidableEq K] in
theorem Begun.spares (h : Begun p w w') : Spares (fun _ => False) w w' := by
  rcases h with h | ⟨q, data, h⟩
  · exact h.spares
  · exact h.spares

/-! ## The invariant -/

/-- The conflict control, or a manifest that names neither `q` nor a control file. -/
def Guards (V : Volume K) (root : Text) (q r : Path) (m : Node Leaf) : Prop :=
  r.map V.fold = (controlPath conflictControl).map V.fold ∨
    r.map V.fold = (controlPath manifestName).map V.fold ∧ ∃ data links, m = .leaf (.file data links) ∧
      ∀ polls manifest, parseManifest data root polls = .ok manifest →
        ¬ Named V manifest.artifacts q ∧ ∀ c, Control V c → ¬ Named V manifest.artifacts c

/-- The entry `q` stands, and a guard of it. -/
def Guarded (root : Text) (q : Path) (n : Node Leaf) (disk : Disk V) : Prop :=
  disk.Has q n ∧ ∃ r m, disk.Has r m ∧ Guards V root q r m

/-- **An entry set aside**: no list and no receipt of the run names `q`. Once it was `met`, the area is claimed,
and the entry stands and is guarded. -/
structure Aside (met : Prop) (root runId : Text) (q : Path) (n : Node Leaf) (w : Machine V) : Prop where
  run : w.scope.runId = runId
  listed : ∀ area, w.scope.area = some area →
    area.child = [] ∧ area.artifacts = [] ∨ RunList False runId area.child [] area.artifacts
  unowned : ∀ area, w.scope.area = some area → ¬ Named V area.artifacts q
  durable : ∀ d ∈ w.durable, d.path.map V.fold ≠ q.map V.fold ∧ ¬ Control V d.path
  claimed : met → ∃ area, w.scope.area = some area ∧ area.child ≠ []
  guarded : met → Guarded root q n w.disk

variable {met : Prop} {gone : Path → Prop}

omit [DecidableEq K] in
theorem Guards.control (h : Guards V root q r m) : Control V r := by
  rcases h with he | ⟨he, -⟩
  · exact (control_of_mem (by simp [controls])).congr he
  · exact (control_of_mem (by simp [controls])).congr he

/-- What no step of the run may take. -/
def Leaves (V : Volume K) (gone : Path → Prop) (q : Path) : Prop := ¬ gone q ∧ ∀ c, Control V c → ¬ gone c

omit [DecidableEq K] in
/-- **A step that spares the entry and the control files keeps it aside.** -/
theorem Aside.spares (h : Aside met root runId q n w) (hs : Spares gone w w') (hleaves : Leaves V gone q) :
    Aside met root runId q n w' := by
  obtain ⟨hrun, hlisted, hunowned, hdurable, hclaimed, hguarded⟩ := h
  rw [← hs.scope] at hrun hlisted hunowned hclaimed
  rw [← hs.durable] at hdurable
  refine ⟨hrun, hlisted, hunowned, hdurable, hclaimed, fun hmet => ?_⟩
  obtain ⟨hq, r, m, hr, hguards⟩ := hguarded hmet
  exact ⟨hs.disk q n hq hleaves.1, r, m, hs.disk r m hr (hleaves.2 r hguards.control), hguards⟩

omit [DecidableEq K] in
/-- A step that takes nothing. -/
theorem Aside.idle (h : Aside met root runId q n w) (hs : Spares (fun _ => False) w w') :
    Aside met root runId q n w' := h.spares hs ⟨id, fun _ _ => id⟩

omit [DecidableEq K] in
/-- A program that spares everything. -/
theorem keeps_aside_of_spares {x : Prog (Machine V) ε α}
    (h : ∀ w, Prog.Spec x w (fun _ w' => Spares (fun _ => False) w w') (fun _ w' => Spares (fun _ => False) w w')
      (Spares (fun _ => False) w)) : Prog.Keeps (Aside (V := V) met root runId q n) x := fun w hw =>
  (h w).mono (fun _ _ hs => hw.idle hs) (fun _ _ hs => hw.idle hs)
    fun _ hs => hw.idle hs

omit [DecidableEq K] in
theorem keeps_aside_of_observes {x : Prog (Machine V) ε α} {R : Disk V → α → Prop}
    (h : ∀ d, Observes d x (R d)) : Prog.Keeps (Aside (V := V) met root runId q n) x :=
  keeps_aside_of_spares fun w => (h w.disk w rfl).mono (fun _ _ hs => hs.1.spares) (fun _ _ hs => hs.spares)
    fun _ hs => hs.spares

theorem keeps_aside_makeEntry : Prog.Keeps (Aside (V := V) met root runId q n) (makeEntry m p) :=
  keeps_aside_of_spares fun _ => spec_makeEntry.mono (fun _ _ ha => ha.spares) (fun _ _ hs => hs.spares)
    fun _ hs => hs.spares

theorem keeps_aside_writeNewFile {bytes : Bytes} :
    Prog.Keeps (Aside (V := V) met root runId q n) (writeNewFile p bytes) :=
  keeps_aside_of_spares fun _ => spec_writeNewFile.mono (fun _ _ ha => ha.spares) (fun _ _ hb => hb.1.spares)
    fun _ hb => hb.spares

omit [DecidableEq K] in
/-- A change of the claimed area. -/
theorem Aside.mapArea (h : Aside met root runId q n w) {f : Area → Area}
    (hf : ∀ area, w.scope.area = some area →
      ((f area).child = [] ∧ (f area).artifacts = [] ∨
        RunList False runId (f area).child [] (f area).artifacts) ∧
      ¬ Named V (f area).artifacts q ∧ (area.child ≠ [] → (f area).child ≠ [])) :
    Aside met root runId q n (w.mapArea f) := by
  refine ⟨h.run, fun area ha => ?_, fun area ha => ?_, h.durable, fun hmet => ?_, h.guarded⟩
  · obtain ⟨area₀, ha₀, rfl⟩ := Option.map_eq_some_iff.mp (mapArea_area.symm.trans ha)
    exact (hf area₀ ha₀).1
  · obtain ⟨area₀, ha₀, rfl⟩ := Option.map_eq_some_iff.mp (mapArea_area.symm.trans ha)
    exact (hf area₀ ha₀).2.1
  · obtain ⟨area, ha, hchild⟩ := h.claimed hmet
    exact ⟨f area, by rw [mapArea_area, ha]; rfl, (hf area ha).2.2 hchild⟩

omit [DecidableEq K] in
/-- A change of the claimed area that leaves its list. -/
theorem keeps_aside_modifyArea {f : Area → Area}
    (hf : ∀ area, (f area).child = area.child ∧ (f area).artifacts = area.artifacts) :
    Prog.Keeps (Aside (V := V) met root runId q n) (modifyArea f) := by
  intro w h
  rw [spec_modifyArea]
  refine h.mapArea fun area ha => ?_
  rw [(hf area).1, (hf area).2]
  exact ⟨h.listed area ha, h.unowned area ha, id⟩

/-! ## Publication of a list -/

omit [DecidableEq K] in
theorem Published.memory (hp : Published root runId child l w w') :
    w'.scope = w.scope ∧ w'.durable = w.durable := by
  obtain ⟨w₁, scratch, r, d, tape, h₁, rfl, -⟩ := hp
  exact ⟨h₁.spares.scope, h₁.spares.durable⟩

omit [DecidableEq K] in
/-- **A published list that does not name the entry guards it.** -/
theorem Published.guards (hp : Published root runId child l w w') (hq : ¬ Control V q)
    (hl : RunList False runId child used l) (hn : ¬ Named V l q) (hpresent : w.disk.Has q n) :
    Guarded root q n w'.disk := by
  obtain ⟨w₁, scratch, r, d, tape, h₁, rfl, hfold, hhas⟩ := hp
  refine ⟨(hhas q n).mpr (.inl ⟨h₁.spares.disk q n hpresent id, ?_, fun he => ?_⟩), r, _,
    (hhas r _).mpr (.inr ⟨rfl, rfl⟩), .inr ⟨hfold, _, _, rfl, fun polls manifest hparse => ?_⟩⟩
  · rintro rfl
    exact hq ((control_of_mem (by simp [controls])).congr h₁.fold)
  · exact hq ((control_of_mem (by simp [controls])).congr he)
  · rw [parse_snapshot_eq hl.named hl.fileSiblings hparse]
    refine ⟨hn, ?_⟩
    rintro c hc ⟨a, ha, he⟩
    exact (hl.entry (V := V) ha).2 c he hc

omit [DecidableEq K] in
theorem Aside.published (h : Aside met root runId q n w) (hp : Published root runId child l w w')
    (hq : ¬ Control V q) (hl : RunList False runId child used l) (hn : ¬ Named V l q) :
    Aside met root runId q n w' := by
  obtain ⟨hrun, hlisted, hunowned, hdurable, hclaimed, hguarded⟩ := h
  rw [← hp.memory.1] at hrun hlisted hunowned hclaimed
  rw [← hp.memory.2] at hdurable
  exact ⟨hrun, hlisted, hunowned, hdurable, hclaimed, fun hmet => hp.guards hq hl hn (hguarded hmet).1⟩

theorem aside_publishManifest (h : Aside met root runId q n w) (hq : ¬ Control V q)
    (hl : RunList False runId child used l) (hn : ¬ Named V l q) :
    Prog.Spec (publishManifest root runId child l) w
      (fun _ w' => Aside met root runId q n w' ∧ w'.scope = w.scope)
      (fun _ w' => Aside met root runId q n w' ∧ w'.scope = w.scope) (Aside met root runId q n) := by
  have h₀ : Aside met root runId q n (requested w child l) :=
    ⟨h.run, h.listed, h.unowned, h.durable, h.claimed, h.guarded⟩
  have hbegun : ∀ {w'}, Begun (controlPath manifestScratch) (requested w child l) w' →
      Aside met root runId q n w' ∧ w'.scope = w.scope := fun hb =>
    ⟨h₀.idle hb.spares, hb.spares.scope⟩
  exact spec_publication.mono (fun _ w' hp => ⟨h₀.published hp hq hl hn, hp.memory.1⟩) (fun _ _ => hbegun)
    fun _ hb => (hbegun hb).1

/-! ## Registered files -/

omit [DecidableEq K] in
theorem named_concat : Named V (l ++ [a]) q ↔ Named V l q ∨ q.map V.fold = (artifactPath a).map V.fold := by
  simp only [Named, List.mem_append, List.mem_singleton, or_and_right, exists_or, exists_eq_left]

omit [DecidableEq K] in
theorem not_named_of_subset {l' : List Artifact} (h : ¬ Named V l q) (hs : ∀ a ∈ l', a ∈ l) : ¬ Named V l' q :=
  fun ⟨a, ha, he⟩ => h ⟨a, hs a ha, he⟩

/-- Nonces that need not be fresh need not be told. -/
theorem RunList.forget (h : RunList False runId child used l) : RunList False runId child used' l := by
  obtain ⟨rest, hl, hrest⟩ := h.files
  exact ⟨h.named, ⟨rest, hl, fun a ha => (hrest a ha).imp fun _ hc => ⟨False.elim, hc.file, hc.name⟩⟩, False.elim⟩

/-- The half of a registered file after its registration. -/
theorem aside_createOrWithdraw {area : Area} (h : Aside met root runId q n w) (hq : ¬ Control V q)
    (harea : w.scope.area = some area) (hchild : area.child = child) (hartifacts : area.artifacts = l ++ [a])
    (hlist : RunList False runId child [] l) :
    Prog.Spec (createOrWithdraw root runId child l (artifactPath a)) w
      (fun path w' => Aside met root runId q n w' ∧ path = artifactPath a)
      (fun _ w' => Aside met root runId q n w') (Aside met root runId q n) := by
  have hunowned : ¬ Named V l q := fun hn =>
    h.unowned area harea (hartifacts ▸ named_concat.mpr (.inl hn))
  have hbegun : ∀ {w'}, Begun (artifactPath a) w w' → Aside met root runId q n w' := fun hb =>
    h.idle hb.spares
  unfold createOrWithdraw
  rw [Prog.spec_bind, Prog.spec_attempt]
  refine spec_writeNewFile.mono (fun path w₁ h₁ => ⟨h.idle h₁.spares, rfl⟩)
    (fun e w₁ ⟨hb, _⟩ => ?_) fun w₁ hb => hbegun hb
  have h₁ := hbegun hb
  cases e with
  | collision taken =>
    have harea₁ : w₁.scope.area = some area := hb.spares.scope.symm ▸ harea
    have hdrop : area.artifacts.dropLast = l := by rw [hartifacts, List.dropLast_concat]
    dsimp only
    rw [Prog.spec_bind, spec_modifyArea]
    have h₂ := h₁.mapArea (f := fun area => { area with artifacts := area.artifacts.dropLast }) fun area' ha => by
      rw [harea₁, Option.some.injEq] at ha
      subst ha
      dsimp only
      rw [hdrop, hchild]
      exact ⟨.inr hlist, hunowned, id⟩
    rw [Prog.spec_bind, Prog.spec_attempt]
    refine (aside_publishManifest h₂ hq hlist hunowned).mono (fun _ w₃ h₃ => h₃.1) (fun e w₃ h₃ => ?_)
      fun w₃ h₃ => h₃
    dsimp only
    rw [Prog.spec_bind, Prog.spec_attempt]
    exact keeps_aside_writeNewFile w₃ h₃.1
  | _ => exact h₁

/-- **A registered file** of another nonce. -/
theorem aside_createRegisteredFile {relative : Text} {rootRelative : Bool} (h : Aside met root runId q n w)
    (hV : AsciiCase V) (hminted : Minted V random q)
    (hchose : ChoseName False root runId used random' relative rootRelative w) (hne : random' ≠ random) :
    Prog.Spec (createRegisteredFile root relative rootRelative) w
      (fun path w' => Aside met root runId q n w' ∧ path.map V.fold ≠ q.map V.fold ∧ ¬ Control V path)
      (fun _ w' => Aside met root runId q n w') (Aside met root runId q n) := by
  obtain ⟨-, area, harea, hchild, hcarry⟩ := hchose
  have hq := hminted.entry.2
  have hlist : RunList False runId area.child [] area.artifacts :=
    (h.listed area harea).resolve_left fun he => hchild he.1
  have hregistered : RunList False runId area.child (random' :: used)
      (area.artifacts ++ [⟨relative, false, rootRelative⟩]) :=
    hlist.forget.register hcarry False.elim
  have hpath := hminted.ne_carried hV hcarry hlist.named hne
  have hunowned : ¬ Named V (area.artifacts ++ [⟨relative, false, rootRelative⟩]) q := fun hn =>
    (named_concat.mp hn).elim (h.unowned area harea) hpath
  unfold createRegisteredFile
  rw [Prog.spec_bind, Prog.spec_get, harea, h.run]
  dsimp only
  rw [Prog.spec_bind]
  refine (aside_publishManifest h hq hregistered hunowned).mono (fun _ w₁ ⟨h₁, hscope⟩ => ?_)
    (fun _ _ h₁ => h₁.1) fun _ h₁ => h₁
  have harea₁ : w₁.scope.area = some area := hscope.symm ▸ harea
  rw [Prog.spec_bind, spec_modifyArea]
  have h₂ := h₁.mapArea (f := fun a => { a with artifacts :=
      area.artifacts ++ [⟨relative, false, rootRelative⟩] }) fun area' ha => by
    rw [harea₁, Option.some.injEq] at ha
    subst ha
    exact ⟨.inr hregistered.forget, hunowned, id⟩
  have harea₂ : (w₁.mapArea fun a => { a with artifacts :=
      area.artifacts ++ [⟨relative, false, rootRelative⟩] }).scope.area =
      some { area with artifacts := area.artifacts ++ [⟨relative, false, rootRelative⟩] } := by
    rw [mapArea_area, harea₁]
    rfl
  refine (aside_createOrWithdraw h₂ hq harea₂ rfl rfl hlist).mono
    (fun path w₃ ⟨h₃, hpath₃⟩ => ⟨h₃, ?_, ?_⟩) (fun _ _ h₃ => h₃) fun _ h₃ => h₃
  · rw [hpath₃]
    exact hpath.symm
  · rw [hpath₃]
    exact (hregistered.entry (V := V) (by simp)).2 _ rfl

/-- **A release** of another file. -/
theorem keeps_aside_releaseFile {temporary : Path} (hq : ¬ Control V q) :
    Prog.Keeps (Aside (V := V) met root runId q n) (releaseFile root temporary) := by
  intro w h
  unfold releaseFile
  rw [Prog.spec_bind, Prog.spec_get]
  split
  · exact h
  next area harea =>
  split
  · exact h
  next position hposition =>
  obtain ⟨hlt, hfound, -⟩ := List.findIdx?_eq_some_iff_getElem.mp hposition
  simp only [Bool.and_eq_true, Bool.not_eq_true', beq_iff_eq] at hfound
  have hlist : RunList False runId area.child [] area.artifacts := by
    refine (h.listed area harea).resolve_left fun he => ?_
    simp [he.2] at hlt
  have hretained := hlist.release (List.getElem?_eq_getElem hlt) hfound.1
  have hunowned : ¬ Named V (area.artifacts.eraseIdx position) q :=
    not_named_of_subset (h.unowned area harea) fun a ha => List.mem_of_mem_eraseIdx ha
  rw [Prog.spec_bind]
  refine (observes_inspect w rfl).mono (fun kind w₁ ⟨h₁, _⟩ => ?_)
    (fun _ _ hs => h.idle hs.spares)
    fun _ hs => h.idle hs.spares
  have ha₁ := h.idle h₁.spares
  cases kind with
  | some kind => exact ha₁
  | none =>
    dsimp only
    rw [h.run, Prog.spec_bind]
    refine (aside_publishManifest ha₁ hq hretained hunowned).mono (fun _ w₂ ⟨h₂, hscope⟩ => ?_)
      (fun _ _ h₂ => h₂.1) fun _ h₂ => h₂
    rw [spec_modifyArea]
    refine h₂.mapArea fun area' ha => ?_
    rw [hscope, h₁.scope, harea, Option.some.injEq] at ha
    subst ha
    exact ⟨.inr hretained, hunowned, id⟩

/-! ## Recovery and the area -/

omit [DecidableEq K] in
/-- Before the entry was met, what stands does not matter. -/
theorem Aside.unmet (h : Aside met root runId q n w) (hmet : ¬ met) (hrun : w'.scope.runId = w.scope.runId)
    (harea : ∀ area, w'.scope.area = some area → w.scope.area = some area ∨ area.child = [] ∧ area.artifacts = [])
    (hdurable : w'.durable = w.durable) : Aside met root runId q n w' := by
  refine ⟨hrun.trans h.run, fun area ha => ?_, fun area ha => ?_, hdurable ▸ h.durable, fun hm => absurd hm hmet,
    fun hm => absurd hm hmet⟩
  · rcases harea area ha with ha | he
    · exact h.listed area ha
    · exact .inl he
  · rcases harea area ha with ha | ⟨-, he⟩
    · exact h.unowned area ha
    · rw [he]
      rintro ⟨a, ha, -⟩
      cases ha

omit [DecidableEq K] in
/-- The entry is met. -/
theorem Aside.meet (h : Aside met root runId q n w) {area : Area} (hscope : w'.scope = w.scope)
    (hdurable : w'.durable = w.durable) (harea : w.scope.area = some area) (hchild : area.child ≠ [])
    (hguarded : Guarded root q n w'.disk) : Aside True root runId q n w' := by
  obtain ⟨hrun, hlisted, hunowned, hkept, -, -⟩ := h
  rw [← hscope] at hrun hlisted hunowned harea
  rw [← hdurable] at hkept
  exact ⟨hrun, hlisted, hunowned, hkept, fun _ => ⟨area, harea, hchild⟩, fun _ => hguarded⟩

omit [DecidableEq K] in
theorem Aside.not_met (h : Aside met root runId q n w) (harea : w.scope.area = none) : ¬ met := by
  intro hmet
  obtain ⟨area, ha, -⟩ := h.claimed hmet
  rw [harea] at ha
  cases ha

theorem keeps_aside_recover {stop : CancellationToken} :
    Prog.Keeps (Aside (V := V) met root runId q n) (recover stop root) := by
  intro w h
  have hend : ∀ {w'}, Shrunk w w' ∧ Touched root w w' → Aside met root runId q n w' := by
    rintro w' ⟨hs, ht⟩
    have hf : w' = { w with disk := w'.disk, tape := w'.tape } := hs
    rcases ht with hsame | ⟨harea, -⟩
    · rw [hsame] at hf
      exact h.idle (Same.spares hf)
    · refine h.unmet (h.not_met harea) ?_ (fun area ha => .inl ?_) ?_
      · rw [hf]
      · rwa [hf] at ha
      · rw [hf]
  refine (spec_recover stop root w).mono (fun _ w' hd => ?_) (fun _ _ => hend) fun _ => hend
  rcases hd with ⟨hs, -⟩ | ⟨harea, manifest, pins, -, -, hr⟩
  · exact h.idle hs.spares
  · have hf := hr.frame
    refine h.unmet (h.not_met harea) ?_ (fun area ha => .inr ?_) ?_
    · rw [hf]
    · rw [hf] at ha
      cases ha
      exact ⟨rfl, rfl⟩
    · rw [hf]

theorem keeps_aside_prepareRoot {stop : CancellationToken} :
    Prog.Keeps (Aside (V := V) met root runId q n) (prepareRoot stop root) := by
  refine keeps_aside_recover.attempt.bind fun result => ?_
  rcases result with (_ | (_ | _ | _ | _ | _) | _) | _ <;> exact Prog.keeps_pure _

theorem keeps_aside_pinDirectory :
    Prog.Keeps (Aside (V := V) met root runId q n) (pinDirectory p) :=
  keeps_aside_of_observes fun _ => observes_pinDirectory

theorem keeps_aside_claimArea (hmet : ¬ met) :
    Prog.Keeps (Aside (V := V) met root runId q n) claimArea := by
  unfold claimArea
  refine keeps_aside_pinDirectory.bind fun _ => ?_
  refine (keeps_aside_makeEntry.mapError).bind fun _ => ?_
  refine keeps_aside_pinDirectory.bind fun _ => ?_
  have hlock : Prog.Keeps (Aside (V := V) met root runId q n) (claimNewLock (controlPath ownerLock)) :=
    (keeps_aside_makeEntry.mapError).bind fun _ => (keeps_aside_of_observes fun _ => observes_settle).mapError
  refine hlock.bind fun _ => fun w h => ?_
  rw [Prog.spec_modify]
  refine h.unmet hmet rfl (fun area ha => .inr ?_) rfl
  cases ha
  exact ⟨rfl, rfl⟩

theorem keeps_aside_ensureClaimed : Prog.Keeps (Aside (V := V) met root runId q n) ensureClaimed := by
  intro w h
  unfold ensureClaimed
  rw [Prog.spec_bind, Prog.spec_get]
  split_ifs with ha
  · exact keeps_aside_claimArea (h.not_met (Option.isNone_iff_eq_none.mp ha)) w h
  · exact h

/-- **The run child** is no name that carries a nonce of a file. -/
theorem keeps_aside_publishChild (hminted : Minted V random q) (hrun : validRunId (utf8 runId) = some runId) :
    Prog.Keeps (Aside (V := V) met root runId q n) (publishChild root random') := by
  intro w h
  unfold publishChild
  rw [Prog.spec_bind, Prog.spec_get, h.run, Prog.spec_bind]
  have hend : ∀ {w'}, Same w w' → Aside met root runId q n w' := fun hs =>
    h.idle hs.spares
  refine (observes_nonce w rfl).mono (fun text w₁ ⟨h₁, htext⟩ => ?_) (fun _ _ => hend) fun _ => hend
  subst htext
  have hlist : RunList False runId _ [] _ := runList_child hrun random'
  have hunowned : ¬ Named V [⟨"run-".toList ++ runId ++ ['-'] ++ nonceText random', true, false⟩] q := by
    rintro ⟨a, ha, he⟩
    rw [List.mem_singleton.mp ha, artifactPath_control (safe_child hlist.named) rfl,
      List.splitOn_eq_singleton hlist.named.noSlash] at he
    exact hminted.ne_child he
  dsimp only
  rw [Prog.spec_bind, spec_modifyArea]
  have h₂ := (hend h₁).mapArea (f := fun area => { area with
      child := "run-".toList ++ runId ++ ['-'] ++ nonceText random', artifacts :=
        [⟨"run-".toList ++ runId ++ ['-'] ++ nonceText random', true, false⟩] }) fun area ha =>
    ⟨.inr hlist, hunowned, fun _ => by simp⟩
  rw [Prog.spec_bind]
  refine (aside_publishManifest h₂ hminted.entry.2 hlist hunowned).mono (fun _ w₃ ⟨h₃, _⟩ => ?_)
    (fun _ _ h₃ => h₃.1) fun _ h₃ => h₃
  refine ((keeps_aside_makeEntry.mapError).bind fun _ => keeps_aside_pinDirectory.bind fun _ => ?_) w₃ h₃
  exact keeps_aside_modifyArea fun _ => ⟨rfl, rfl⟩

/-- **The area of a run**, claimed and published. -/
theorem keeps_aside_prepareArea (hminted : Minted V random q) :
    Prog.Keeps (Aside (V := V) met root runId q n) (prepareArea root random') := by
  intro w h
  unfold prepareArea
  rw [Prog.spec_bind, Prog.spec_get, h.run]
  split_ifs with hvalid
  · exact h
  have hrun : validRunId (utf8 runId) = some runId := by
    unfold validRunId at hvalid ⊢
    split_ifs at hvalid ⊢
    · exact fromUtf8_utf8 runId
    · exact absurd rfl hvalid
  refine (keeps_aside_prepareRoot.bind fun failure => ?_) w h
  cases failure with
  | some failure => exact Prog.keeps_fail _
  | none =>
    refine keeps_aside_ensureClaimed.bind fun _ => Prog.keeps_get.bind fun w₁ => ?_
    split
    · exact Prog.keeps_fail _
    · split_ifs
      · exact Prog.keeps_fail _
      · exact keeps_aside_publishChild hminted hrun
      · exact Prog.keeps_pure _

/-! ## Cleanup and publication -/

omit [DecidableEq K] in
/-- The removal of one entry. -/
theorem spares_of_erase (hs : Shrunk w w') (he : w.disk.erase p = some w'.disk) : Spares (· = p) w w' := by
  have hf : w' = { w with disk := w'.disk, tape := w'.tape } := hs
  refine ⟨?_, ?_, fun r m hr hne => (PathTree.has_erase he).mpr ⟨hr, hne⟩⟩
  · rw [hf]
  · rw [hf]

omit [DecidableEq K] in
/-- What goes by one path only. -/
theorem leaves_of_fold {gone : Path → Prop} (hgone : ∀ r, gone r → r.map V.fold = p.map V.fold)
    (hp : p.map V.fold ≠ q.map V.fold) (hcontrol : ¬ Control V p) : Leaves V gone q :=
  ⟨fun hg => hp (hgone q hg).symm, fun _ hc hg => hcontrol (hc.congr (hgone _ hg).symm)⟩

omit [DecidableEq K] in
theorem keeps_aside_deleteByHandle (hp : p.map V.fold ≠ q.map V.fold) (hcontrol : ¬ Control V p) :
    Prog.Keeps (Aside (V := V) met root runId q n) (deleteByHandle p) := by
  refine fun w h => spec_change.mono (fun _ w' ⟨hs, hd⟩ => ?_) (fun _ _ hs => h.idle hs.1.spares) fun _ hs =>
    h.idle hs.spares
  split at hd
  · next d herase =>
    rw [Except.ok.injEq, Prod.mk.injEq] at hd
    refine h.spares (spares_of_erase hs (hd.2 ▸ herase)) (leaves_of_fold (fun r hr => ?_) hp hcontrol)
    rw [hr]
  · cases hd

theorem keeps_aside_removeDir (hp : p.map V.fold ≠ q.map V.fold) (hcontrol : ¬ Control V p) :
    Prog.Keeps (Aside (V := V) met root runId q n) (removeDir p) := by
  refine fun w h => spec_change.mono (fun _ w' ⟨hs, hd⟩ => ?_) (fun _ _ hs => h.idle hs.1.spares) fun _ hs =>
    h.idle hs.spares
  split at hd
  · next r hfind =>
    split at hd
    · next d herase =>
      rw [Except.ok.injEq, Prod.mk.injEq] at hd
      refine h.spares (spares_of_erase hs (hd.2 ▸ herase)) (leaves_of_fold (fun s hr => ?_) hp hcontrol)
      rw [hr]
      exact PathTree.fold_of_find hfind
    · cases hd
  · cases hd
  · cases hd

theorem keeps_aside_removeArtifact {affected : Path} (hp : affected.map V.fold ≠ q.map V.fold)
    (hcontrol : ¬ Control V affected) :
    Prog.Keeps (Aside (V := V) met root runId q n) (removeArtifact affected a) := by
  have hweakly : ∀ p : Path, Prog.Keeps (Aside (V := V) met root runId q n)
      (weaklyCanonical p : Prog (Machine V) IoError Path) := fun p =>
    keeps_aside_of_observes (R := fun _ _ => True) fun _ => observes_query fun _ _ => trivial
  have hinspect : Prog.Keeps (Aside (V := V) met root runId q n)
      (inspect affected : Prog (Machine V) StagingError (Option Kind)) :=
    keeps_aside_of_observes fun _ => observes_inspect
  unfold removeArtifact
  refine ((hweakly _).mapError).bind fun resolved => ?_
  split
  · exact Prog.keeps_fail _
  refine hinspect.bind fun kind => ?_
  cases kind with
  | none => exact Prog.keeps_pure _
  | some kind =>
    dsimp only
    split
    · exact Prog.keeps_fail _
    split
    · exact (keeps_aside_removeDir hp hcontrol).mapError
    · intro w h
      rw [Prog.spec_bind]
      refine (observes_openTemporaryFile w rfl).mono (fun file w₁ ⟨h₁, data, hfind⟩ => ?_)
        (fun _ _ hs => h.idle hs.spares) fun _ hs => h.idle hs.spares
      have hfile := PathTree.fold_of_find hfind
      exact (keeps_aside_deleteByHandle (hfile.trans_ne hp) fun hc => hcontrol (hc.congr hfile.symm)).mapError w₁
        (h.idle h₁.spares)

/-- **Safety Cleanup** removes the entries of the list, which are others. -/
theorem keeps_aside_cleanupArtifacts :
    Prog.Keeps (Aside (V := V) met root runId q n) cleanupArtifacts := by
  intro w h
  unfold cleanupArtifacts
  rw [Prog.spec_bind, Prog.spec_get]
  split
  · exact h
  next area harea =>
  split_ifs with hchild
  · exact h
  have hlist := (h.listed area harea).resolve_left fun he => hchild he.1
  refine (Prog.Spec.foldEach (E := fun _ : StagingError => Aside met root runId q n)
    (C := Aside met root runId q n) (I := fun _ after (_ : List (Path × StagingError)) w =>
      Aside met root runId q n w ∧ ∀ a ∈ after, a ∈ area.artifacts)
    (fun before a after failures w₁ ⟨h₁, hmem⟩ => ?_) [] area.artifacts.reverse
    ⟨h, fun a ha => List.mem_reverse.mp ha⟩).mono (fun _ _ h' => h'.1) (fun _ _ h' => h') fun _ h' => h'
  have ha := hmem a List.mem_cons_self
  have hp : (artifactPath a).map V.fold ≠ q.map V.fold := fun he => h.unowned area harea ⟨a, ha, he.symm⟩
  have hrest : ∀ b ∈ after, b ∈ area.artifacts := fun b hb => hmem b (List.mem_cons_of_mem _ hb)
  rw [Prog.spec_bind, Prog.spec_attempt]
  exact (keeps_aside_removeArtifact hp ((hlist.entry (V := V) ha).2 _ rfl) w₁ h₁).mono
    (fun _ _ h' => ⟨h', hrest⟩) (fun _ _ h' => ⟨h', hrest⟩) fun _ h' => h'

/-- **A commit** moves another file to a name outside the reserved namespace. -/
theorem keeps_aside_commitDestination {policy : PublicationPolicy} {temporary destination : Path}
    (hq : hasStagingComponent q = true) (ht : temporary.map V.fold ≠ q.map V.fold) (hcontrol : ¬ Control V temporary)
    (hd : hasStagingComponent destination = false) :
    Prog.Keeps (Aside (V := V) met root runId q n) (commitDestination policy temporary destination) := by
  refine fun w h => step_eq.mono (fun _ w' ⟨tape, hw'⟩ => ?_) (fun _ _ hs => h.idle hs.spares) fun _ hs =>
    h.idle hs.spares
  cases hr : renameEntry policy temporary destination w.disk with
  | error e => rw [hr] at hw'; cases hw'
  | ok e =>
    obtain ⟨r, d⟩ := e
    rw [hr] at hw'
    cases hw'
    obtain ⟨s, b, hfind, hfold, hhas⟩ := renameEntry_ok hr
    have hs := PathTree.fold_of_find hfind
    have hreserved : ∀ t, hasStagingComponent t = true → t.map V.fold ≠ destination.map V.fold := by
      intro t ht he
      rw [hasStagingComponent_fold he, hd] at ht
      cases ht
    have hspares : Spares (fun t => t.map V.fold = temporary.map V.fold ∨ t.map V.fold = destination.map V.fold) w
        { w with disk := d, tape := tape, committed := w.committed ++ [r] } := by
      refine ⟨rfl, rfl, fun t m ht hgone => (hhas t m).mpr (.inl ⟨ht, ?_, fun he => hgone (.inr he)⟩)⟩
      rintro rfl
      exact hgone (.inl hs)
    refine h.spares hspares ⟨?_, fun c hc => ?_⟩
    · exact not_or.mpr ⟨ht.symm, hreserved q hq⟩
    · exact not_or.mpr ⟨fun he => hcontrol (hc.congr he.symm), hreserved c hc.reserved⟩

omit [DecidableEq K] in
/-- A used receipt, or a committed artifact. -/
theorem Aside.setDurable (h : Aside met root runId q n w) {i : Nat} {d : Registered}
    (hd : d.path.map V.fold ≠ q.map V.fold ∧ ¬ Control V d.path) :
    Aside met root runId q n { w with durable := w.durable.set i d } := by
  refine ⟨h.run, h.listed, h.unowned, fun d' hm => ?_, h.claimed, h.guarded⟩
  rcases List.mem_or_eq_of_mem_set hm with hm | rfl
  · exact h.durable d' hm
  · exact hd

/-- **Publication** of another file through its receipt. -/
theorem keeps_aside_publish {index : Nat} {destination : Path} {policy : PublicationPolicy}
    (hminted : Minted V random q) :
    Prog.Keeps (Aside (V := V) met root runId q n) (publish root index destination policy) := by
  intro w h
  unfold publish
  rw [Prog.spec_bind, Prog.spec_get]
  split
  · next temporary receipt hget =>
    have ht := h.durable _ (List.mem_of_getElem? hget)
    rw [Prog.spec_bind, Prog.spec_modify]
    have h₁ := h.setDurable (i := index) (d := ⟨temporary, false, none⟩) ht
    split
    · exact h₁
    split
    · exact h₁
    generalize { w with durable := w.durable.set index ⟨temporary, false, none⟩ } = w₁ at h₁
    rw [Prog.spec_bind]
    refine (observes_pinDestination w₁ rfl).mono (fun _ w₂ ⟨h₂, hd⟩ => ?_) (fun _ _ hs => h₁.idle hs.spares)
      fun _ hs => h₁.idle hs.spares
    have ha₂ := h₁.idle h₂.spares
    rw [Prog.spec_bind]
    refine (observes_openTemporaryFile w₂ rfl).mono (fun staged w₃ ⟨h₃, data, hfind⟩ => ?_)
      (fun _ _ hs => ha₂.idle hs.spares) fun _ hs => ha₂.idle hs.spares
    have hstaged := PathTree.fold_of_find hfind
    have hcommit : Prog.Keeps (Aside (V := V) met root runId q n) (commitDestination policy staged destination) :=
      keeps_aside_commitDestination hminted.entry.1 (hstaged.trans_ne ht.1)
        (fun hc => ht.2 (hc.congr hstaged.symm)) hd.unreserved
    refine ((keeps_aside_of_observes fun _ => observes_settle.ioAt).bind fun _ =>
      (keeps_aside_of_observes fun _ => observes_checkLeaf).bind fun _ => hcommit.mapError.bind fun _ =>
        (keeps_aside_releaseFile hminted.entry.2).bind fun _ => fun w₄ h₄ => ?_) w₃ (ha₂.idle h₃.spares)
    rw [Prog.spec_modify]
    exact h₄.setDurable ht
  · exact h

/-! ## Operations -/

omit [DecidableEq K] in
theorem keeps_aside_openRegistry : Prog.Keeps (Aside (V := V) met root runId q n) openRegistry := by
  unfold openRegistry
  refine Prog.keeps_get.bind fun w => ?_
  split
  · exact Prog.keeps_fail _
  · exact Prog.keeps_pure _

theorem keeps_aside_canonical : Prog.Keeps (Aside (V := V) met root runId q n) (canonical p) :=
  keeps_aside_of_observes fun _ => observes_canonical

omit [DecidableEq K] in
theorem keeps_aside_settle {context : String} : Prog.Keeps (Aside (V := V) met root runId q n) (ioAt context p settle) :=
  keeps_aside_of_observes fun _ => observes_settle.ioAt

theorem keeps_aside_chooseBeneath {parent : Path} {destinationParent assetPrefix extension : Text}
    {childRandom : Nonce} (hminted : Minted V random q) : Prog.Keeps (Aside (V := V) met root runId q n)
      (chooseBeneath root parent destinationParent assetPrefix extension childRandom random') := by
  have hpins : ∀ pins, Prog.Keeps (Aside (V := V) met root runId q n) (pinParentDirectories parent pins) := fun _ =>
    keeps_aside_of_observes fun _ => observes_pinParentsFrom
  have hnonce : Prog.Keeps (Aside (V := V) met root runId q n) (nonce random') :=
    keeps_aside_of_observes fun _ => observes_nonce
  unfold chooseBeneath
  refine (keeps_aside_prepareArea hminted).bind fun _ => Prog.keeps_get.bind fun w => (hpins _).bind fun pinned => ?_
  obtain ⟨pins, found⟩ := pinned
  dsimp only
  have hmodify : Prog.Keeps (Aside (V := V) met root runId q n)
      (modifyArea fun area => { area with parentPins := pins }) := keeps_aside_modifyArea fun _ => ⟨rfl, rfl⟩
  refine hmodify.bind fun _ => (Prog.keeps_ofExcept found).bind fun there => ?_
  split
  · exact Prog.keeps_fail _
  · exact hnonce.bind fun _ => Prog.keeps_pure _

theorem keeps_aside_chooseSibling {destination : Path} {childRandom : Nonce} (hminted : Minted V random q) :
    Prog.Keeps (Aside (V := V) met root runId q n) (chooseSibling root destination childRandom random') := by
  unfold chooseSibling
  refine keeps_aside_canonical.mapError.bind fun _ => keeps_aside_canonical.mapError.bind fun parent => ?_
  split
  · exact Prog.keeps_fail _
  split
  · exact Prog.keeps_fail _
  refine keeps_aside_settle.bind fun _ => keeps_aside_settle.bind fun _ => ?_
  dsimp only
  split
  · exact Prog.keeps_fail _
  · exact Prog.keeps_fail _
  · exact keeps_aside_chooseBeneath hminted

theorem keeps_aside_chooseEntry {childRandom : Nonce} (hminted : Minted V random q) :
    Prog.Keeps (Aside (V := V) met root runId q n) (chooseEntry root childRandom random') := by
  have hnonce : Prog.Keeps (Aside (V := V) met root runId q n) (nonce random') :=
    keeps_aside_of_observes fun _ => observes_nonce
  exact keeps_aside_canonical.mapError.bind fun _ => (keeps_aside_prepareArea hminted).bind fun _ =>
    Prog.keeps_get.bind fun _ => hnonce.bind fun _ => Prog.keeps_pure _

/-- **What an operation chooses a name from** it leaves. -/
theorem keeps_aside_choose {operation : Operation} {x : Prog (Machine V) StagingError Chosen}
    (hx : choose root operation = some x) (hminted : Minted V random q) :
    Prog.Keeps (Aside (V := V) met root runId q n) x := by
  have hpin : ∀ destination, Prog.Keeps (Aside (V := V) met root runId q n) (pinDestination destination) := fun _ =>
    keeps_aside_of_observes fun _ => observes_pinDestination
  have hsnapshot : ∀ destination, Prog.Keeps (Aside (V := V) met root runId q n) (destinationSnapshot destination) :=
    fun _ => keeps_aside_of_observes fun _ => observes_destinationSnapshot
  have hleaf : ∀ leaf destination, Prog.Keeps (Aside (V := V) met root runId q n) (checkLeaf leaf destination) :=
    fun _ _ => keeps_aside_of_observes fun _ => observes_checkLeaf
  cases operation with
  | stageFile destination childRandom random' =>
    cases hx
    exact keeps_aside_openRegistry.bind fun _ => (keeps_aside_chooseSibling hminted).bind fun _ => Prog.keeps_pure _
  | stageForPublication destination childRandom random' =>
    cases hx
    exact keeps_aside_openRegistry.bind fun _ => (hpin _).bind fun _ => (hsnapshot _).bind fun _ =>
      (hpin _).bind fun _ => (hleaf _ _).bind fun _ =>
        (keeps_aside_chooseSibling hminted).bind fun _ => Prog.keeps_pure _
  | stageArchive childRandom random' =>
    cases hx
    exact keeps_aside_openRegistry.bind fun _ => (keeps_aside_chooseEntry hminted).bind fun _ => Prog.keeps_pure _
  | prepareRoot | publish | release | cleanup => cases hx

omit [DecidableEq K] in
theorem aside_pushDurable {receipt : Option Receipt} (h : Aside met root runId q n w)
    (hp : p.map V.fold ≠ q.map V.fold ∧ ¬ Control V p) :
    Prog.Spec (pushDurable p receipt) w (fun _ w' => Aside met root runId q n w')
      (fun _ w' => Aside met root runId q n w') (Aside met root runId q n) := by
  unfold pushDurable
  rw [Prog.spec_modify]
  refine ⟨h.run, h.listed, h.unowned, fun d hm => ?_, h.claimed, h.guarded⟩
  rcases List.mem_append.mp hm with hm | hm
  · exact h.durable d hm
  · rw [List.mem_singleton.mp hm]
    exact hp

/-- **One operation with other nonces keeps the entry aside.** -/
theorem aside_perform (hV : AsciiCase V) (hminted : Minted V random q) (operation : Operation)
    (hledger : Ledger False root runId used w) (h : Aside met root runId q n w)
    (hnew : random ∉ operation.nonces) :
    Prog.Spec (perform root operation) w (fun _ w' => Aside met root runId q n w')
      (fun _ w' => Aside met root runId q n w') (Aside met root runId q n) := by
  have hstage : ∀ x : Prog (Machine V) StagingError Chosen, choose root operation = some x →
      Prog.Spec (perform root operation) w (fun _ w' => Aside met root runId q n w')
        (fun _ w' => Aside met root runId q n w') (Aside met root runId q n) := by
    intro x hx
    obtain ⟨random', hnonces, hspec⟩ := spec_choose hx hledger False.elim
    rw [hnonces, List.mem_singleton] at hnew
    rw [perform_choose hx, Prog.spec_bind]
    refine ((keeps_aside_choose hx hminted w h).and hspec).mono (fun chosen w₁ ⟨h₁, hchose⟩ => ?_)
      (fun _ _ h₁ => h₁.1) fun _ h₁ => h₁.1
    rw [Prog.spec_bind]
    exact (aside_createRegisteredFile h₁ hV hminted hchose fun he => hnew he.symm).mono
      (fun path w₂ h₂ => aside_pushDurable h₂.1 h₂.2) (fun _ _ h₂ => h₂) fun _ h₂ => h₂
  cases operation with
  | prepareRoot =>
    exact keeps_aside_openRegistry.bind (fun _ => keeps_aside_prepareRoot.bind fun _ => Prog.keeps_pure _) w h
  | stageFile => exact hstage _ rfl
  | stageForPublication => exact hstage _ rfl
  | stageArchive => exact hstage _ rfl
  | publish index destination policy => exact keeps_aside_publish hminted w h
  | release temporary => exact keeps_aside_releaseFile hminted.entry.2 w h
  | cleanup =>
    unfold perform
    rw [Prog.spec_bind, Prog.spec_get]
    split_ifs
    · exact h
    · rw [Prog.spec_bind, Prog.spec_modify]
      have h₁ : Aside met root runId q n { w with cleaned := true } :=
        ⟨h.run, h.listed, h.unowned, h.durable, h.claimed, h.guarded⟩
      exact keeps_aside_cleanupArtifacts.bind (fun _ => Prog.keeps_pure _) _ h₁

/-- **Any sequence of operations with other nonces keeps the entry aside.** -/
theorem aside_run (hV : AsciiCase V) (hminted : Minted V random q) (operations : List Operation)
    (hledger : Ledger False root runId used w) (h : Aside met root runId q n w)
    (hnew : random ∉ noncesOf operations) :
    Prog.Spec (run root operations) w
      (fun _ w' => (∃ used, Ledger False root runId used w') ∧ Aside met root runId q n w') (fun _ _ => False)
      (Aside met root runId q n) := by
  unfold run
  have hloop := Prog.Spec.forEach (E := fun (_ : StagingError) (_ : Machine V) => False)
    (C := Aside met root runId q n)
    (I := fun before after w => before ++ after = operations ∧ (∃ used, Ledger False root runId used w) ∧
      Aside met root runId q n w)
    (f := fun operation => do
      let _ ← (Prog.attempt (perform root operation) : Prog (Machine V) StagingError _))
    (fun before operation after w₁ ⟨he, ⟨used, hl₁⟩, h₁⟩ => ?_) [] operations (s := w) ⟨rfl, ⟨used, hledger⟩, h⟩
  · exact hloop.mono (fun _ _ h' => h'.2) (fun _ _ h' => h') fun _ h' => h'
  · have hoperation : random ∉ operation.nonces := fun hm =>
      hnew (List.mem_flatMap.mpr ⟨operation, by rw [← he]; simp, hm⟩)
    have hnext : before ++ [operation] ++ after = operations := by
      rw [List.append_assoc]
      exact he
    rw [Prog.spec_bind, Prog.spec_attempt]
    exact ((spec_perform operation hl₁ False.elim False.elim).and
      (aside_perform hV hminted operation hl₁ h₁ hoperation)).mono
      (fun _ _ h₂ => ⟨hnext, ⟨_, h₂.1⟩, h₂.2⟩) (fun _ _ h₂ => ⟨hnext, ⟨_, h₂.1⟩, h₂.2⟩) fun _ h₂ => h₂.2

end Cao
