import Cao.Staging.Recover
import Cao.Staging.Confine

/-!
# What the proof of ownership proves

`proveOwnership` only reads; when it goes through, the live tree and the manifest agree both ways.

* `OfKind`, `ControlEntry`, `Pinned`: an entry of the control area with its record, and a pin with the
  record it was taken for;
* `WalkInv`, **`observes_walk`**: the walk of the control area;
* **`observes_validateSibling`**: the siblings;
* `Proven`, **`observes_proveOwnership`**: what holds when the deletion phase begins.
-/

namespace Cao

variable {K : Type} [DecidableEq K] {V : Volume K} {d : Disk V} {manifest : Manifest} {pins pins' : Pins}
variable {stop : CancellationToken}

/-! ## Records and entries -/

/-- An entry of the recorded type, single-linked. -/
def OfKind (directory : Bool) (n : Node Leaf) : Prop :=
  if directory then n = .dir else ∃ data, n = .leaf (.file data 1)

/-- An entry of the control area, and the record or control file it is. -/
def ControlEntry (manifest : Manifest) (pins : Pins) (p : Path) (n : Node Leaf) : Prop :=
  p = controlPath ownerLock ∨ p = controlPath manifestName ∨
  (2 ≤ manifest.version ∧ p = controlPath manifestScratch ∧ OfKind false n ∧
    pins.lookup (.control manifestScratch) = some p) ∨
  ∃ a ∈ manifest.artifacts, a.rootRelative = false ∧ artifactPath a = p ∧ OfKind a.directory n ∧
    pins.lookup (.control a.relative) = some p

/-- A pin, and the record or scratch it was taken for. -/
def Pinned (manifest : Manifest) (d : Disk V) (key : PinKey) (q : Path) : Prop :=
  (key = .control manifestScratch ∧ 2 ≤ manifest.version ∧ q = controlPath manifestScratch ∧
    ∃ data, d.Has q (.leaf (.file data 1))) ∨
  ∃ a ∈ manifest.artifacts, key = PinKey.of a ∧
    ∃ n, d.find (artifactPath a) = some (q, n) ∧ OfKind a.directory n ∧
      (a.rootRelative = false → q = artifactPath a)

/-- Every pin was taken for a record. -/
def PinsSound (manifest : Manifest) (d : Disk V) (pins : Pins) : Prop :=
  ∀ key q, pins.lookup key = some q → Pinned manifest d key q

/-- The control pins stay. -/
def Grows (pins pins' : Pins) : Prop :=
  ∀ t q, pins.lookup (.control t) = some q → pins'.lookup (.control t) = some q

theorem artifactPath_of_control {a : Artifact} (h : a.rootRelative = false) :
    artifactPath a = staging ++ components a.relative := by
  simp [artifactPath, h, staging]

theorem PinKey.of_control {a : Artifact} (h : a.rootRelative = false) :
    PinKey.of a = .control a.relative := by simp [PinKey.of, h]

theorem PinKey.of_sibling {a : Artifact} (h : a.rootRelative = true) :
    PinKey.of a = .sibling a.relative := by simp [PinKey.of, h]

theorem controlPath_eq (name : Text) (h : components name = [OsStr.ofText name]) :
    controlPath name = staging ++ components name := by rw [controlPath, h]

theorem Pinned.control_path {t : Text} {q : Path} (h : Pinned manifest d (.control t) q) :
    q = staging ++ components t := by
  rcases h with ⟨hk, -, rfl, -⟩ | ⟨a, -, hk, n, -, -, hq⟩
  · cases hk
    exact controlPath_eq _ (by decide)
  · cases hr : a.rootRelative with
    | false =>
      rw [PinKey.of_control hr, PinKey.control.injEq] at hk
      rw [hq hr, artifactPath_of_control hr, hk]
    | true => rw [PinKey.of_sibling hr] at hk; cases hk

theorem lookup_cons_pin {key key' : PinKey} {q : Path} :
    List.lookup key ((key', q) :: pins) = if key = key' then some q else pins.lookup key := by
  rw [List.lookup_cons]
  by_cases h : key = key'
  · simp [h]
  · rw [if_neg h, beq_false_of_ne h]

theorem PinsSound.cons (h : PinsSound manifest d pins) {key : PinKey} {q : Path}
    (hq : Pinned manifest d key q) : PinsSound manifest d ((key, q) :: pins) := by
  intro key' q' hl
  rw [lookup_cons_pin] at hl
  split_ifs at hl with he
  · cases hl; rwa [he]
  · exact h key' q' hl

theorem PinsSound.grows (h : PinsSound manifest d pins) {t : Text} {q : Path}
    (hq : Pinned manifest d (.control t) q) : Grows pins ((.control t, q) :: pins) := by
  intro t' q' hl
  rw [lookup_cons_pin]
  split_ifs with he
  · cases he
    rw [hq.control_path, (h _ _ hl).control_path]
  · exact hl

theorem Grows.refl (pins : Pins) : Grows pins pins := fun _ _ h => h

theorem Grows.trans {pins'' : Pins} (h : Grows pins pins') (h' : Grows pins' pins'') :
    Grows pins pins'' := fun t q hl => h' t q (h t q hl)

theorem ControlEntry.grow {p : Path} {n : Node Leaf} (h : ControlEntry manifest pins p n)
    (hg : Grows pins pins') : ControlEntry manifest pins' p n := by
  rcases h with h | h | ⟨hv, hp, hk, hl⟩ | ⟨a, ha, hr, hp, hk, hl⟩
  · exact .inl h
  · exact .inr (.inl h)
  · exact .inr (.inr (.inl ⟨hv, hp, hk, hg _ _ hl⟩))
  · exact .inr (.inr (.inr ⟨a, ha, hr, hp, hk, hg _ _ hl⟩))

theorem components_snoc {pre name : Text} (hn : name ≠ []) (hs : '/' ∉ name) :
    components (if pre = [] then name else pre ++ '/' :: name) =
      components pre ++ [OsStr.ofText name] := by
  have hname : components name = [OsStr.ofText name] := by
    simp [components, List.splitOn_eq_singleton hs, hn]
  split_ifs with hp
  · rw [hp, hname]
    rfl
  · simp [components, splitOn_append_file hs, hn]

theorem expected_lookup {relative : Text} {directory : Bool}
    (h : (expected manifest).lookup relative = some directory) :
    ∃ a ∈ manifest.artifacts, a.rootRelative = false ∧ a.relative = relative ∧
      a.directory = directory := by
  obtain ⟨l₁, l₂, hl, -⟩ := List.lookup_eq_some_iff.mp h
  have hm : (relative, directory) ∈ expected manifest := by rw [hl]; simp
  rw [expected, List.mem_reverse, List.mem_map] at hm
  obtain ⟨a, ha, he⟩ := hm
  rw [List.mem_filter] at ha
  obtain ⟨rfl, rfl⟩ := Prod.mk.inj he
  exact ⟨a, ha.1, by simpa using ha.2, rfl, rfl⟩

/-! ## The walk -/

/-- A directory of the control area that holds a control file in a directory's stead. -/
def Excused (p : Path) : Prop := p = controlPath ownerLock ∨ p = controlPath manifestName

/-- What one entry adds to the walk. -/
structure Stepped (manifest : Manifest) (d : Disk V) (p : Path) (n : Node Leaf)
    (s s' : Pins × List (Path × Text)) : Prop where
  sound : PinsSound manifest d s'.1
  grows : Grows s.1 s'.1
  entry : ControlEntry manifest s'.1 p n
  queued : ∀ x ∈ s'.2, x ∈ s.2 ∨ x.1 = p ∧ n = .dir ∧ p = staging ++ components x.2
  kept : ∀ x ∈ s.2, x ∈ s'.2
  entered : n = .dir → Excused p ∨ ∃ x ∈ s'.2, x.1 = p

theorem observes_walkEntry {directory : Path} {pre : Text} (hdir : directory = staging ++ components pre)
    {entry : OsStr × Node Leaf} (hhas : d.Has (directory ++ [entry.1]) entry.2)
    {s : Pins × List (Path × Text)} (hs : PinsSound manifest d s.1) :
    Observes d (walkEntry stop manifest directory pre s entry)
      (Stepped manifest d (directory ++ [entry.1]) entry.2 s) := by
  obtain ⟨name, node⟩ := entry
  obtain ⟨pins, pending⟩ := s
  dsimp only at hhas hs ⊢
  unfold walkEntry
  refine observes_observe.bind fun _ _ => observes_settle.ioAt.halt.bind fun _ _ => ?_
  dsimp only
  cases hstr : name.toStr with
  | none => exact observes_refuse
  | some text =>
    dsimp only
    obtain rfl := OsStr.eq_ofText_of_toStr hstr
    obtain ⟨hne, hslash, -⟩ := V.component _ (hhas.valid (OsStr.ofText text) (by simp))
    have htext : text ≠ [] := by rintro rfl; exact hne rfl
    have hnot : '/' ∉ text := fun hm => hslash (List.mem_map.mpr ⟨_, hm, rfl⟩)
    -- the record text of the entry names its path
    have hpath : directory ++ [OsStr.ofText text] =
        staging ++ components (if pre = [] then text else pre ++ '/' :: text) := by
      rw [components_snoc htext hnot, hdir, List.append_assoc]
    generalize (if pre = [] then text else pre ++ '/' :: text) = relative at hpath ⊢
    have hfind := hhas.find
    generalize directory ++ [OsStr.ofText text] = path at hpath hfind hhas ⊢
    split_ifs with hcontrol hscratch
    · have hex : Excused path := by
        rcases hcontrol with rfl | rfl
        · exact .inl (hpath.trans (controlPath_eq _ (by decide)).symm)
        · exact .inr (hpath.trans (controlPath_eq _ (by decide)).symm)
      exact observes_pure ⟨hs, .refl _, hex.imp id .inl, fun x hx => .inl hx, fun x hx => hx,
        fun _ => .inl hex⟩
    · obtain ⟨hv, rfl⟩ := hscratch
      have hscr : path = controlPath manifestScratch := hpath.trans (controlPath_eq _ (by decide)).symm
      refine observes_inspect.halt.bind fun o ho => ?_
      rcases o with _ | _ | _
      · exact observes_refuse
      · exact observes_refuse
      · refine observes_openTemporaryFile.opened.halt.bind fun pin hpin => ?_
        obtain ⟨data, hpin⟩ := hpin
        rw [hfind] at hpin
        cases hpin
        have hp : Pinned manifest d (.control manifestScratch) path :=
          .inl ⟨rfl, hv, hscr, data, hhas⟩
        refine observes_pure ⟨hs.cons hp, hs.grows hp, ?_, fun x hx => .inl hx, fun x hx => hx, nofun⟩
        exact .inr (.inr (.inl ⟨hv, hscr, ⟨data, rfl⟩, by rw [lookup_cons_pin, if_pos rfl]⟩))
    · cases hl : (expected manifest).lookup relative with
      | none => exact observes_refuse
      | some recorded =>
        obtain ⟨a, ha, hr, rfl, rfl⟩ := expected_lookup hl
        have hart : artifactPath a = path := by rw [artifactPath_of_control hr, hpath]
        have pinned : OfKind a.directory node → Pinned manifest d (.control a.relative) path :=
          fun hk => .inr ⟨a, ha, (PinKey.of_control hr).symm, node, by rw [hart, hfind], hk,
            fun _ => hart.symm⟩
        have done : OfKind a.directory node →
            ControlEntry manifest ((.control a.relative, path) :: pins) path node := fun hk =>
          .inr (.inr (.inr ⟨a, ha, hr, hart, hk, by rw [lookup_cons_pin, if_pos rfl]⟩))
        refine observes_inspect.halt.bind fun o ho => ?_
        rcases o with _ | _ | _ <;> cases hd : a.directory
        · exact observes_refuse
        · exact observes_refuse
        · exact observes_refuse
        · refine observes_pinDirectory.opened.halt.bind fun pin hpin => ?_
          rw [hfind] at hpin
          cases hpin
          have hk : OfKind a.directory (Node.dir : Node Leaf) := by rw [hd]; rfl
          refine observes_pure ⟨hs.cons (pinned hk), hs.grows (pinned hk), done hk,
            fun x hx => ?_, fun x hx => List.mem_cons_of_mem _ hx, fun _ => .inr ⟨_, List.mem_cons_self, rfl⟩⟩
          rcases List.mem_cons.mp hx with rfl | hx
          · exact .inr ⟨rfl, rfl, hpath⟩
          · exact .inl hx
        · refine observes_openTemporaryFile.opened.halt.bind fun pin hpin => ?_
          obtain ⟨data, hpin⟩ := hpin
          rw [hfind] at hpin
          cases hpin
          have hk : OfKind a.directory (Node.leaf (.file data 1) : Node Leaf) := by
            rw [hd]; exact ⟨data, rfl⟩
          exact observes_pure ⟨hs.cons (pinned hk), hs.grows (pinned hk), done hk,
            fun x hx => .inl hx, fun x hx => hx, nofun⟩
        · exact observes_refuse

/-- What the entries read so far of one directory add to the walk. -/
structure Entered (manifest : Manifest) (d : Disk V) (directory : Path)
    (s : Pins × List (Path × Text)) (before : List (OsStr × Node Leaf))
    (s' : Pins × List (Path × Text)) : Prop where
  sound : PinsSound manifest d s'.1
  grows : Grows s.1 s'.1
  queued : ∀ x ∈ s'.2, x ∈ s.2 ∨ d.Has x.1 .dir ∧ x.1 = staging ++ components x.2
  kept : ∀ x ∈ s.2, x ∈ s'.2
  entries : ∀ e ∈ before, ControlEntry manifest s'.1 (directory ++ [e.1]) e.2 ∧
    (e.2 = .dir → Excused (directory ++ [e.1]) ∨ ∃ x ∈ s'.2, x.1 = directory ++ [e.1])

theorem observes_directory {directory : Path} {pre : Text} (hdir : directory = staging ++ components pre)
    {s : Pins × List (Path × Text)} (hs : PinsSound manifest d s.1) :
    Observes d (Prog.foldEach (walkEntry stop manifest directory pre) s (d.children directory))
      (Entered manifest d directory s (d.children directory)) := by
  have := Observes.foldEach (d := d) (f := walkEntry stop manifest directory pre) (c := s)
    (l := d.children directory) (I := fun before after s' =>
      (∀ e ∈ after, d.Has (directory ++ [e.1]) e.2) ∧ Entered manifest d directory s before s')
    (fun before entry after s' ⟨hafter, h⟩ => ?_)
    ⟨fun e he => PathTree.mem_children.mp he, hs, .refl _, fun x hx => .inl hx, fun x hx => hx, by simp⟩
  · exact this.mono fun _ h => h.2
  refine (observes_walkEntry hdir (hafter _ List.mem_cons_self) h.sound).mono fun s'' h' => ?_
  refine ⟨fun e he => hafter e (List.mem_cons_of_mem _ he), h'.sound, h.grows.trans h'.grows,
    fun x hx => ?_, fun x hx => h'.kept x (h.kept x hx), fun e he => ?_⟩
  · rcases h'.queued x hx with hx | ⟨hp, hn, hc⟩
    · exact h.queued x hx
    · exact .inr ⟨hp ▸ hn ▸ hafter _ List.mem_cons_self, hp ▸ hc⟩
  · rw [List.mem_append, List.mem_singleton] at he
    rcases he with he | rfl
    · obtain ⟨hc, hd⟩ := h.entries e he
      exact ⟨hc.grow h'.grows, fun hn => (hd hn).imp id fun ⟨x, hx, hp⟩ => ⟨x, h'.kept x hx, hp⟩⟩
    · exact ⟨h'.entry, h'.entered⟩

/-- What the walk has entered and what it has queued. -/
structure WalkInv (manifest : Manifest) (d : Disk V) (visited : List Path)
    (s : Pins × List (Path × Text)) : Prop where
  sound : PinsSound manifest d s.1
  queued : ∀ x ∈ s.2, d.Has x.1 .dir ∧ x.1 = staging ++ components x.2
  entries : ∀ v ∈ visited, ∀ a n, d.Has (v ++ [a]) n → ControlEntry manifest s.1 (v ++ [a]) n ∧
    (n = .dir → Excused (v ++ [a]) ∨ v ++ [a] ∈ visited ∨ ∃ x ∈ s.2, x.1 = v ++ [a])
  start : staging ∈ visited ∨ ∃ x ∈ s.2, x.1 = staging

/-- **The walk enters every recorded directory of the control area**, and every entry there is
recorded or a control file. -/
theorem observes_walk {fuel : Nat} {visited : List Path} {s : Pins × List (Path × Text)}
    (hs : WalkInv manifest d visited s) :
    Observes d (walk stop manifest fuel s) fun pins =>
      ∃ visited, WalkInv manifest d visited (pins, []) := by
  induction fuel generalizing visited s with
  | zero =>
    obtain ⟨pins, _ | ⟨⟨directory, pre⟩, pending⟩⟩ := s
    · exact observes_pure ⟨visited, hs⟩
    · exact observes_refuse
  | succ fuel ih =>
    obtain ⟨pins, _ | ⟨⟨directory, pre⟩, pending⟩⟩ := s
    · exact observes_pure ⟨visited, hs⟩
    · obtain ⟨hhas, hdir⟩ := hs.queued _ List.mem_cons_self
      have hread : Observes d (readDir directory) fun l => l = d.children directory :=
        observes_query fun l h => by rw [hhas.find] at h; cases h; rfl
      refine hread.ioAt.halt.bind fun entries hentries => ?_
      subst hentries
      refine (observes_directory hdir (s := (pins, pending)) hs.sound).bind fun s' h => ?_
      -- the directory moves from the queue to the entered ones
      have next : WalkInv manifest d (directory :: visited) s' := by
        refine ⟨h.sound, fun x hx => ?_, fun v hv a n ha => ?_, ?_⟩
        · rcases h.queued x hx with hx | hx
          · exact hs.queued x (List.mem_cons_of_mem _ hx)
          · exact hx
        · rcases List.mem_cons.mp hv with rfl | hv
          · obtain ⟨hc, hd⟩ := h.entries (a, n) (PathTree.mem_children.mpr ha)
            exact ⟨hc, fun hn => (hd hn).imp id .inr⟩
          · obtain ⟨hc, hd⟩ := hs.entries v hv a n ha
            refine ⟨hc.grow h.grows, fun hn => ?_⟩
            rcases hd hn with hd | hd | ⟨x, hx, hp⟩
            · exact .inl hd
            · exact .inr (.inl (List.mem_cons_of_mem _ hd))
            · rcases List.mem_cons.mp hx with rfl | hx
              · exact .inr (.inl (hp ▸ List.mem_cons_self))
              · exact .inr (.inr ⟨x, h.kept x hx, hp⟩)
        · rcases hs.start with hv | ⟨x, hx, hp⟩
          · exact .inl (List.mem_cons_of_mem _ hv)
          · rcases List.mem_cons.mp hx with rfl | hx
            · exact .inl (hp ▸ List.mem_cons_self)
            · exact .inr ⟨x, h.kept x hx, hp⟩
      exact ih next

/-- An ordinary single-link file stands where `p` names it. -/
def OrdinaryFile (d : Disk V) (p : Path) (data : Bytes) : Prop :=
  ∃ q, d.find p = some (q, .leaf (.file data 1))

theorem Excused.not_dir {p : Path} (h : Excused p) {data data' : Bytes}
    (hlock : OrdinaryFile d (controlPath ownerLock) data)
    (hman : OrdinaryFile d (controlPath manifestName) data') : ¬ d.Has p .dir := by
  intro hp
  have hf := hp.find
  rcases h with rfl | rfl
  · obtain ⟨q, hq⟩ := hlock
    rw [hq] at hf
    cases hf
  · obtain ⟨q, hq⟩ := hman
    rw [hq] at hf
    cases hf

/-- A finished walk has entered every directory of the area. -/
theorem WalkInv.visits {visited : List Path} (h : WalkInv manifest d visited (pins, []))
    {data data' : Bytes} (hlock : OrdinaryFile d (controlPath ownerLock) data)
    (hman : OrdinaryFile d (controlPath manifestName) data') {p : Path} (hp : d.IsDir (staging ++ p)) :
    staging ++ p ∈ visited := by
  have hstart : staging ∈ visited := h.start.resolve_right fun ⟨x, hx, _⟩ => List.not_mem_nil hx
  induction p using List.reverseRecOn with
  | nil => rwa [List.append_nil]
  | append_singleton p a ih =>
    rw [← List.append_assoc] at hp ⊢
    have hhas : d.Has (staging ++ p ++ [a]) .dir := hp.resolve_left (by simp)
    have hv := ih (hhas.above (by simp))
    rcases (h.entries _ hv a _ hhas).2 rfl with hex | hm | ⟨x, hx, -⟩
    · exact absurd hhas (hex.not_dir hlock hman)
    · exact hm
    · exact absurd hx List.not_mem_nil

/-- Every entry of the area is recorded or a control file. -/
theorem WalkInv.complete {visited : List Path} (h : WalkInv manifest d visited (pins, []))
    {data data' : Bytes} (hlock : OrdinaryFile d (controlPath ownerLock) data)
    (hman : OrdinaryFile d (controlPath manifestName) data') {p : Path} {n : Node Leaf} (hp : p ≠ [])
    (hhas : d.Has (staging ++ p) n) : ControlEntry manifest pins (staging ++ p) n := by
  obtain ⟨p, a, rfl⟩ := List.eq_nil_or_concat p |>.resolve_left hp
  rw [List.concat_eq_append, ← List.append_assoc] at hhas ⊢
  exact (h.entries _ (h.visits hlock hman (hhas.above (by simp))) a n hhas).1

/-! ## The siblings -/

/-- What the siblings read so far add. -/
structure SiblingInv (manifest : Manifest) (d : Disk V) (pins : Pins) (before : List Artifact)
    (pins' : Pins) : Prop where
  sound : PinsSound manifest d pins'
  grows : Grows pins pins'
  found : ∀ a ∈ before, ∀ q n, d.find (artifactPath a) = some (q, n) →
    (∃ data, n = .leaf (.file data 1)) ∧ pins'.lookup (PinKey.of a) = some q

/-- **A sibling that is there is an ordinary file, and pinned.** -/
theorem observes_validateSibling {before : List Artifact} {a : Artifact} {s : Pins × List Path}
    (ha : a ∈ manifest.artifacts) (hr : a.rootRelative = true) (hd : a.directory = false)
    (hb : ∀ b ∈ before, b.rootRelative = true) (hs : SiblingInv manifest d pins before s.1) :
    Observes d (validateSibling stop s a) fun s' => SiblingInv manifest d pins (before ++ [a]) s'.1 := by
  obtain ⟨pins₁, parentPins⟩ := s
  have absent : d.find (artifactPath a) = none → SiblingInv manifest d pins (before ++ [a]) pins₁ :=
    fun hnone => ⟨hs.sound, hs.grows, fun b hbm q n hq => by
      rw [List.mem_append, List.mem_singleton] at hbm
      rcases hbm with hbm | rfl
      · exact hs.found b hbm q n hq
      · rw [hnone] at hq; cases hq⟩
  unfold validateSibling
  refine observes_observe.bind fun _ _ => ?_
  refine observes_pinParentsFrom.halt.bind fun r hparent => ?_
  obtain ⟨parentPins', found⟩ := r
  refine (observes_ofExcept (R := fun b => found = .ok b) fun b hb => hb).halt.bind fun b hfound => ?_
  subst hfound
  cases b with
  | false =>
    refine observes_pure (absent ?_)
    have hnone : d.find (artifactPath a).dropLast = none := by simpa using hparent rfl
    rcases List.eq_nil_or_concat (artifactPath a) with h0 | ⟨p, c, hp⟩
    · rw [h0] at hnone; cases hnone
    · rw [hp, List.concat_eq_append] at hnone ⊢
      rw [List.dropLast_concat] at hnone
      exact PathTree.find_append_eq_none hnone [c]
  | true =>
    simp only [Bool.not_true, Bool.false_eq_true, if_false]
    refine (observes_query (R := fun _ => True) fun _ _ => trivial).ioAt.halt.bind fun resolved _ => ?_
    split_ifs
    · exact observes_refuse
    refine observes_inspect.halt.bind fun o ho => ?_
    rcases o with _ | _ | _
    · exact observes_pure (absent ho)
    · exact observes_refuse
    · refine observes_openTemporaryFile.opened.halt.bind fun pin hpin => observes_pure ?_
      obtain ⟨data, hpin⟩ := hpin
      have hkey : Pinned manifest d (PinKey.of a) pin :=
        .inr ⟨a, ha, rfl, _, hpin, by rw [hd]; exact ⟨data, rfl⟩, fun h => by rw [hr] at h; cases h⟩
      refine ⟨hs.sound.cons hkey, fun t q hl => ?_, fun b hbm q n hq => ?_⟩
      · rw [lookup_cons_pin, if_neg (by rw [PinKey.of_sibling hr]; intro he; cases he)]
        exact hs.grows t q hl
      · have same : PinKey.of b = PinKey.of a → b.rootRelative = true → q = pin ∧
            n = .leaf (.file data 1) := fun hk hbr => by
          rw [PinKey.of_sibling hbr, PinKey.of_sibling hr, PinKey.sibling.injEq] at hk
          have hpath : artifactPath b = artifactPath a := by simp [artifactPath, hbr, hr, hk]
          rw [hpath, hpin] at hq
          cases hq
          exact ⟨rfl, rfl⟩
        rw [lookup_cons_pin]
        rw [List.mem_append, List.mem_singleton] at hbm
        rcases hbm with hbm | rfl
        · obtain ⟨hn, hl⟩ := hs.found b hbm q n hq
          split_ifs with hk
          · exact ⟨hn, by rw [(same hk (hb b hbm)).1]⟩
          · exact ⟨hn, hl⟩
        · obtain ⟨rfl, rfl⟩ := same rfl hr
          exact ⟨⟨data, rfl⟩, if_pos rfl⟩

/-! ## What holds when the deletion phase begins -/

/-- The live tree agrees with the manifest, and every present recorded entry is pinned. -/
structure Proven (manifest : Manifest) (d : Disk V) (pins : Pins) : Prop where
  area : d.Has staging .dir
  sound : PinsSound manifest d pins
  entries : ∀ p n, p ≠ [] → d.Has (staging ++ p) n → ControlEntry manifest pins (staging ++ p) n
  siblings : ∀ a ∈ manifest.artifacts, a.rootRelative = true → ∀ q n,
    d.find (artifactPath a) = some (q, n) →
      (∃ data, n = .leaf (.file data 1)) ∧ pins.lookup (PinKey.of a) = some q

theorem observes_validateTree {data data' : Bytes} (harea : d.Has staging .dir)
    (hlock : OrdinaryFile d (controlPath ownerLock) data)
    (hman : OrdinaryFile d (controlPath manifestName) data')
    (hsib : ∀ a ∈ manifest.artifacts, a.rootRelative = true → a.directory = false) :
    Observes d (validateTree stop manifest) (Proven manifest d) := by
  unfold validateTree
  refine (Observes.forEach (Q := fun _ => True) (fun _ => observes_observe) _).bind fun _ _ => ?_
  intro w hw
  rw [Prog.spec_bind, Prog.spec_get]
  revert w
  show ∀ w : Machine V, w.disk = d → _
  have hstart : WalkInv manifest d [] ([], [(staging, [])]) :=
    ⟨nofun, by simpa using ⟨harea, rfl⟩, by simp, .inr ⟨_, List.mem_cons_self, rfl⟩⟩
  intro w hw
  refine ((observes_walk hstart).bind fun pins ⟨visited, hwalk⟩ => ?_) w hw
  have hfold := Observes.foldEach (d := d) (f := validateSibling stop) (c := (pins, []))
    (l := manifest.artifacts.filter fun a => a.rootRelative) (I := fun before after s =>
      (∀ a ∈ before ++ after, a ∈ manifest.artifacts ∧ a.rootRelative = true) ∧
        SiblingInv manifest d pins before s.1)
    (fun before a after s ⟨hmem, h⟩ => ?_) ?_
  · refine hfold.bind fun s ⟨_, hs⟩ => observes_pure ⟨harea, hs.sound, fun p n hp hn => ?_,
      fun a ha hr q n hq => hs.found a (List.mem_filter.mpr ⟨ha, hr⟩) q n hq⟩
    exact (hwalk.complete hlock hman hp hn).grow hs.grows
  · obtain ⟨ha, hr⟩ := hmem a (by simp)
    refine (observes_validateSibling ha hr (hsib a ha hr)
      (fun b hb => (hmem b (List.mem_append_left _ hb)).2) h).mono fun s' h' => ⟨fun b hb => ?_, h'⟩
    exact hmem b (by simpa using hb)
  · exact ⟨fun a ha => by simpa using ha, hwalk.sound, .refl _, by simp⟩

theorem observes_pinManifest {p : Path} :
    Observes d (pinManifest p) fun _ => ∃ data, OrdinaryFile d p data := by
  refine observes_lookup.mapError.bind fun e he => observes_settle.ioAt.bind fun _ _ => ?_
  obtain ⟨q, n⟩ := e
  dsimp only
  split
  · next data => exact observes_pure ⟨data, q, he⟩
  · exact observes_fail

theorem observes_claimExistingLock {p : Path} :
    Observes d (claimExistingLock p) fun _ => True := by
  refine observes_lookup.mapError.bind fun e _ => observes_settle.mapError.bind fun _ _ => ?_
  obtain ⟨q, n⟩ := e
  dsimp only
  split
  · exact observes_pure trivial
  · exact observes_fail

/-- The manifest `parse_manifest` reads at `p`. -/
def ReadsAs (d : Disk V) (root : Text) (p : Path) (manifest : Manifest) : Prop :=
  ∃ q data links polls, d.find p = some (q, .leaf (.file data links)) ∧
    data.length ≤ manifestByteLimit ∧ parseManifest data root polls = .ok manifest

theorem observes_readManifest {root : Text} {p : Path} :
    Observes d (readManifest stop p root) (ReadsAs d root p) := by
  unfold readManifest
  have hread : Observes d (readFile p) fun data => ∃ q links,
      d.find p = some (q, .leaf (.file data links)) := observes_query fun data h => by
    split at h
    · next q data' links hf => cases h; exact ⟨q, links, hf⟩
    · cases h
    · cases h
  refine hread.ioAt.halt.bind fun data hdata => ?_
  obtain ⟨q, links, hf⟩ := hdata
  split_ifs with hlen
  · exact observes_refuse
  · refine Observes.mapError fun w hw => ?_
    unfold Prog.Spec parsePolled
    dsimp only
    cases hp : parseManifest data root _ with
    | ok manifest => exact ⟨rfl, q, data, links, _, hf, by omega, hp⟩
    | error e => rfl

omit [DecidableEq K] in
/-- The staging-like names of the Mod Root are all collected. -/
theorem observes_collectUnknown :
    Observes d (Prog.foldEach (collectUnknown stop) [] (d.children [])) fun unknown => ∀ e ∈ d.children [], isStagingName e.1 = true → e.1 ≠ OsStr.ofText stagingDirectory →
      [e.1] ∈ unknown := by
  refine Observes.foldEach (I := fun (before : List (OsStr × Node Leaf)) _ (unknown : List Path) =>
    ∀ e ∈ before, isStagingName e.1 = true → e.1 ≠ OsStr.ofText stagingDirectory → [e.1] ∈ unknown)
    (fun before e after unknown h => ?_) (by simp)
  refine observes_observe.bind fun _ _ => observes_settle.ioAt.halt.bind fun _ _ => ?_
  split_ifs with he
  · refine observes_pure fun b hb hs hne => ?_
    rw [List.mem_append, List.mem_singleton] at hb ⊢
    rcases hb with hb | rfl
    · exact .inl (h b hb hs hne)
    · exact .inr rfl
  · refine observes_pure fun b hb hs hne => ?_
    rw [List.mem_append, List.mem_singleton] at hb
    rcases hb with hb | rfl
    · exact h b hb hs hne
    · exact absurd ⟨hs, hne⟩ he

omit [DecidableEq K] in
theorem observes_checkUnknown {path : Path} : Observes d (checkUnknown manifest path) fun _ =>
    ∃ a ∈ manifest.artifacts, a.rootRelative = true ∧ artifactPath a = path := by
  unfold checkUnknown
  split_ifs with h
  · rw [List.any_eq_true] at h
    obtain ⟨a, ha, h⟩ := h
    exact observes_pure ⟨a, ha, by simpa using h⟩
  · exact observes_refuse

theorem AdmittedFrom.mem {header : Header} {l : List Artifact} {index : Nat} {records : Records}
    (h : AdmittedFrom header index records l) {a : Artifact} (ha : a ∈ l) :
    ∃ index records, Admitted header index records a := by
  induction l generalizing index records with
  | nil => cases ha
  | cons b l ih =>
    rcases List.mem_cons.mp ha with rfl | ha
    · exact ⟨index, records, h.1⟩
    · exact ih h.2 ha

/-- The name of a generated sibling is longer than the reserved directory's. -/
theorem IsSiblingName.length {runId file : Text} (h : IsSiblingName runId file) :
    stagingDirectory.length < file.length := by
  obtain ⟨extension, assetPrefix, nonce, hp, -, rfl⟩ := h
  have hlong : stagingDirectory.length < assetPrefix.length := by
    have hm := stagingPrefix_eq_some hp
    simp only [List.mem_cons, Prod.mk.injEq, List.not_mem_nil, or_false] at hm
    rcases hm with ⟨-, rfl⟩ | ⟨-, rfl⟩ | ⟨-, rfl⟩ | ⟨-, rfl⟩ | ⟨-, rfl⟩ <;> decide
  simp only [List.length_append]
  omega

omit [DecidableEq K] in
/-- No sibling record names the reserved directory, in any spelling the volume takes for it. -/
theorem staging_exact {header : Header} {index : Nat} {records : Records} {a : Artifact} {name : OsStr}
    (h : Admitted header index records a) (hr : a.rootRelative = true) (hp : artifactPath a = [name])
    (hf : V.fold name = V.fold (OsStr.ofText stagingDirectory)) : False := by
  obtain ⟨-, -, parents, file, hname, -, hpath⟩ := h.sibling hr
  rw [hp] at hpath
  have hparents : parents = [] := by
    have := congrArg List.length hpath
    simpa using this
  rw [hparents] at hpath
  have hlen := V.length _ _ hf
  have hfile : name = OsStr.ofText file := by simpa using hpath
  rw [hfile, OsStr.ofText, OsStr.ofText, List.length_map, List.length_map] at hlen
  exact absurd hlen (Nat.ne_of_gt hname.length)

/-- **The proof of ownership**: with no reserved directory there is nothing to recover; otherwise the
manifest there was accepted, and the tree agrees with it. -/
theorem observes_proveArea {root : Text} : Observes d (proveArea stop root) fun o =>
    match o with
    | none => d.find staging = none
    | some (manifest, pins) =>
      ReadsAs d root (controlPath manifestName) manifest ∧ Proven manifest d pins := by
  unfold proveArea
  refine observes_pinDirectory.opened.halt.bind fun _ _ => ?_
  have hread : Observes d (readDir []) fun l => l = d.children [] :=
    observes_query fun l h => by rw [PathTree.find_root] at h; cases h; rfl
  refine hread.ioAt.halt.bind fun entries hentries => ?_
  subst hentries
  refine observes_collectUnknown.bind fun unknown hunknown => ?_
  refine observes_inspect.halt.bind fun o ho => ?_
  rcases o with _ | _ | _
  · cases hu : unknown.head? with
    | none => exact observes_pure ho
    | some path => exact observes_refuse
  · refine observes_pinDirectory.opened.halt.bind fun _ _ => observes_inspect.halt.bind fun o hlock => ?_
    rcases o with _ | _ | _
    · exact observes_refuse
    · exact observes_refuse
    · obtain ⟨q, data, hlock⟩ := hlock
      refine observes_claimExistingLock.halt.bind fun _ _ => ?_
      refine observes_pinManifest.halt.bind fun _ ⟨data', hman⟩ => ?_
      refine observes_readManifest.bind fun manifest hmanifest => ?_
      refine (Observes.forEach (fun _ => observes_checkUnknown) unknown).bind fun _ hchecked => ?_
      obtain ⟨_, _, _, _, -, -, hparse⟩ := id hmanifest
      obtain ⟨header, _, -, -, -, hadmitted⟩ := parseManifest_sound hparse
      have hsib : ∀ a ∈ manifest.artifacts, a.rootRelative = true → a.directory = false :=
        fun a ha hr => by
          obtain ⟨_, _, had⟩ := hadmitted.mem ha
          exact (had.sibling hr).regular
      have harea : d.Has staging .dir := by
        obtain ⟨q, hq⟩ := ho
        obtain ⟨hhas, hfold⟩ := (PathTree.find_eq_some (by simp [staging])).mp hq
        obtain ⟨name, rfl⟩ : ∃ name, q = [name] := by
          have := congrArg List.length hfold
          rw [List.length_map, List.length_map] at this
          exact List.length_eq_one_iff.mp this
        have hname : V.fold name = V.fold (OsStr.ofText stagingDirectory) := by
          simpa [staging] using hfold
        by_cases heq : name = OsStr.ofText stagingDirectory
        · rw [heq] at hhas
          exact hhas
        · -- another spelling would be an unknown name that a sibling record owns
          have hstaging : isStagingName name = true := by rw [V.staging _ _ hname]; decide
          have hmem := hunknown (name, .dir) (PathTree.mem_children.mpr hhas) hstaging heq
          obtain ⟨a, ha, hr, hp⟩ := hchecked _ hmem
          obtain ⟨_, _, had⟩ := hadmitted.mem ha
          exact (staging_exact had hr hp hname).elim
      exact (observes_validateTree harea ⟨q, hlock⟩ hman hsib).bind fun pins hpins =>
        observes_pure ⟨hmanifest, hpins⟩
  · exact observes_refuse

end Cao
