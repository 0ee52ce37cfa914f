import Cao.Staging.Prove

/-!
# Recovery is fail-closed and exact

* `Shrunk`, `spec_change`: a step of the deletion phase;
* `keys_nodup`, **`child_processed`**: no two records share a pin, and in reverse registration order a
  directory's entries come before it;
* `Removing`, **`spec_removeStep`**: the loop's invariant and its step;
* **`recover_fail_closed_exact`**: a failure before the deletion phase changes nothing; success deletes
  the present recorded entries and the scratch, and nothing else; no removal meets a non-empty
  directory.
-/

namespace Cao

variable {K : Type} [DecidableEq K] {V : Volume K} {d : Disk V} {manifest : Manifest} {pins pins' : Pins}
variable {stop : CancellationToken}
variable {header : Header} {l : List Artifact}

/-! ## Steps -/

/-- Nothing but the tree and the tape changed. -/
def Shrunk (w w' : Machine V) : Prop := w' = { w with disk := w'.disk, tape := w'.tape }

omit [DecidableEq K] in
theorem Same.shrunk {w w' : Machine V} (h : Same w w') : Shrunk w w' := by
  unfold Shrunk
  rw [h]

omit [DecidableEq K] in
theorem Shrunk.trans {w₁ w₂ w₃ : Machine V} (h : Shrunk w₁ w₂) (h' : Shrunk w₂ w₃) : Shrunk w₁ w₃ := by
  unfold Shrunk at *
  rw [h', h]

omit [DecidableEq K] in
theorem spec_change {α : Type} {f : Disk V → Except IoError (α × Disk V)} {w : Machine V} :
    Prog.Spec (change f) w (fun a w' => Shrunk w w' ∧ f w.disk = .ok (a, w'.disk))
      (fun e w' => Same w w' ∧ (e = .fault ∨ f w.disk = .error e)) (Same w) := by
  unfold Prog.Spec change step
  rcases htape : w.tape with _ | ⟨_ | _ | _, tape⟩ <;> simp only
  · cases hf : f w.disk with
    | ok a => exact ⟨rfl, rfl⟩
    | error e => exact ⟨rfl, .inr rfl⟩
  · cases hf : f w.disk with
    | ok a => exact ⟨rfl, rfl⟩
    | error e => exact ⟨rfl, .inr rfl⟩
  · exact ⟨rfl, .inl trivial⟩
  · rfl

omit [DecidableEq K] in
theorem spec_query {α : Type} {f : Disk V → Except IoError α} {w : Machine V} :
    Prog.Spec (query f) w (fun a w' => Same w w' ∧ f w.disk = .ok a)
      (fun e w' => Same w w' ∧ (e = .fault ∨ f w.disk = .error e)) (Same w) := by
  unfold Prog.Spec query step
  rcases htape : w.tape with _ | ⟨_ | _ | _, tape⟩ <;> simp only
  · cases hf : f w.disk with
    | ok a => exact ⟨rfl, rfl⟩
    | error e => exact ⟨rfl, .inr rfl⟩
  · cases hf : f w.disk with
    | ok a => exact ⟨rfl, rfl⟩
    | error e => exact ⟨rfl, .inr rfl⟩
  · exact ⟨rfl, .inl trivial⟩
  · rfl

omit [DecidableEq K] in
theorem spec_observe {w : Machine V} : Prog.Spec (observe stop) w (fun _ w' => Same w w')
    (fun e w' => Same w w' ∧ e = .cancelled) (Same w) := by
  cases stop
  · exact rfl
  · rw [observe, Prog.spec_mapError]
    exact spec_query.mono (fun _ _ h => h.1) (fun _ _ h => ⟨h.1, rfl⟩) fun _ h => h

/-! ## The order of the records -/

omit [DecidableEq K] in
theorem pinKey_injOn {a b : Artifact} (h : PinKey.of a = PinKey.of b) :
    a.rootRelative = b.rootRelative ∧ a.relative = b.relative := by
  cases ha : a.rootRelative <;> cases hb : b.rootRelative <;> simp [PinKey.of, ha, hb] at h ⊢
  · exact h
  · exact h

/-- The records of an admitted list have distinct pins. -/
theorem keys_nodup (h : AdmittedFrom header 0 ⟨[], [], []⟩ l) : (l.map PinKey.of).Nodup := by
  obtain ⟨hc, hs⟩ := nodup_of_admitted h
  have hperm := (List.filter_append_perm (fun a : Artifact => !a.rootRelative) l).map PinKey.of
  rw [← hperm.nodup_iff, List.map_append, List.nodup_append]
  refine ⟨?_, ?_, ?_⟩
  · rw [List.map_congr_left (g := PinKey.control ∘ Artifact.relative) fun a ha => by
      rw [Function.comp_apply, PinKey.of_control (by simpa using (List.mem_filter.mp ha).2)],
      ← List.map_map]
    exact hc.map fun _ _ he => PinKey.control.inj he
  · simp only [Bool.not_not]
    rw [List.map_congr_left (g := PinKey.sibling ∘ Artifact.relative) fun a ha => by
      rw [Function.comp_apply, PinKey.of_sibling (List.mem_filter.mp ha).2], ← List.map_map]
    exact hs.map fun _ _ he => PinKey.sibling.inj he
  · rintro key hka _ hkb rfl
    obtain ⟨a, ha, hea⟩ := List.mem_map.mp hka
    obtain ⟨b, hb, heb⟩ := List.mem_map.mp hkb
    have ha' : a.rootRelative = false := by simpa using (List.mem_filter.mp ha).2
    have hb' : b.rootRelative = true := by simpa using (List.mem_filter.mp hb).2
    rw [← (pinKey_injOn (hea.trans heb.symm)).1, ha'] at hb'
    cases hb'

/-- The record a pin key belongs to. -/
theorem eq_of_key (h : AdmittedFrom header 0 ⟨[], [], []⟩ l) {a b : Artifact} (ha : a ∈ l) (hb : b ∈ l)
    (he : PinKey.of a = PinKey.of b) : a = b := List.inj_on_of_nodup_map (keys_nodup h) ha hb he

theorem components_injective {a b : Text} (ha : safeRelativeName a = true)
    (hb : safeRelativeName b = true) (h : components a = components b) : a = b := by
  rw [components_of_safe ha, components_of_safe hb] at h
  have hsplit := List.map_injective_iff.mpr OsStr.ofText_injective h
  have := congrArg ['/'].intercalate hsplit
  rwa [List.intercalate_splitOn, List.intercalate_splitOn] at this

/-- The control record at a path. -/
theorem eq_of_path (h : AdmittedFrom header 0 ⟨[], [], []⟩ l) {a b : Artifact} (ha : a ∈ l) (hb : b ∈ l)
    (har : a.rootRelative = false) (hbr : b.rootRelative = false)
    (he : artifactPath a = artifactPath b) : a = b := by
  obtain ⟨_, _, hsa, -⟩ := h.mem ha
  obtain ⟨_, _, hsb, -⟩ := h.mem hb
  rw [artifactPath_of_control har, artifactPath_of_control hbr] at he
  have hrel := components_injective hsa hsb (List.append_cancel_left he)
  exact eq_of_key h ha hb (by rw [PinKey.of_control har, PinKey.of_control hbr, hrel])

/-- A control record stands at the run child or below it. -/
theorem control_path_length (hc : IsRunChild header.runId header.child)
    (h : AdmittedFrom header 0 ⟨[], [], []⟩ l) {a : Artifact} (ha : a ∈ l)
    (hr : a.rootRelative = false) : ∃ parts, artifactPath a = stagingPath (header.child :: parts) := by
  obtain ⟨hs, parts, hb, -⟩ := below_of_admitted hc h a ha hr
  exact ⟨parts, by rw [artifactPath_control hs hr, hb]⟩

/-- **In reverse registration order the entries of a directory come before it.** -/
theorem child_processed (hc : IsRunChild header.runId header.child)
    (h : AdmittedFrom header 0 ⟨[], [], []⟩ l) {before after : List Artifact} {a b : Artifact}
    (hl : before ++ a :: after = l.reverse) (hb : b ∈ l) (har : a.rootRelative = false)
    (hbr : b.rootRelative = false) {c : OsStr} (hpath : artifactPath b = artifactPath a ++ [c]) :
    b ∈ before := by
  have hl' : l = after.reverse ++ a :: before.reverse := by
    rw [← List.reverse_reverse l, ← hl]
    simp
  have ha : a ∈ l := by rw [hl']; simp
  have hnodup : l.Nodup := (keys_nodup h).of_map
  obtain ⟨pa, hpa⟩ := control_path_length hc h ha har
  rw [hl'] at hb
  rcases List.mem_append.mp hb with hb | hb
  · -- a record of `after` has its ancestors before it, and the directory comes after it
    obtain ⟨m₁, m₂, hm⟩ := List.append_of_mem hb
    have hlist : l = m₁ ++ b :: (m₂ ++ a :: before.reverse) := by rw [hl', hm]; simp
    have hconf := confinedTo_of_admitted hc (by rw [hlist]; simp) h
    have hbmem : b ∈ l := by rw [hlist]; simp
    have hm₁ : m₁ ≠ [] := by
      rintro rfl
      have hfirst := hconf.first.1
      rw [hlist] at hfirst
      cases hfirst
      have := congrArg List.length (hconf.first.2.symm.trans hpath)
      rw [hpa] at this
      simp [stagingPath] at this
    rcases hconf.later m₁ b _ hlist hm₁ with hrec | hrec
    · obtain ⟨-, parts, hne, -, hparts, hanc⟩ := hrec
      have hpos := List.length_pos_iff.mpr hne
      obtain ⟨a', ha', har', -, hpa'⟩ := hanc (parts.length - 1) (by omega)
      have hdrop : artifactPath a' = artifactPath a := by
        have := congrArg List.dropLast (hparts.symm.trans hpath)
        rw [List.dropLast_concat] at this
        rw [hpa', ← this, stagingPath, stagingPath, ← List.map_dropLast, List.dropLast_cons_of_ne_nil
          (by simp), List.dropLast_cons_of_ne_nil hne, List.dropLast_eq_take]
      obtain rfl := eq_of_path h (by rw [hlist]; exact List.mem_append_left _ ha') ha har' har hdrop
      rw [hlist] at hnodup
      exact absurd rfl ((List.nodup_append.mp hnodup).2.2 a' ha' a' (by simp))
    · rw [hrec.sibling] at hbr; cases hbr
  · rcases List.mem_cons.mp hb with rfl | hb
    · have := congrArg List.length hpath
      simp at this
    · exact List.mem_reverse.mp hb

theorem control_ne_scratch (hc : IsRunChild header.runId header.child)
    (h : AdmittedFrom header 0 ⟨[], [], []⟩ l) {a : Artifact} (ha : a ∈ l) :
    PinKey.of a ≠ .control manifestScratch := by
  intro he
  cases hr : a.rootRelative with
  | true => rw [PinKey.of_sibling hr] at he; cases he
  | false =>
    rw [PinKey.of_control hr, PinKey.control.injEq] at he
    obtain ⟨hs, parts, hb, -⟩ := below_of_admitted hc h a ha hr
    obtain ⟨-, nonce, -, hchild⟩ := hc
    rw [he, show manifestScratch.splitOn '/' = [manifestScratch] by decide, hchild] at hb
    have hname : manifestScratch.take 4 = "run-".toList := by
      rw [(List.cons.inj hb).1, List.append_assoc, List.append_assoc]
      exact List.take_left' (by decide)
    exact absurd hname (by decide)

/-! ## The deletion phase -/

/-- The entries the deletion phase may remove: the scratch and the recorded ones. -/
def Owned (manifest : Manifest) (d : Disk V) (p : Path) : Prop :=
  (2 ≤ manifest.version ∧ ∃ n, d.find (controlPath manifestScratch) = some (p, n)) ∨
    ∃ a ∈ manifest.artifacts, ∃ n, d.find (artifactPath a) = some (p, n)

theorem Pinned.owned {key : PinKey} {q : Path} (h : Pinned manifest d key q) : Owned manifest d q := by
  rcases h with ⟨-, hv, rfl, data, hq⟩ | ⟨a, ha, -, n, hf, -⟩
  · exact .inl ⟨hv, _, hq.find⟩
  · exact .inr ⟨a, ha, n, hf⟩

/-- A removal failed on a directory that was not empty. -/
def Blocked : Halt → Prop
  | .recoveryFailed _ (.io _ _ .notEmpty) => True
  | _ => False

/-- The state inside the deletion loop: `before` are the records done, `after` those left. -/
structure Removing (manifest : Manifest) (d : Disk V) (pins : Pins) (w₀ : Machine V)
    (before after : List Artifact) (left : Pins) (w : Machine V) : Prop where
  order : before ++ after = manifest.artifacts.reverse
  frame : Shrunk w₀ w
  disk : ∀ p n, w.disk.Has p n ↔ d.Has p n ∧ pins.lookup (.control manifestScratch) ≠ some p ∧
    ∀ a ∈ before, pins.lookup (PinKey.of a) ≠ some p
  pins : ∀ a ∈ after, left.lookup (PinKey.of a) = pins.lookup (PinKey.of a)

/-- However far the deletion phase got, what is gone was owned. -/
structure Partial (manifest : Manifest) (d : Disk V) (w₀ w : Machine V) : Prop where
  frame : Shrunk w₀ w
  kept : ∀ p n, d.Has p n → w.disk.Has p n ∨ Owned manifest d p
  old : ∀ p n, w.disk.Has p n → d.Has p n

variable {w₀ w w' : Machine V} {before after : List Artifact} {a : Artifact} {left : Pins}

theorem Removing.toPartial (hs : PinsSound manifest d pins)
    (h : Removing manifest d pins w₀ before after left w) : Partial manifest d w₀ w := by
  refine ⟨h.frame, fun p n hp => ?_, fun p n hp => ((h.disk p n).mp hp).1⟩
  by_cases ho : Owned manifest d p
  · exact .inr ho
  · refine .inl ((h.disk p n).mpr ⟨hp, fun hl => ho (hs _ _ hl).owned, fun a _ hl => ?_⟩)
    exact ho (hs _ _ hl).owned

omit [DecidableEq K] in
theorem Removing.same (h : Removing manifest d pins w₀ before after left w) (hw : Same w w') :
    Removing manifest d pins w₀ before after left w' :=
  ⟨h.order, h.frame.trans hw.shrunk, fun p n => by rw [hw.disk]; exact h.disk p n, h.pins⟩

theorem lookup_remove {key key' : PinKey} (h : key ≠ key') :
    (pins.remove key').lookup key = pins.lookup key := by
  unfold Pins.remove
  induction pins with
  | nil => rfl
  | cons x pins ih =>
    obtain ⟨k, q⟩ := x
    rw [List.filter_cons]
    split_ifs with hk
    · rw [lookup_cons_pin, lookup_cons_pin, ih]
    · have hk' : k = key' := by simpa using hk
      rw [lookup_cons_pin, if_neg (by rw [hk']; exact h), ih]

omit [DecidableEq K] in
/-- The entry of the record being removed goes. -/
theorem Removing.removed (hnodup : (manifest.artifacts.map PinKey.of).Nodup)
    (h : Removing manifest d pins w₀ before (a :: after) left w) {pin : Path}
    (hpin : pins.lookup (PinKey.of a) = some pin) (hw : Shrunk w w')
    (herase : w.disk.erase pin = some w'.disk) :
    Removing manifest d pins w₀ (before ++ [a]) after (left.remove (PinKey.of a)) w' := by
  refine ⟨by rw [List.append_assoc]; exact h.order, h.frame.trans hw, fun p n => ?_, fun b hb => ?_⟩
  · rw [PathTree.has_erase herase, h.disk]
    simp only [List.mem_append, List.mem_singleton]
    constructor
    · rintro ⟨⟨hd, hscratch, hbefore⟩, hne⟩
      refine ⟨hd, hscratch, ?_⟩
      rintro b (hb | rfl)
      · exact hbefore b hb
      · rw [hpin]
        exact fun he => hne (Option.some.inj he).symm
    · rintro ⟨hd, hscratch, hbefore⟩
      exact ⟨⟨hd, hscratch, fun b hb => hbefore b (.inl hb)⟩, fun he =>
        hbefore a (.inr rfl) (he ▸ hpin)⟩
  · have hne : PinKey.of b ≠ PinKey.of a := by
      have hrev : (manifest.artifacts.reverse.map PinKey.of).Nodup := by
        rw [List.map_reverse]
        exact List.nodup_reverse.mpr hnodup
      rw [← h.order, List.map_append, List.map_cons, List.nodup_append, List.nodup_cons] at hrev
      exact fun he => hrev.2.1.1 (he ▸ List.mem_map_of_mem hb)
    rw [lookup_remove hne]
    exact h.pins b (List.mem_cons_of_mem _ hb)

omit [DecidableEq K] in
/-- A record that was absent is passed over. -/
theorem Removing.skipped (h : Removing manifest d pins w₀ before (a :: after) left w)
    (hpin : pins.lookup (PinKey.of a) = none) :
    Removing manifest d pins w₀ (before ++ [a]) after left w := by
  refine ⟨by rw [List.append_assoc]; exact h.order, h.frame, fun p n => ?_, fun b hb =>
    h.pins b (List.mem_cons_of_mem _ hb)⟩
  rw [h.disk]
  simp only [List.mem_append, List.mem_singleton]
  constructor
  · rintro ⟨hd, hscratch, hbefore⟩
    refine ⟨hd, hscratch, ?_⟩
    rintro b (hb | rfl)
    · exact hbefore b hb
    · rw [hpin]
      intro he
      cases he
  · rintro ⟨hd, hscratch, hbefore⟩
    exact ⟨hd, hscratch, fun b hb => hbefore b (.inl hb)⟩

/-- **The entry of a record is childless when its turn comes**, and still there if it is a directory. -/
theorem Removing.childless (hc : IsRunChild header.runId header.child)
    (had : AdmittedFrom header 0 ⟨[], [], []⟩ manifest.artifacts) (hproven : Proven manifest d pins)
    (h : Removing manifest d pins w₀ before (a :: after) left w) {pin : Path}
    (hpin : pins.lookup (PinKey.of a) = some pin) :
    w.disk.childless pin = true ∧ (a.directory = true → artifactPath a = pin ∧ w.disk.Has pin .dir) ∧
      (a.directory = false → ∃ data, d.Has pin (.leaf (.file data 1))) := by
  have ha : a ∈ manifest.artifacts := by
    rw [← List.mem_reverse, ← h.order]
    simp
  have hpinned := hproven.sound _ _ hpin
  rcases hpinned with ⟨hk, -⟩ | ⟨a', ha', hk, n, hfind, hkind, hcontrol⟩
  · exact absurd hk (control_ne_scratch hc had ha)
  obtain rfl := eq_of_key had ha ha' hk
  have hne : artifactPath a ≠ [] := by
    cases hr : a.rootRelative with
    | false => simp [artifactPath_of_control hr, staging]
    | true =>
      obtain ⟨_, _, had'⟩ := had.mem ha
      obtain ⟨-, -, parents, file, -, -, hp⟩ := had'.sibling hr
      simp [hp]
  have hhas := ((PathTree.find_eq_some hne).mp hfind).1
  cases hd : a.directory with
  | false =>
    rw [hd] at hkind
    obtain ⟨data, rfl⟩ := hkind
    refine ⟨PathTree.childless_iff.mpr fun q m hq hdrop => ?_, (fun hdir => by cases hdir), fun _ => ⟨data, hhas⟩⟩
    exact PathTree.childless_iff.mp hhas.childless q m ((h.disk q m).mp hq).1 hdrop
  | true =>
    rw [hd] at hkind
    obtain rfl : n = .dir := hkind
    have hr : a.rootRelative = false := by
      cases hr : a.rootRelative with
      | false => rfl
      | true =>
        obtain ⟨_, _, had'⟩ := had.mem ha
        rw [(had'.sibling hr).regular] at hd
        cases hd
    have hpath := hcontrol hr
    obtain ⟨parts, hparts⟩ := control_path_length hc had ha hr
    refine ⟨PathTree.childless_iff.mpr fun q m hq hdrop => ?_, fun _ => ⟨hpath.symm, ?_⟩, fun hfile => by cases hfile⟩
    · -- an entry below the directory is recorded, and its record has had its turn
      obtain ⟨hdq, -, hgone⟩ := (h.disk q m).mp hq
      obtain ⟨q, c, rfl⟩ := (List.eq_nil_or_concat q).resolve_left hdq.ne_nil
      rw [List.concat_eq_append] at hdq hdrop hgone
      rw [List.dropLast_concat] at hdrop
      have hq' : q ++ [c] = staging ++ ((header.child :: parts).map OsStr.ofText ++ [c]) := by
        rw [hdrop, hpath, hparts]
        rfl
      have hentry := hproven.entries _ m (by simp) (hq' ▸ hdq)
      rw [← hq'] at hentry
      have hlong : ∀ name, q ++ [c] ≠ controlPath name := fun name he => by
        have := congrArg List.length (hq'.symm.trans he)
        simp [staging, controlPath] at this
      rcases hentry with he | he | ⟨-, he, -⟩ | ⟨b, hb, hbr, hbp, -, hbl⟩
      · exact hlong _ he
      · exact hlong _ he
      · exact hlong _ he
      · rw [hdrop, hpath] at hbp
        have hbefore := child_processed hc had h.order hb hr hbr hbp
        exact hgone b hbefore (by rw [PinKey.of_control hbr, hbl])
    · refine (h.disk _ _).mpr ⟨hhas, fun hl => ?_, fun b hb hl => ?_⟩
      · rcases hproven.sound _ _ hl with ⟨-, -, -, data, hleaf⟩ | ⟨b, hb, hk, -⟩
        · cases hleaf.node_unique hhas
        · exact control_ne_scratch hc had hb hk.symm
      · have hbmem : b ∈ manifest.artifacts := by
          rw [← List.mem_reverse, ← h.order]
          exact List.mem_append_left _ hb
        rcases hproven.sound _ _ hl with ⟨hk, -⟩ | ⟨b', hb', hk, n, hf, hbk, hbc⟩
        · exact control_ne_scratch hc had hbmem hk
        obtain rfl := eq_of_key had hbmem hb' hk
        cases hbr : b.rootRelative with
        | false =>
          obtain rfl := eq_of_path had hbmem ha hbr hr ((hbc hbr).symm.trans hpath)
          have hrev : manifest.artifacts.reverse.Nodup :=
            List.nodup_reverse.mpr (keys_nodup had).of_map
          rw [← h.order] at hrev
          exact absurd rfl ((List.nodup_append.mp hrev).2.2 b hb b (by simp))
        | true =>
          obtain ⟨⟨data, rfl⟩, -⟩ := hproven.siblings b hbmem hbr _ _ hf
          have hbhas := ((PathTree.find_eq_some (by
            intro h0
            rw [h0, PathTree.find_root] at hf
            cases hf)).mp hf).1
          cases hbhas.node_unique hhas

/-- How the deletion phase may end short of success. -/
def Stopped (manifest : Manifest) (d : Disk V) (w₀ : Machine V) (e : Halt) (w : Machine V) : Prop :=
  ¬ Blocked e ∧ Partial manifest d w₀ w

/-- What `remove_recovered` removes is the entry its pin holds, and no directory refuses it. -/
theorem spec_removeRecovered {affected pin : Path} {directory : Bool}
    (hchildless : w.disk.childless pin = true)
    (hdir : directory = true → affected = pin ∧ w.disk.Has pin .dir) :
    Prog.Spec (removeRecovered affected directory pin) w
      (fun _ w' => Shrunk w w' ∧ w.disk.erase pin = some w'.disk)
      (fun e w' => ¬ Blocked e ∧ Same w w') (Same w) := by
  have herase : ∃ t, w.disk.erase pin = some t := ⟨_, dif_pos hchildless⟩
  obtain ⟨t, herase⟩ := herase
  unfold removeRecovered
  rw [Prog.spec_bind, Prog.spec_mapError]
  refine spec_query.mono (fun resolved w₁ h₁ => ?_) (fun e w₁ h₁ => ⟨?_, h₁.1⟩) fun _ h => h
  · have hdisk := h₁.1.disk
    split_ifs with hres hd
    · exact ⟨id, h₁.1⟩
    · obtain ⟨rfl, hhas⟩ := hdir hd
      rw [Prog.spec_mapError]
      refine spec_change.mono (fun _ w₂ h₂ => ?_) (fun e w₂ h₂ => ⟨?_, h₁.1.trans h₂.1⟩)
        fun _ h => h₁.1.trans h
      · obtain ⟨hs, hf⟩ := h₂
        rw [hdisk, hhas.find] at hf
        simp only [herase, Except.ok.injEq, Prod.mk.injEq, true_and] at hf
        exact ⟨h₁.1.shrunk.trans hs, by rw [herase, hf]⟩
      · rcases h₂.2 with rfl | hf
        · exact id
        · rw [hdisk, hhas.find] at hf
          simp only [herase, reduceCtorEq] at hf
    · rw [Prog.spec_mapError]
      refine spec_change.mono (fun _ w₂ h₂ => ?_) (fun e w₂ h₂ => ⟨?_, h₁.1.trans h₂.1⟩)
        fun _ h => h₁.1.trans h
      · obtain ⟨hs, hf⟩ := h₂
        rw [hdisk] at hf
        simp only [herase, Except.ok.injEq, Prod.mk.injEq, true_and] at hf
        exact ⟨h₁.1.shrunk.trans hs, by rw [herase, hf]⟩
      · rcases h₂.2 with rfl | hf
        · exact id
        · rw [hdisk] at hf
          simp only [herase, reduceCtorEq] at hf
  · rcases h₁.2 with rfl | hf
    · exact id
    · unfold lookup at hf
      split at hf
      · cases hf
      · cases hf
        exact id

/-- **One record of the deletion phase.** -/
theorem spec_removeStep (hc : IsRunChild header.runId header.child)
    (had : AdmittedFrom header 0 ⟨[], [], []⟩ manifest.artifacts) (hproven : Proven manifest d pins)
    (h : Removing manifest d pins w₀ before (a :: after) left w) :
    Prog.Spec (removeStep stop left a) w (Removing manifest d pins w₀ (before ++ [a]) after)
      (Stopped manifest d w₀) (Partial manifest d w₀) := by
  have halted : ∀ {w'}, Same w w' → Partial manifest d w₀ w' := fun hw =>
    (h.same hw).toPartial hproven.sound
  unfold removeStep
  rw [Prog.spec_bind]
  refine spec_observe.mono (fun _ w₁ h₁ => ?_) (fun e w' h' => ⟨h'.2 ▸ id, halted h'.1⟩)
    fun w' h' => halted h'
  have h := h.same h₁
  cases hl : left.lookup (PinKey.of a) with
  | none => exact h.skipped ((h.pins a List.mem_cons_self).symm.trans hl)
  | some pin =>
    have hpin := (h.pins a List.mem_cons_self).symm.trans hl
    obtain ⟨hchildless, hdir, -⟩ := h.childless hc had hproven hpin
    rw [Prog.spec_bind]
    refine (spec_removeRecovered hchildless hdir).mono (fun _ w₂ h₂ => ?_)
      (fun e w₂ h₂ => ⟨h₂.1, (h.same h₂.2).toPartial hproven.sound⟩)
      fun w₂ h₂ => (h.same h₂).toPartial hproven.sound
    exact h.removed (keys_nodup had) hpin h₂.1 h₂.2

/-- The scratch goes first. -/
theorem spec_removeScratch (had : AdmittedFrom header 0 ⟨[], [], []⟩ manifest.artifacts)
    (hc : IsRunChild header.runId header.child) (hproven : Proven manifest d pins) (hw : w.disk = d) :
    Prog.Spec (removeScratch pins) w (Removing manifest d pins w [] manifest.artifacts.reverse)
      (Stopped manifest d w) (Partial manifest d w) := by
  subst hw
  have halted : ∀ {w'}, Same w w' → Partial manifest w.disk w w' := fun hw =>
    ⟨hw.shrunk, fun p n hp => .inl (by rwa [hw.disk]), fun p n hp => by rwa [hw.disk] at hp⟩
  unfold removeScratch
  cases hl : pins.lookup (.control manifestScratch) with
  | none => exact ⟨rfl, rfl, fun p n => by simp [hl], fun _ _ => rfl⟩
  | some scratch =>
    rcases hproven.sound _ _ hl with ⟨-, -, -, data, hhas⟩ | ⟨b, hb, hk, -⟩
    · rw [Prog.spec_bind, Prog.spec_mapError, deleteByHandle]
      obtain ⟨t, herase⟩ := PathTree.erase_leaf hhas
      refine spec_change.mono (fun _ w' h' => ?_) (fun e w' h' => ⟨?_, halted h'.1⟩) fun _ h' => halted h'
      · obtain ⟨hs, hf⟩ := h'
        simp only [herase, Except.ok.injEq, Prod.mk.injEq, true_and] at hf
        rw [hf] at herase
        refine ⟨rfl, hs, fun p n => ?_, fun b hb => ?_⟩
        · rw [PathTree.has_erase herase, hl]
          simp only [Option.some.injEq, ne_eq, List.not_mem_nil, false_implies, implies_true, and_true]
          exact and_congr_right fun _ => not_congr eq_comm
        · exact lookup_remove (control_ne_scratch hc had (List.mem_reverse.mp hb))
      · rcases h'.2 with rfl | hf
        · exact id
        · simp only [herase, reduceCtorEq] at hf
    · exact absurd hk.symm (control_ne_scratch hc had hb)

omit [DecidableEq K] in
/-- An entry named beneath the reserved directory, in any spelling, stands beneath it. -/
theorem under_staging (harea : d.Has staging .dir) {p q : Path} {n : Node Leaf} (hp : d.Has p n)
    (hq : q ≠ []) (he : p.map V.fold = (staging ++ q).map V.fold) :
    ∃ q', p = staging ++ q' ∧ q' ≠ [] ∧ q'.map V.fold = q.map V.fold := by
  rw [List.map_append, List.map_eq_append_iff] at he
  obtain ⟨s, q', rfl, hs, hq'⟩ := he
  have hne : q' ≠ [] := by
    rintro rfl
    exact hq (List.map_eq_nil_iff.mp hq'.symm)
  have hs' : s = staging := by
    rcases hp.above hne with rfl | hd
    · cases hs
    · exact (hd.unique harea hs).1
  exact ⟨q', by rw [hs'], hne, hq'⟩

omit [DecidableEq K] in
/-- Names the volume takes for one are equally long. -/
theorem length_of_fold {a b : Text} (h : [OsStr.ofText a].map V.fold = [OsStr.ofText b].map V.fold) :
    a.length = b.length := by
  have := V.length _ _ (List.cons.inj h).1
  rwa [OsStr.ofText, OsStr.ofText, List.length_map, List.length_map] at this

/-- **The owned entries are the pinned ones.** -/
theorem owned_iff (hc : IsRunChild header.runId header.child)
    (had : AdmittedFrom header 0 ⟨[], [], []⟩ manifest.artifacts) (hproven : Proven manifest d pins)
    {p : Path} : Owned manifest d p ↔ pins.lookup (.control manifestScratch) = some p ∨
      ∃ a ∈ manifest.artifacts, pins.lookup (PinKey.of a) = some p := by
  constructor
  · -- what a control name finds is an entry of the area, and so recorded
    have entry : ∀ {q n}, q ≠ [] → (∀ name, name = ownerLock ∨ name = manifestName →
        q.map V.fold ≠ [OsStr.ofText name].map V.fold) → d.find (staging ++ q) = some (p, n) →
        pins.lookup (.control manifestScratch) = some p ∨
          ∃ a ∈ manifest.artifacts, pins.lookup (PinKey.of a) = some p := by
      intro q n hq hname hf
      obtain ⟨hhas, hfold⟩ := (PathTree.find_eq_some (by simp [staging])).mp hf
      obtain ⟨q', rfl, hq', hfold'⟩ := under_staging hproven.area hhas hq hfold
      rcases hproven.entries q' n hq' hhas with he | he | ⟨-, -, -, hl⟩ | ⟨a, ha, hr, -, -, hl⟩
      · have := List.append_cancel_left he
        exact absurd (by rw [← hfold', this]) (hname ownerLock (.inl rfl))
      · have := List.append_cancel_left he
        exact absurd (by rw [← hfold', this]) (hname manifestName (.inr rfl))
      · exact .inl hl
      · exact .inr ⟨a, ha, by rw [PinKey.of_control hr, hl]⟩
    rintro (⟨-, n, hf⟩ | ⟨a, ha, n, hf⟩)
    · refine entry (by simp) (fun name hname he => ?_) hf
      have := length_of_fold he
      rcases hname with rfl | rfl <;> exact absurd this (by decide)
    · cases hr : a.rootRelative with
      | true => exact .inr ⟨a, ha, (hproven.siblings a ha hr p n hf).2⟩
      | false =>
        obtain ⟨parts, hparts⟩ := control_path_length hc had ha hr
        rw [hparts] at hf
        refine entry (q := (header.child :: parts).map OsStr.ofText) (by simp)
          (fun name hname he => ?_) hf
        have hnil : parts = [] := by
          have := congrArg List.length he
          simpa using this
        rw [hnil] at he
        have hlen := length_of_fold he
        have hchild := hc.length
        rcases hname with rfl | rfl
        · have h10 : ownerLock.length = 10 := by decide
          omega
        · have h18 : manifestName.length = 18 := by decide
          omega
  · rintro (hl | ⟨a, -, hl⟩)
    · exact (hproven.sound _ _ hl).owned
    · exact (hproven.sound _ _ hl).owned

/-- What a successful deletion phase leaves. -/
structure Recovered (manifest : Manifest) (w w' : Machine V) : Prop where
  frame : w' = { w with disk := w'.disk, tape := w'.tape,
                        scope := { w.scope with area := some .default } }
  disk : ∀ p n, w'.disk.Has p n ↔ w.disk.Has p n ∧ ¬ Owned manifest w.disk p

/-- **The deletion phase** removes the owned entries, all of them when it succeeds, and never meets a
directory that is not empty. -/
theorem spec_removeOwned (hc : IsRunChild header.runId header.child)
    (had : AdmittedFrom header 0 ⟨[], [], []⟩ manifest.artifacts)
    (hproven : Proven manifest w.disk pins) :
    Prog.Spec (removeOwned stop manifest pins) w (fun _ w' => Recovered manifest w w')
      (Stopped manifest w.disk w) (Partial manifest w.disk w) := by
  unfold removeOwned
  rw [Prog.spec_bind]
  refine (spec_removeScratch had hc hproven rfl).mono (fun left w₁ h₁ => ?_) (fun _ _ h => h) fun _ h => h
  rw [Prog.spec_bind]
  have hfold := Prog.Spec.foldEach (f := removeStep stop) (E := Stopped manifest w.disk w)
    (C := Partial manifest w.disk w) (I := fun before after left w' =>
      Removing manifest w.disk pins w before after left w')
    (fun before a after left w' h => spec_removeStep hc had hproven h) [] _ h₁
  refine hfold.mono (fun left w₂ h₂ => ?_) (fun _ _ h => h) fun _ h => h
  rw [Prog.spec_modify]
  refine ⟨?_, fun p n => ?_⟩
  · have := h₂.frame
    unfold Shrunk at this
    rw [this]
  · show w₂.disk.Has p n ↔ _
    rw [h₂.disk, owned_iff hc had hproven]
    simp only [not_or, not_exists, not_and, List.nil_append, List.mem_reverse]

/-! ## The whole recovery -/

variable {root : Text}

/-- What the proof of ownership found, and that it changed nothing. -/
theorem spec_proveOwnership (stop : CancellationToken) (root : Text) (w : Machine V) : Prog.Spec (proveOwnership stop root) w
    (fun o w' => Same w w' ∧ match o with
      | none => w.scope.area.isSome = true ∨ w.disk.find staging = none
      | some (manifest, pins) => w.scope.area = none ∧
        ReadsAs w.disk root (controlPath manifestName) manifest ∧ Proven manifest w.disk pins)
    (fun _ w' => Same w w') (Same w) := by
  unfold proveOwnership
  rw [Prog.spec_bind]
  refine (observes_observe w rfl).mono (fun _ w₁ h₁ => ?_) (fun _ _ h => h) fun _ h => h
  rw [Prog.spec_bind, Prog.spec_get]
  split_ifs with harea
  · exact ⟨h₁.1, .inl (by rwa [h₁.1.scope] at harea)⟩
  · refine (observes_proveArea w₁ h₁.1.disk).mono (fun o w₂ h₂ => ⟨h₁.1.trans h₂.1, ?_⟩)
      (fun _ _ h => h₁.1.trans h) fun _ h => h₁.1.trans h
    rw [h₁.1.scope, Option.not_isSome_iff_eq_none] at harea
    cases o with
    | none => exact .inr h₂.2
    | some r => exact ⟨harea, h₂.2.1, h₂.2.2⟩

/-- The deletion phase of one recovery, after its proof of ownership. -/
theorem spec_deletion (stop : CancellationToken) {manifest : Manifest}
    (hread : ReadsAs w.disk root (controlPath manifestName) manifest)
    (hproven : Proven manifest w.disk pins) :
    Prog.Spec (removeOwned stop manifest pins) w (fun _ w' => Recovered manifest w w')
      (Stopped manifest w.disk w) (Partial manifest w.disk w) := by
  obtain ⟨_, _, _, _, -, -, hparse⟩ := hread
  obtain ⟨header, _, hh, -, -, hadmitted⟩ := parseManifest_sound hparse
  obtain ⟨-, -, hchild, -⟩ := parseHeader_ok hh
  exact spec_removeOwned hchild hadmitted hproven

/-- What a recovery did to the tree, however it ended. -/
def Touched (root : Text) (w w' : Machine V) : Prop :=
  w'.disk = w.disk ∨ w.scope.area = none ∧ ∃ manifest,
    ReadsAs w.disk root (controlPath manifestName) manifest ∧ Partial manifest w.disk w w'

/-- **A recovery**: it removes what is owned, all of it when it succeeds over an existing area. -/
theorem spec_recover (stop : CancellationToken) (root : Text) (w : Machine V) : Prog.Spec (recover stop root) w
    (fun _ w' => (Same w w' ∧ (w.scope.area.isSome = true ∨ w.disk.find staging = none)) ∨
      w.scope.area = none ∧ ∃ manifest pins,
        ReadsAs w.disk root (controlPath manifestName) manifest ∧ Proven manifest w.disk pins ∧
          Recovered manifest w w')
    (fun _ w' => Shrunk w w' ∧ Touched root w w') (fun w' => Shrunk w w' ∧ Touched root w w') := by
  unfold recover
  rw [Prog.spec_bind]
  refine (spec_proveOwnership stop root w).mono (fun o w₁ ⟨hs, ho⟩ => ?_) (fun _ w' h => ⟨h.shrunk, .inl h.disk⟩)
    fun w' h => ⟨h.shrunk, .inl h.disk⟩
  cases o with
  | none => exact .inl ⟨hs, ho⟩
  | some r =>
    obtain ⟨manifest, pins⟩ := r
    obtain ⟨harea, hread, hproven⟩ := ho
    have hpart : ∀ {w'}, Partial manifest w₁.disk w₁ w' → Shrunk w w' ∧ Touched root w w' := by
      intro w' h
      have hf := hs.shrunk.trans h.frame
      exact ⟨hf, .inr ⟨harea, manifest, hread, hf, hs.disk ▸ h.kept, hs.disk ▸ h.old⟩⟩
    rw [← hs.disk] at hread hproven
    refine (spec_deletion stop hread hproven).mono (fun _ w₂ h₂ => .inr ⟨harea, manifest, pins,
      hs.disk ▸ hread, hs.disk ▸ hproven, ?_, ?_⟩) (fun _ w₂ h₂ => hpart h₂.2) fun w₂ h₂ => hpart h₂
    · have hw₁ : w₁ = { w with tape := w₁.tape } := hs
      rw [h₂.frame, hw₁]
    · rw [← hs.disk]
      exact h₂.disk

/-- **Whatever a recovery removed was owned**, however it ended. -/
theorem gone_of_recover {o : Outcome Halt Unit} (hr : recover stop root w = (o, w')) :
    (∀ p n, w'.disk.Has p n → w.disk.Has p n) ∧
      ∀ p n, w.disk.Has p n → ¬ w'.disk.Has p n →
        ∃ manifest, ReadsAs w.disk root (controlPath manifestName) manifest ∧ Owned manifest w.disk p := by
  have hrecover := spec_recover stop root w
  have hend : (∃ manifest, ReadsAs w.disk root (controlPath manifestName) manifest ∧
      (∀ p n, w'.disk.Has p n → w.disk.Has p n) ∧
      ∀ p n, w.disk.Has p n → w'.disk.Has p n ∨ Owned manifest w.disk p) ∨ w'.disk = w.disk := by
    unfold Prog.Spec at hrecover
    rw [hr] at hrecover
    rcases o with _ | e | _
    · rcases hrecover with ⟨h, -⟩ | ⟨-, manifest, -, hread, -, h⟩
      · exact .inr h.disk
      · refine .inl ⟨manifest, hread, fun p n hp => ((h.disk p n).mp hp).1, fun p n hp => ?_⟩
        by_cases ho : Owned manifest w.disk p
        · exact .inr ho
        · exact .inl ((h.disk p n).mpr ⟨hp, ho⟩)
    · rcases hrecover.2 with h | ⟨-, manifest, hread, h⟩
      · exact .inr h
      · exact .inl ⟨manifest, hread, h.old, h.kept⟩
    · rcases hrecover.2 with h | ⟨-, manifest, hread, h⟩
      · exact .inr h
      · exact .inl ⟨manifest, hread, h.old, h.kept⟩
  rcases hend with ⟨manifest, hread, hold, hkept⟩ | hsame
  · exact ⟨hold, fun p n hp hn => ⟨manifest, hread, (hkept p n hp).resolve_left hn⟩⟩
  · rw [hsame]
    exact ⟨fun _ _ h => h, fun p n hp hn => absurd hp hn⟩

/-- **Recovery is fail-closed and exact.** A failure of the proof of ownership leaves the tree as it
was. A success over an existing area deletes the recorded entries that were present and the scratch,
and nothing else. Whatever the outcome, what is gone was recorded; and no removal meets a directory
that is not empty. -/
theorem recover_fail_closed_exact (stop : CancellationToken) (root : Text) (w : Machine V) :
    (∀ h w', proveOwnership stop root w = (.fail h, w') →
      recover stop root w = (.fail h, w') ∧ w'.disk = w.disk) ∧
    (∀ w', recover stop root w = (.done (), w') → w.scope.area = none → w.disk.find staging ≠ none →
      ∃ manifest, ReadsAs w.disk root (controlPath manifestName) manifest ∧
        ∀ p n, w'.disk.Has p n ↔ w.disk.Has p n ∧ ¬ Owned manifest w.disk p) ∧
    (∀ o w', recover stop root w = (o, w') → (∀ p n, w'.disk.Has p n → w.disk.Has p n) ∧
      ∀ p n, w.disk.Has p n → ¬ w'.disk.Has p n →
        ∃ manifest, ReadsAs w.disk root (controlPath manifestName) manifest ∧
          Owned manifest w.disk p) ∧
    ∀ manifest pins w₁ h w', proveOwnership stop root w = (.done (some (manifest, pins)), w₁) →
      removeOwned stop manifest pins w₁ = (.fail h, w') → ¬ Blocked h := by
  have hprove := spec_proveOwnership stop root w
  have hrecover := spec_recover stop root w
  refine ⟨fun h w' hp => ?_, fun w' hr harea hstaging => ?_, fun o w' hr => ?_,
    fun manifest pins w₁ h w' hp hr => ?_⟩
  · unfold Prog.Spec at hprove
    rw [hp] at hprove
    refine ⟨?_, hprove.disk⟩
    show Prog.andThen _ _ w = _
    unfold Prog.andThen
    rw [hp]
  · unfold Prog.Spec at hrecover
    rw [hr] at hrecover
    rcases hrecover with ⟨-, h | h⟩ | ⟨-, manifest, -, hread, -, h⟩
    · rw [harea] at h; cases h
    · exact absurd h hstaging
    · exact ⟨manifest, hread, h.disk⟩
  · exact gone_of_recover hr
  · unfold Prog.Spec at hprove
    rw [hp] at hprove
    obtain ⟨hs, -, hread, hproven⟩ := hprove
    rw [← hs.disk] at hread hproven
    have := spec_deletion stop hread hproven
    unfold Prog.Spec at this
    rw [hr] at this
    exact this.1

end Cao
