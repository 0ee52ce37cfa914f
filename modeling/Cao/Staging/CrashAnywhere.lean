import Cao.Staging.RoundTrip

/-!
# Ownership at every step

* `Accounted`: every temporary entry on disk is exempt or named in the manifest on disk;
* `Owned.reserved`: recovery removes reserved names only;
* **`left_of_recover`**: what a successful recovery leaves of the control area;
* **`crash_anywhere`**: wherever a run ends, its entries are accounted for, no committed destination is
  named, and a later recovery keeps the destinations and clears the rest.
-/

namespace Cao

variable {K : Type} [DecidableEq K] {V : Volume K} {w w' : Machine V} {p : Path} {n : Node Leaf}
variable {root runId child : Text} {l : List Artifact} {manifest : Manifest} {pins : Pins}

/-- Every entry the run made that is present is exempt or named in the manifest on disk. -/
def Accounted (exempt : List Path) (root : Text) (w : Machine V) : Prop :=
  ∀ p ∈ w.made, Present w p → (∃ c ∈ exempt, p.map V.fold = c.map V.fold) ∨
    ∃ child l, OnDisk root w child l ∧ Named V l p

omit [DecidableEq K] in
/-- The manifest on disk names the entries of one list. -/
theorem OnDisk.named {child' : Text} {l' : List Artifact} (h : OnDisk root w child l)
    (h' : OnDisk root w child' l') (hn : Named V l' p) : Named V l p := by
  obtain ⟨q, hq, hf⟩ := h
  obtain ⟨q', hq', hf'⟩ := h'
  have hbytes := (hq.unique hq' (hf.trans hf'.symm)).2
  simp only [Node.leaf.injEq, Leaf.file.injEq, and_true] at hbytes
  have hpaths := manifestBytes_paths hbytes
  obtain ⟨a, ha, he⟩ := hn
  have hmem : artifactPath a ∈ l.map artifactPath := hpaths ▸ List.mem_map_of_mem ha
  obtain ⟨b, hb, hab⟩ := List.mem_map.mp hmem
  exact ⟨b, hb, by rw [hab, he]⟩

/-! ## What recovery leaves -/

/-- **Recovery removes reserved names only.** -/
theorem Owned.reserved {d : Disk V} (hread : ReadsAs d root (controlPath manifestName) manifest)
    (h : Owned manifest d p) : hasStagingComponent p = true := by
  rcases h with ⟨-, n, hf⟩ | ⟨a, ha, n, hf⟩
  · rw [hasStagingComponent_fold (PathTree.fold_of_find hf)]
    exact (control_of_mem (V := V) (by simp [controls])).reserved
  · rw [hasStagingComponent_fold (PathTree.fold_of_find hf)]
    obtain ⟨_, _, _, _, -, -, hparse⟩ := hread
    obtain ⟨header, _, hh, -, -, had⟩ := parseManifest_sound hparse
    obtain ⟨-, -, hchild, -⟩ := parseHeader_ok hh
    cases hr : a.rootRelative with
    | false =>
      rw [artifactPath_of_control hr]
      simp [staging, hasStagingComponent, isStagingName_staging]
    | true =>
      obtain ⟨index, records, hadmitted⟩ := had.mem ha
      obtain ⟨-, -, parents, file, ⟨extension, assetPrefix, nonce, hpre, -, rfl⟩, -, hpath⟩ :=
        hadmitted.sibling hr
      obtain ⟨-, -, hstaging, -⟩ := stagingPrefix_chars hpre
      have hfile := isStagingName_append hstaging (header.runId ++ ['-'] ++ nonce ++ extension)
      rw [hpath, hasStagingComponent, List.any_eq_true]
      simp only [List.append_assoc] at hfile ⊢
      exact ⟨_, List.mem_map_of_mem (List.mem_append_right _ (List.mem_singleton_self _)), hfile⟩

omit [DecidableEq K] in
theorem under_of_control (h : Control V p) : p.map V.fold = staging.map V.fold ∨
    ∃ name ∈ [ownerLock, manifestName, manifestScratch, conflictControl],
      p.map V.fold = (staging ++ [OsStr.ofText name]).map V.fold := by
  obtain ⟨c, hc, he⟩ := h
  simp only [controls, List.mem_cons, List.not_mem_nil, or_false] at hc
  rcases hc with rfl | rfl | rfl | rfl | rfl
  · exact .inl he
  all_goals exact .inr ⟨_, by simp, he⟩

/-- What stays when a recovery succeeds. -/
def retained : List Path := [staging, controlPath ownerLock, controlPath manifestName]

/-- No control file stands in a root without the reserved directory. -/
theorem not_present_of_absent {d : Disk V} (habsent : d.find staging = none) (hc : Control V p) :
    ¬ d.Has p n := by
  intro hp
  have hfind := (PathTree.find_eq_some hp.ne_nil).mpr ⟨hp, rfl⟩
  rcases under_of_control hc with he | ⟨name, -, he⟩
  · rw [PathTree.find_congr he, habsent] at hfind
    cases hfind
  · rw [PathTree.find_congr he, PathTree.find_append_eq_none habsent] at hfind
    cases hfind

/-- **A successful recovery** leaves of the control files the reserved directory, the lock and the
manifest. -/
theorem left_of_control {d d' : Disk V} (hproven : Proven manifest d pins)
    (hd : ∀ p n, d'.Has p n ↔ d.Has p n ∧ ¬ Owned manifest d p) (hp : d'.Has p n) (hc : Control V p) :
    ∃ c ∈ retained, p.map V.fold = c.map V.fold := by
  obtain ⟨hhas, hnot⟩ := (hd p n).mp hp
  rcases under_of_control hc with he | ⟨name, -, he⟩
  · exact ⟨staging, by simp [retained], he⟩
  · obtain ⟨q, rfl, hq, -⟩ := under_staging hproven.area hhas (by simp) he
    rcases hproven.entries q n hq hhas with h | h | ⟨hv, h, -⟩ | ⟨a, ha, -, h, -⟩
    · exact ⟨_, by simp [retained], congrArg _ h⟩
    · exact ⟨_, by simp [retained], congrArg _ h⟩
    · exact absurd (.inl ⟨hv, n, h ▸ hhas.find⟩) hnot
    · exact absurd (.inr ⟨a, ha, n, h ▸ hhas.find⟩) hnot

variable {strict : Prop} {used : List Nonce}

/-- Without the reserved directory nothing the run made is there. -/
theorem Ledger.absent (h : Ledger strict root runId used w) (habsent : w.disk.find staging = none)
    (hp : p ∈ w.made) : ¬ Present w p := by
  rintro ⟨n, hn⟩
  rcases h.safe with ⟨hc, -⟩ | ⟨child, l, ⟨q, hq, hf⟩, -⟩
  · rcases hc p hp ⟨n, hn⟩ with hcontrol | ⟨a, ha, -⟩
    · exact not_present_of_absent habsent hcontrol hn
    · cases ha
  · exact not_present_of_absent habsent ((control_of_mem (by simp [controls])).congr hf) hq

/-- The manifest a recovery reads is the one that covers what the run made. -/
theorem Ledger.reads (h : Ledger strict root runId used w)
    (hread : ReadsAs w.disk root (controlPath manifestName) manifest) (hp : p ∈ w.made)
    (hpresent : Present w p) : Control V p ∨ Named V manifest.artifacts p := by
  rcases h.safe with ⟨hc, -⟩ | ⟨child, l, ⟨q, hq, hf⟩, hl, hc⟩
  · rcases hc p hp hpresent with hcontrol | ⟨a, ha, -⟩
    · exact .inl hcontrol
    · cases ha
  · obtain ⟨q', data, links, polls, hfind, -, hparse⟩ := hread
    have hq' := (PathTree.find_eq_some (by simp [controlPath, staging])).mp hfind
    have hsame := (hq'.1.unique hq (hq'.2.trans hf.symm)).2
    simp only [Node.leaf.injEq, Leaf.file.injEq] at hsame
    rw [hsame.1] at hparse
    rw [parse_snapshot_eq hl.named hl.fileSiblings hparse]
    exact hc p hp hpresent

/-- **A successful recovery clears the run's entries.** -/
theorem Ledger.left (h : Ledger strict root runId used w)
    (hread : ReadsAs w.disk root (controlPath manifestName) manifest)
    (hproven : Proven manifest w.disk pins) {d' : Disk V}
    (hd : ∀ p n, d'.Has p n ↔ w.disk.Has p n ∧ ¬ Owned manifest w.disk p) (hp : p ∈ w.made)
    (hn : d'.Has p n) : ∃ c ∈ retained, p.map V.fold = c.map V.fold := by
  obtain ⟨hold, hnot⟩ := (hd p n).mp hn
  rcases h.reads hread hp ⟨n, hold⟩ with hcontrol | ⟨a, ha, he⟩
  · exact left_of_control hproven hd hn hcontrol
  · refine absurd (.inr ⟨a, ha, n, (PathTree.find_eq_some ?_).mpr ⟨hold, he⟩⟩) hnot
    intro h0
    rw [h0, List.map_nil, List.map_eq_nil_iff] at he
    exact hold.ne_nil he

/-! ## Wherever a run ends -/

/-- **Crash-anywhere ownership.** Wherever a run ends, every temporary entry it made that is present is a
control file or named in the manifest on disk, and no committed destination is named there. A later
process that recovers the tree keeps every committed destination, and when it succeeds it leaves of the
run's entries the reserved directory, the lock and the manifest only. -/
theorem crash_anywhere (root runId : Text) (disk : Disk V) (tape : List Fate)
    (operations : List Operation) :
    Accounted controls root (after root runId disk tape operations) ∧
    (∀ p ∈ (after root runId disk tape operations).committed, ∀ child l,
      OnDisk root (after root runId disk tape operations) child l → ¬ Named V l p) ∧
    ∀ (stop : CancellationToken) (tape' : List Fate) (runId' : Text) (o : Outcome Halt Unit)
      (w' : Machine V), recover stop root
          (Machine.start (after root runId disk tape operations).disk tape' runId') = (o, w') →
        (∀ p ∈ (after root runId disk tape operations).committed,
          Present (after root runId disk tape operations) p → Present w' p) ∧
        (o = .done () → ∀ p ∈ (after root runId disk tape operations).made, Present w' p →
          ∃ c ∈ retained, p.map V.fold = c.map V.fold) := by
  have hledger : Ledger False root runId (noncesOf operations)
      (after root runId disk tape operations) := ledger_after root runId disk tape operations nofun nofun
  generalize after root runId disk tape operations = w at hledger
  refine ⟨fun p hp hpresent => ?_, fun p hp child l hd hn => ?_,
    fun stop tape' runId' o w' hrecover => ⟨fun p hp ⟨n, hn⟩ => ?_, fun hdone p hp ⟨n, hn⟩ => ?_⟩⟩
  · rcases hledger.safe with ⟨hc, -⟩ | ⟨child, l, hd, -, hc⟩
    · rcases hc p hp hpresent with h | ⟨a, ha, -⟩
      · exact .inl h
      · cases ha
    · exact (hc p hp hpresent).imp id fun h => ⟨child, l, hd, h⟩
  · rcases hledger.safe with ⟨-, -, hc⟩ | ⟨child', l', hd', hl', -⟩
    · rw [hc] at hp
      cases hp
    · -- what a manifest of the run names is reserved, a destination is not
      obtain ⟨a, ha, he⟩ := hd'.named hd hn
      have hreserved := (hl'.entry (V := V) ha).1
      rw [← hasStagingComponent_fold he, hledger.committed p hp] at hreserved
      cases hreserved
  · by_contra hgone
    obtain ⟨manifest, hread, howned⟩ := (gone_of_recover hrecover).2 p n hn fun h => hgone ⟨n, h⟩
    have hreserved := howned.reserved hread
    rw [hledger.committed p hp] at hreserved
    cases hreserved
  · have hspec := spec_recover stop root (Machine.start w.disk tape' runId')
    unfold Prog.Spec at hspec
    rw [hrecover, hdone] at hspec
    rcases hspec with ⟨-, h | habsent⟩ | ⟨-, manifest, pins, hread, hproven, hr⟩
    · cases h
    · exact absurd ⟨n, (gone_of_recover hrecover).1 p n hn⟩ (hledger.absent habsent hp)
    · exact hledger.left hread hproven hr.disk hp hn

/-! ## The conflict control -/

/-- A root that holds a file where the run will stage one. -/
def takenDisk : Disk asciiVolume where
  entries := [([OsStr.ofText "a".toList], .dir),
    (["a".toList, siblingName "r".toList ".cao-staging-mesh-".toList ".nif".toList
      (sampleNonce 11)].map OsStr.ofText, .leaf (.file [] 1))]
  rooted := by decide
  named := by decide +kernel
  distinct := by decide +kernel
  closed := by decide

/-- The fates of a run that cannot withdraw the taken name. -/
def refusedWithdrawal : List Fate := List.replicate 47 .ok ++ [.refused 0]

/-- The run that meets it. -/
def conflictRun : Machine asciiVolume :=
  after "C:/M".toList "r".toList takenDisk refusedWithdrawal sampleOperations

/-- A name that was taken leaves the conflict control, which no manifest names. -/
theorem conflict_unnamed : ¬ Accounted [staging, controlPath ownerLock, controlPath manifestName,
    controlPath manifestScratch] "C:/M".toList conflictRun := by
  intro h
  have hmade : controlPath conflictControl ∈ conflictRun.made := by decide +kernel
  have hpresent : Present conflictRun (controlPath conflictControl) :=
    ⟨.leaf (.file conflictBytes 1), by unfold PathTree.Has; decide +kernel⟩
  have hdisk : OnDisk "C:/M".toList conflictRun ("run-r-".toList ++ nonceText (sampleNonce 10))
      sampleRegistered :=
    ⟨controlPath manifestName, by unfold PathTree.Has; decide +kernel, rfl⟩
  rcases h _ hmade hpresent with ⟨c, hc, he⟩ | ⟨child, l, hd, hn⟩
  · revert c
    decide +kernel
  · obtain ⟨a, ha, he⟩ := hdisk.named hd hn
    revert a
    decide +kernel

end Cao
