import Cao.Staging.Parse
import Mathlib.Data.List.Nodup

/-!
# Confinement of an accepted manifest

What the records of an accepted manifest can name, whatever the bytes were.

* `OrdinaryPart`: a component that names an entry of the directory it is joined to, and nothing else;
* `ControlRecord`: a record strictly below the run child, whose ancestors are earlier directories;
* `SiblingRecord`: a record of the form the producer gives a generated Asset sibling;
* **`parse_manifest_confined`**: the first record is the run child, every other one is a
  `ControlRecord` or a `SiblingRecord`, and neither namespace repeats a name.
-/

namespace Cao

/-! ## Components -/

/-- A component that can only name an entry of the directory it is joined to: no traversal, drive,
stream, root or separator. -/
structure OrdinaryPart (part : Text) : Prop where
  nonempty : part ≠ []
  notHere : part ≠ ".".toList
  notParent : part ≠ "..".toList
  noSlash : '/' ∉ part
  noBackslash : '\\' ∉ part
  noColon : ':' ∉ part

theorem safePart_ordinary {part : Text} (h : safePart part = true) (hs : '/' ∉ part) :
    OrdinaryPart part := by
  simp only [safePart, Bool.and_eq_true, decide_eq_true_eq, Bool.not_eq_true', List.any_eq_false] at h
  obtain ⟨⟨⟨⟨⟨h0, h1⟩, h2⟩, -⟩, hr⟩, -⟩ := h
  have reserved : ∀ c ∈ reservedCharacters, c ∉ part := fun c hc hm => hr c hm hc
  exact ⟨h0, h1, h2, hs, reserved _ (by decide), reserved _ (by decide)⟩

/-- Every component of a safe name is ordinary. -/
theorem ordinary_of_safe {name part : Text} (h : safeRelativeName name = true)
    (hp : part ∈ name.splitOn '/') : OrdinaryPart part :=
  safePart_ordinary (safePart_of_mem_split h hp) (notMem_of_mem_splitOn hp)

theorem splitOn_append_file {parent file : Text} (h : '/' ∉ file) :
    (parent ++ '/' :: file).splitOn '/' = parent.splitOn '/' ++ [file] := by
  rw [List.splitOn_append_cons_self, List.splitOn_eq_singleton h]

/-- The parent of a record is the record's components but the last. -/
theorem splitOn_of_rsplitOnce {name parent file : Text}
    (h : rsplitOnce '/' name = some (parent, file)) :
    name.splitOn '/' = parent.splitOn '/' ++ [file] := by
  obtain ⟨rfl, hf⟩ := rsplitOnce_eq_some.mp h
  exact splitOn_append_file hf

theorem slash_notMem_of_runIdBytes {s : Text} (h : (utf8 s).all isRunIdByte = true) : '/' ∉ s := by
  intro hm
  have hb : (47 : UInt8) ∈ utf8 s := List.mem_flatMap.mpr ⟨'/', hm, by decide⟩
  have := List.all_eq_true.mp h _ hb
  exact absurd this (by decide)

theorem slash_notMem_of_nonce {s : Text} (h : isLowercaseNonce (utf8 s) = true) : '/' ∉ s := by
  intro hm
  simp only [isLowercaseNonce, Bool.and_eq_true, List.all_eq_true] at h
  have hb : (47 : UInt8) ∈ utf8 s := List.mem_flatMap.mpr ⟨'/', hm, by decide⟩
  exact absurd (h.2 _ hb) (by decide)

theorem slash_notMem_of_validRunId {runId : Text} (h : validRunId (utf8 runId) = some runId) :
    '/' ∉ runId := by
  unfold validRunId at h
  split_ifs at h with hv
  exact slash_notMem_of_runIdBytes hv.2.2

/-- A run child is one component. -/
theorem IsRunChild.noSlash {runId child : Text} (h : IsRunChild runId child) : '/' ∉ child := by
  obtain ⟨hv, nonce, hn, rfl⟩ := h
  have h1 := slash_notMem_of_validRunId hv
  have h2 := slash_notMem_of_nonce hn
  have h3 : '/' ∉ "run-".toList := by decide
  simp only [List.mem_append, List.mem_singleton, not_or]
  exact ⟨⟨⟨h3, h1⟩, by decide⟩, h2⟩

theorem nonce_length {s : Text} (h : isLowercaseNonce (utf8 s) = true) : s.length = 32 := by
  simp only [isLowercaseNonce, Bool.and_eq_true, beq_iff_eq, List.all_eq_true] at h
  obtain ⟨hlen, hall⟩ := h
  rw [← utf8_length_of_ascii, hlen]
  intro b hb
  have := hall b hb
  simp only [Bool.or_eq_true, Bool.and_eq_true, decide_eq_true_eq, UInt8.le_iff_toNat_le] at this
  rcases this with ⟨-, h⟩ | ⟨-, h⟩
  · exact Nat.lt_of_le_of_lt h (by decide)
  · exact Nat.lt_of_le_of_lt h (by decide)

/-- A run child's name is longer than any control file's. -/
theorem IsRunChild.length {runId child : Text} (h : IsRunChild runId child) : 37 ≤ child.length := by
  obtain ⟨-, nonce, hn, rfl⟩ := h
  have h4 : "run-".toList.length = 4 := by decide
  simp only [List.length_append, List.length_singleton, nonce_length hn, h4]
  omega

/-! ## The records read so far -/

/-- The names of the control records. -/
def controlNames (artifacts : List Artifact) : List Text :=
  (artifacts.filter fun a => !a.rootRelative).map Artifact.relative

/-- The names of the sibling records. -/
def siblingNames (artifacts : List Artifact) : List Text :=
  (artifacts.filter fun a => a.rootRelative).map Artifact.relative

/-- The reader's two maps hold what its records say. -/
structure Tracked (records : Records) : Prop where
  owned : records.owned = ((records.artifacts.filter fun a => !a.rootRelative).map
    fun a => (a.relative, a.directory)).reverse
  siblings : records.siblings = (siblingNames records.artifacts).reverse

theorem Tracked.push {records : Records} (h : Tracked records) (a : Artifact) :
    Tracked (records.push a) := by
  obtain ⟨ho, hs⟩ := h
  constructor <;> cases hr : a.rootRelative <;>
    simp [Records.push, siblingNames, hr, ho, hs, List.filter_append]

theorem tracked_nil : Tracked ⟨[], [], []⟩ := ⟨rfl, rfl⟩

theorem Tracked.pushAll {records : Records} (h : Tracked records) (l : List Artifact) :
    Tracked (records.pushAll l) := by
  induction l generalizing records with
  | nil => exact h
  | cons a l ih => exact ih (h.push a)

theorem Tracked.of_lookup {records : Records} (h : Tracked records) {name : Text} {directory : Bool}
    (hl : records.owned.lookup name = some directory) :
    ∃ a ∈ records.artifacts, a.rootRelative = false ∧ a.relative = name ∧ a.directory = directory := by
  obtain ⟨l₁, l₂, hl, -⟩ := List.lookup_eq_some_iff.mp hl
  have hm : (name, directory) ∈ records.owned := by rw [hl]; simp
  rw [h.owned, List.mem_reverse, List.mem_map] at hm
  obtain ⟨a, ha, he⟩ := hm
  rw [List.mem_filter] at ha
  obtain ⟨rfl, rfl⟩ := Prod.mk.inj he
  exact ⟨a, ha.1, by simpa using ha.2, rfl, rfl⟩

theorem Tracked.notMem_of_lookup {records : Records} (h : Tracked records) {name : Text}
    (hl : records.owned.lookup name = none) : name ∉ controlNames records.artifacts := by
  intro hm
  obtain ⟨a, ha, rfl⟩ := List.mem_map.mp hm
  have : (a.relative, a.directory) ∈ records.owned := by
    rw [h.owned, List.mem_reverse]
    exact List.mem_map.mpr ⟨a, ha, rfl⟩
  have := List.lookup_eq_none_iff.mp hl _ this
  simp at this

/-! ## Confinement -/

/-- The path of `parts` beneath the reserved directory. -/
def stagingPath (parts : List Text) : Path := (stagingDirectory :: parts).map OsStr.ofText

/-- A record strictly below the run child, each proper ancestor of which, from the run child down, is
a directory registered earlier. -/
structure ControlRecord (child : Text) (earlier : List Artifact) (artifact : Artifact) : Prop where
  control : artifact.rootRelative = false
  below : ∃ parts, parts ≠ [] ∧ (∀ part ∈ parts, OrdinaryPart part) ∧
    artifactPath artifact = stagingPath (child :: parts) ∧
    ∀ k < parts.length, ∃ a ∈ earlier, a.rootRelative = false ∧ a.directory = true ∧
      artifactPath a = stagingPath (child :: parts.take k)

/-- A file name of the form `stage_file` gives a generated sibling of this run. -/
def IsSiblingName (runId file : Text) : Prop :=
  ∃ extension assetPrefix nonce, stagingPrefix extension = some assetPrefix ∧
    isLowercaseNonce (utf8 nonce) = true ∧ file = assetPrefix ++ runId ++ ['-'] ++ nonce ++ extension

/-- A generated Asset sibling of this run, beneath ordinary directories of the Mod Root. -/
structure SiblingRecord (runId : Text) (artifact : Artifact) : Prop where
  sibling : artifact.rootRelative = true
  regular : artifact.directory = false
  beneath : ∃ parents file, IsSiblingName runId file ∧
    (∀ part ∈ parents, OrdinaryPart part ∧ isStagingName (OsStr.ofText part) = false) ∧
    artifactPath artifact = (parents ++ [file]).map OsStr.ofText

theorem artifactPath_control {artifact : Artifact} (hs : safeRelativeName artifact.relative = true)
    (hr : artifact.rootRelative = false) :
    artifactPath artifact = stagingPath (artifact.relative.splitOn '/') := by
  simp [artifactPath, hr, components_of_safe hs, stagingPath]

theorem artifactPath_sibling {artifact : Artifact} (hs : safeRelativeName artifact.relative = true)
    (hr : artifact.rootRelative = true) :
    artifactPath artifact = (artifact.relative.splitOn '/').map OsStr.ofText := by
  simp [artifactPath, hr, components_of_safe hs]

theorem isSiblingName_of_safe {name runId : Text} (h : safeSiblingAssetName name runId = true) :
    IsSiblingName runId (fileName name) := by
  simp only [safeSiblingAssetName] at h
  split at h
  · cases h
  · next assetPrefix hp =>
    obtain ⟨nonce, hb, hn⟩ := (Option.any_eq_true _ _).mp h
    obtain ⟨rest, h₁, h₂⟩ := Option.bind_eq_some_iff.mp hb
    obtain rfl := stripSuffix_eq_some.mp h₂
    refine ⟨_, _, nonce, hp, hn, ?_⟩
    exact (stripPrefix_eq_some.mp h₁).trans (List.append_assoc _ _ _).symm

/-- An admitted sibling record is confined. -/
theorem Admitted.sibling {header : Header} {index : Nat} {records : Records} {artifact : Artifact}
    (h : Admitted header index records artifact) (hr : artifact.rootRelative = true) :
    SiblingRecord header.runId artifact := by
  obtain ⟨hs, h⟩ := h
  rw [if_pos hr] at h
  obtain ⟨-, hd, -, ha, hc, -⟩ := h
  have hname := isSiblingName_of_safe ha
  refine ⟨hr, hd, ?_⟩
  rw [artifactPath_sibling hs hr]
  cases hsplit : rsplitOnce '/' artifact.relative with
  | none =>
    have hm := rsplitOnce_eq_none.mp hsplit
    rw [fileName_of_notMem hm] at hname
    exact ⟨[], artifact.relative, hname, by simp, by rw [List.splitOn_eq_singleton hm]; rfl⟩
  | some p =>
    obtain ⟨parent, file⟩ := p
    obtain ⟨he, hf⟩ := rsplitOnce_eq_some.mp hsplit
    rw [he, fileName_append hf] at hname
    rw [he, parentName_append hf] at hc
    have hp := splitOn_of_rsplitOnce hsplit
    refine ⟨parent.splitOn '/', file, hname, fun part hpart => ?_, by rw [hp]⟩
    have ho : OrdinaryPart part := ordinary_of_safe hs (by rw [hp]; exact List.mem_append_left _ hpart)
    refine ⟨ho, ?_⟩
    have hmem : OsStr.ofText part ∈ components parent :=
      List.mem_map.mpr ⟨part, List.mem_filter.mpr ⟨hpart, decide_eq_true ho.nonempty⟩, rfl⟩
    have := List.any_eq_false.mp hc _ hmem
    simpa using this

/-- A control record with the components below the run child, and its ancestors among `earlier`. -/
def BelowChild (child : Text) (earlier : List Artifact) (artifact : Artifact) (parts : List Text) :
    Prop :=
  artifact.relative.splitOn '/' = child :: parts ∧
    ∀ k < parts.length, ∃ a ∈ earlier, a.rootRelative = false ∧ a.directory = true ∧
      a.relative.splitOn '/' = child :: parts.take k

/-- The control records of an admitted list, the run child first, are closed under parents. -/
theorem below_of_admitted {header : Header} (hc : IsRunChild header.runId header.child)
    {artifacts : List Artifact} (h : AdmittedFrom header 0 ⟨[], [], []⟩ artifacts) :
    ∀ a ∈ artifacts, a.rootRelative = false →
      safeRelativeName a.relative = true ∧ ∃ parts, BelowChild header.child artifacts a parts := by
  induction artifacts using List.reverseRecOn with
  | nil => simp
  | append_singleton before artifact ih =>
    rw [admittedFrom_append] at h
    obtain ⟨hbefore, hlast, -⟩ := h
    have lift : ∀ a parts, BelowChild header.child before a parts →
        BelowChild header.child (before ++ [artifact]) a parts := fun a parts hb =>
      ⟨hb.1, fun k hk => (hb.2 k hk).imp fun b hm => ⟨List.mem_append_left _ hm.1, hm.2⟩⟩
    intro a ha hr
    rw [List.mem_append, List.mem_singleton] at ha
    rcases ha with ha | rfl
    · obtain ⟨hs, parts, hb⟩ := ih hbefore a ha hr
      exact ⟨hs, parts, lift a parts hb⟩
    · obtain ⟨hs, hlast⟩ := hlast
      rw [if_neg (by simp [hr])] at hlast
      refine ⟨hs, ?_⟩
      by_cases h0 : 0 + before.length = 0
      · rw [if_pos h0] at hlast
        exact ⟨[], by rw [hlast.1.1, List.splitOn_eq_singleton hc.noSlash], by simp⟩
      · rw [if_neg h0] at hlast
        obtain ⟨⟨-, parent, file, hsplit, hparent⟩, -⟩ := hlast
        have htracked := tracked_nil.pushAll before
        obtain ⟨p, hp, hpr, hpn, hpd⟩ := htracked.of_lookup hparent
        rw [Records.pushAll_artifacts, List.nil_append] at hp
        obtain ⟨-, parts, hb⟩ := ih hbefore p hp hpr
        -- the new record is one component below its parent record
        refine ⟨parts ++ [file], ?_, fun k hk => ?_⟩
        · rw [splitOn_of_rsplitOnce hsplit, ← hpn, hb.1, List.cons_append]
        · rw [List.length_append, List.length_singleton] at hk
          by_cases hk' : k < parts.length
          · rw [List.take_append_of_le_length hk'.le]
            exact (lift p parts hb).2 k hk'
          · obtain rfl : k = parts.length := by omega
            exact ⟨p, List.mem_append_left _ hp, hpr, hpd, by rw [List.take_left, hb.1]⟩

/-- An admitted control record after the first is confined. -/
theorem Admitted.control {header : Header} (hc : IsRunChild header.runId header.child)
    {before : List Artifact} {artifact : Artifact} (hne : before ≠ [])
    (hb : AdmittedFrom header 0 ⟨[], [], []⟩ before)
    (h : Admitted header before.length (Records.pushAll ⟨[], [], []⟩ before) artifact)
    (hr : artifact.rootRelative = false) : ControlRecord header.child before artifact := by
  have hs := h.1
  have hall : AdmittedFrom header 0 ⟨[], [], []⟩ (before ++ [artifact]) :=
    admittedFrom_append.mpr ⟨hb, by simpa [AdmittedFrom] using h⟩
  obtain ⟨-, parts, hsplit, hanc⟩ := below_of_admitted hc hall artifact (by simp) hr
  refine ⟨hr, parts, ?_, fun part hp => ?_, ?_, fun k hk => ?_⟩
  · rintro rfl
    -- a later record named as the run child would not start with `child/`
    have h2 := h.2
    rw [if_neg (by simp [hr]), if_neg (by simpa using hne)] at h2
    obtain ⟨⟨-, parent, file, hp, -⟩, -⟩ := h2
    have := splitOn_of_rsplitOnce hp
    rw [hsplit] at this
    have hlen := congrArg List.length this
    have hpos : 0 < (parent.splitOn '/').length :=
      List.length_pos_iff.mpr (List.splitOn_ne_nil '/' parent)
    simp only [List.length_singleton, List.length_append] at hlen
    omega
  · exact ordinary_of_safe hs (by rw [hsplit]; exact List.mem_cons_of_mem _ hp)
  · rw [artifactPath_control hs hr, hsplit]
  · obtain ⟨a, ha, har, had, hap⟩ := hanc k hk
    rw [List.mem_append, List.mem_singleton] at ha
    rcases ha with ha | rfl
    · have hsa := (below_of_admitted hc hb a ha har).1
      exact ⟨a, ha, har, had, by rw [artifactPath_control hsa har, hap]⟩
    · -- the record is no ancestor of itself
      rw [hsplit] at hap
      have := congrArg List.length hap
      simp only [List.length_cons, List.length_take] at this
      omega

/-- No namespace of an admitted list repeats a name. -/
theorem nodup_of_admitted {header : Header} {artifacts : List Artifact}
    (h : AdmittedFrom header 0 ⟨[], [], []⟩ artifacts) :
    (controlNames artifacts).Nodup ∧ (siblingNames artifacts).Nodup := by
  induction artifacts using List.reverseRecOn with
  | nil => simp [controlNames, siblingNames]
  | append_singleton before artifact ih =>
    rw [admittedFrom_append] at h
    obtain ⟨hbefore, ⟨-, hlast⟩, -⟩ := h
    obtain ⟨hcn, hsn⟩ := ih hbefore
    have htracked := tracked_nil.pushAll before
    cases hr : artifact.rootRelative with
    | true =>
      rw [if_pos hr] at hlast
      have hm : artifact.relative ∉ siblingNames before := by
        have := hlast.2.2.2.2.2
        rwa [htracked.siblings, List.mem_reverse, Records.pushAll_artifacts, List.nil_append] at this
      have hc : controlNames (before ++ [artifact]) = controlNames before := by
        simp [controlNames, List.filter_append, hr]
      have hs : siblingNames (before ++ [artifact]) = siblingNames before ++ [artifact.relative] := by
        simp [siblingNames, List.filter_append, hr]
      rw [hc, hs]
      exact ⟨hcn, by simpa using hsn.concat hm⟩
    | false =>
      rw [if_neg (by simp [hr])] at hlast
      have hm := htracked.notMem_of_lookup hlast.2
      rw [Records.pushAll_artifacts, List.nil_append] at hm
      have hc : controlNames (before ++ [artifact]) = controlNames before ++ [artifact.relative] := by
        simp [controlNames, List.filter_append, hr]
      have hs : siblingNames (before ++ [artifact]) = siblingNames before := by
        simp [siblingNames, List.filter_append, hr]
      rw [hc, hs]
      exact ⟨by simpa using hcn.concat hm, hsn⟩

/-- What confines the records of a manifest with this header. -/
structure ConfinedTo (header : Header) (artifacts : List Artifact) : Prop where
  /-- The run child is `run-<Run ID>-<32 lowercase hex>`. -/
  child : IsRunChild header.runId header.child
  /-- It is the first record, a directory of the reserved directory. -/
  first : artifacts.head? = some ⟨header.child, true, false⟩ ∧
    artifactPath ⟨header.child, true, false⟩ = stagingPath [header.child]
  later : ∀ before artifact after, artifacts = before ++ artifact :: after → before ≠ [] →
    ControlRecord header.child before artifact ∨ SiblingRecord header.runId artifact
  controls : (controlNames artifacts).Nodup
  siblings : (siblingNames artifacts).Nodup

theorem confinedTo_of_admitted {header : Header} {artifacts : List Artifact}
    (hchild : IsRunChild header.runId header.child) (hne : artifacts ≠ [])
    (had : AdmittedFrom header 0 ⟨[], [], []⟩ artifacts) : ConfinedTo header artifacts := by
  obtain ⟨first, rest, rfl⟩ := List.exists_cons_of_ne_nil hne
  have hnodup := nodup_of_admitted had
  have hfirst : first = ⟨header.child, true, false⟩ ∧ safeRelativeName header.child = true := by
    obtain ⟨hs, h0⟩ := had.1
    obtain ⟨name, directory, rootRelative⟩ := first
    cases rootRelative with
    | true => exact absurd rfl (if_pos (rfl : true = true) ▸ h0 : _ ∧ _ ∧ _ ∧ _).2.2.1
    | false =>
      obtain ⟨⟨rfl, rfl⟩, -⟩ := h0
      exact ⟨rfl, hs⟩
  obtain ⟨rfl, hsafe⟩ := hfirst
  refine ⟨hchild, ⟨rfl, ?_⟩, fun before artifact after he hb => ?_, hnodup.1, hnodup.2⟩
  · rw [artifactPath_control hsafe rfl, List.splitOn_eq_singleton hchild.noSlash]
  · rw [he, admittedFrom_append] at had
    obtain ⟨hbefore, hart, -⟩ := had
    rw [Nat.zero_add] at hart
    cases hr : artifact.rootRelative with
    | false => exact .inl (hart.control hchild hb hbefore hr)
    | true => exact .inr (hart.sibling hr)

/-- **Confinement.** Whatever the bytes, an accepted manifest records its run child first; every later
record is strictly below the run child with its ancestors registered before it, or a generated sibling
of the same run; and neither namespace repeats a name. -/
theorem parse_manifest_confined {bytes : Bytes} {root : Text} {stop : Nat → Bool} {manifest : Manifest}
    (h : parseManifest bytes root stop = .ok manifest) :
    ∃ header input, parseHeader bytes root = .ok (header, input) ∧
      ConfinedTo header manifest.artifacts := by
  obtain ⟨header, input, hh, -, hcount, had⟩ := parseManifest_sound h
  obtain ⟨-, -, hchild, hpos, -⟩ := parseHeader_ok hh
  have hne : manifest.artifacts ≠ [] := List.ne_nil_of_length_pos (by omega)
  exact ⟨header, input, hh, confinedTo_of_admitted hchild hne had⟩

/-- A run child. -/
def sampleChild : Text := "run-r-".toList ++ List.replicate 32 'a'

/-- A mesh sibling of the same run. -/
def sampleSibling : Text := "m/.cao-staging-mesh-r-".toList ++ List.replicate 32 'b' ++ ".nif".toList

/-- A manifest of both. -/
def sampleManifest : Bytes := utf8 ("CAO-STAGING 3\n\"C:/A\"\n\"r\" ".toList ++ quoted sampleChild ++
  "\n2\nD ".toList ++ quoted sampleChild ++ "\nS ".toList ++ quoted sampleSibling)

/-- The records of `sampleManifest`. -/
def sampleRecords : List Artifact := [⟨sampleChild, true, false⟩, ⟨sampleSibling, false, true⟩]

theorem parse_manifest_confined_sample : ∃ header input,
    parseHeader sampleManifest "C:/A".toList = .ok (header, input) ∧ ConfinedTo header sampleRecords := by
  have hparsed : parseManifest sampleManifest "C:/A".toList (fun _ => false) = .ok ⟨3, sampleRecords⟩ := by
    unfold sampleManifest sampleRecords sampleChild sampleSibling
    repeat rw [String.toList_ofList]
    decide +kernel
  exact parse_manifest_confined hparsed

end Cao
