import Cao.Staging.Snapshot
import Cao.Staging.Names

/-!
# The lists a run registers

The run child first, then files that each carry a nonce of their own. Such a list stays one under a new
registration and under a release. Its entries stand in the reserved namespace and are no control files;
when the run's nonces are fresh and its destinations ordinary, the reader admits it.

* `safeRelativeName_iff`, `safePart_of_plain`: the names a run builds are safe;
* `Carries`, `RunList`: the registrations of one run;
* **`RunList.wellFormed`**: the reader admits the list;
* **`RunList.register`**, **`RunList.release`**: the two changes.
-/

namespace Cao

/-! ## Safe names -/

/-- A name is safe when its components are. -/
theorem safeRelativeName_iff {name : Text} :
    safeRelativeName name = true ↔ ∀ part ∈ name.splitOn '/', safePart part = true := by
  constructor
  · exact fun h part hp => safePart_of_mem_split h hp
  · intro h
    have hempty : [] ∉ name.splitOn '/' := fun hm => safePart_ne_nil (h _ hm) rfl
    unfold safeRelativeName
    rw [if_neg, List.all_eq_true]
    · exact h
    · rintro (rfl | hhead | hlast | ⟨a, b, hinfix⟩)
      · exact hempty (by simp [List.splitOn_nil])
      · obtain ⟨t, ht⟩ := List.head?_eq_some_iff.mp hhead
        refine hempty ?_
        rw [ht, show '/' :: t = [] ++ '/' :: t from rfl, List.splitOn_append_cons_self]
        simp [List.splitOn_nil]
      · obtain ⟨t, ht⟩ := List.getLast?_eq_some_iff.mp hlast
        refine hempty ?_
        rw [ht, List.splitOn_append_cons_self]
        simp [List.splitOn_nil]
      · refine hempty ?_
        rw [← hinfix, List.append_assoc, show ['/', '/'] ++ b = '/' :: ([] ++ '/' :: b) from rfl,
          List.splitOn_append_cons_self, List.splitOn_append_cons_self]
        simp [List.splitOn_nil]

/-- A letter, a digit or a hyphen, of ASCII. -/
def Plain (c : Char) : Prop :=
  (48 ≤ c.val.toNat ∧ c.val.toNat ≤ 57) ∨ (65 ≤ c.val.toNat ∧ c.val.toNat ≤ 90) ∨
    (97 ≤ c.val.toNat ∧ c.val.toNat ≤ 122) ∨ c.val.toNat = 45

instance : DecidablePred Plain := fun c => by unfold Plain; infer_instance

/-- Characters whose bytes a Run ID may hold are plain. -/
theorem plain_of_bytes {s : Text} (h : (utf8 s).all isRunIdByte = true) : ∀ c ∈ s, Plain c := by
  intro c hc
  have hbytes : ∀ b ∈ String.utf8EncodeChar c, isRunIdByte b = true := fun b hb =>
    List.all_eq_true.mp h b (List.mem_flatMap.mpr ⟨c, hc, hb⟩)
  have hbound : ∀ b, isRunIdByte b = true → (48 ≤ b.toNat ∧ b.toNat ≤ 57) ∨
      (65 ≤ b.toNat ∧ b.toNat ≤ 90) ∨ (97 ≤ b.toNat ∧ b.toNat ≤ 122) ∨ b.toNat = 45 := by
    intro b hb
    simp only [isRunIdByte, Bool.or_eq_true, Bool.and_eq_true, decide_eq_true_eq, beq_iff_eq,
      UInt8.le_iff_toNat_le] at hb
    rcases hb with ((hb | hb) | hb) | rfl
    · exact .inl hb
    · exact .inr (.inl hb)
    · exact .inr (.inr (.inl hb))
    · exact .inr (.inr (.inr rfl))
  have hlow : ∀ b, isRunIdByte b = true → b.toNat < 128 := by
    intro b hb
    have := hbound b hb
    omega
  obtain ⟨b, hb⟩ : ∃ b, b ∈ String.utf8EncodeChar c := by
    by_cases hc : c.val.toNat < 128
    · exact ⟨_, by rw [utf8EncodeChar_ascii hc]; exact List.mem_singleton_self _⟩
    · apply List.exists_mem_of_ne_nil
      simp only [String.utf8EncodeChar]
      split_ifs <;> simp
  have hval := mem_utf8EncodeChar_ascii hb (hlow b (hbytes b hb))
  unfold Plain
  rw [hval]
  exact hbound b (hbytes b hb)

theorem plain_of_validRunId {runId : Text} (h : validRunId (utf8 runId) = some runId) :
    ∀ c ∈ runId, Plain c := by
  unfold validRunId at h
  split_ifs at h with hv
  exact plain_of_bytes hv.2.2

theorem plain_nonce {nonce : Text} (h : isLowercaseNonce (utf8 nonce) = true) : ∀ c ∈ nonce, Plain c := by
  apply plain_of_bytes
  simp only [isLowercaseNonce, Bool.and_eq_true, List.all_eq_true] at h
  rw [List.all_eq_true]
  intro b hb
  have hn := h.2 b hb
  simp only [isRunIdByte, Bool.or_eq_true, Bool.and_eq_true, decide_eq_true_eq, beq_iff_eq,
    UInt8.le_iff_toNat_le] at hn ⊢
  have h102 : (102 : UInt8).toNat = 102 := rfl
  have h122 : (122 : UInt8).toNat = 122 := rfl
  omega

/-- **A component of plain characters and dots that ends in a plain one is safe.** -/
theorem safePart_of_plain {s : Text} (h : ∀ c ∈ s, Plain c ∨ c = '.') (last : Char)
    (hl : s.getLast? = some last) (hp : Plain last) : safePart s = true := by
  have hlast : last ≠ '.' ∧ last ≠ ' ' := by
    constructor <;> rintro rfl <;> exact absurd hp (by decide)
  have hreserved : ∀ c ∈ reservedCharacters, ¬ (Plain c ∨ c = '.') := forall_of_all (by decide)
  have hcontrol : ∀ c : Char, c.val < 32 → ¬ (Plain c ∨ c = '.') := by
    rintro c hc (hp | rfl)
    · have h32 : c.val.toNat < 32 := UInt32.lt_iff_toNat_lt.mp hc
      unfold Plain at hp
      omega
    · exact absurd hc (by decide)
  simp only [safePart, Bool.and_eq_true, decide_eq_true_eq, Bool.not_eq_true', Bool.or_eq_false_iff,
    beq_eq_false_iff_ne, List.any_eq_false]
  refine ⟨⟨⟨⟨⟨?_, ?_⟩, ?_⟩, ?_, ?_⟩, fun c hc hm => hreserved c hm (h c hc)⟩,
    fun c hc hlt => hcontrol c hlt (h c hc)⟩
  · rintro rfl; cases hl
  · rintro rfl; exact hlast.1 (Option.some.inj hl).symm
  · rintro rfl; exact hlast.1 (Option.some.inj hl).symm
  · rw [hl]; exact fun he => hlast.1 (Option.some.inj he)
  · rw [hl]; exact fun he => hlast.2 (Option.some.inj he)

/-! ## The registrations of one run -/

/-- The name of a staged Archive entry. -/
def archiveEntryName (random : Nonce) : Text := "archive-entry-".toList ++ nonceText random

/-- The name of a staged Asset sibling. -/
def siblingName (runId assetPrefix extension : Text) (random : Nonce) : Text :=
  assetPrefix ++ runId ++ ['-'] ++ nonceText random ++ extension

/-- A registered file with its own nonce: an Archive entry below the run child, or an Asset sibling.
`strict` says that nonces are fresh and the directories above a sibling ordinary. -/
structure Carries (strict : Prop) (used : List Nonce) (runId child : Text) (random : Nonce)
    (a : Artifact) : Prop where
  used : strict → random ∈ used
  file : a.directory = false
  name : a.rootRelative = false ∧ a.relative.splitOn '/' = [child, archiveEntryName random] ∨
    a.rootRelative = true ∧ ∃ parents extension assetPrefix,
      stagingPrefix extension = some assetPrefix ∧
      a.relative.splitOn '/' = parents ++ [siblingName runId assetPrefix extension random] ∧
      ∀ part ∈ parents, part ≠ [] ∧ isStagingName (OsStr.ofText part) = false ∧
        (strict → safePart part = true)

/-- The registrations of one run: its child, then files that carry nonces of the run. -/
structure RunList (strict : Prop) (runId child : Text) (used : List Nonce) (l : List Artifact) :
    Prop where
  named : IsRunChild runId child
  files : ∃ rest, l = ⟨child, true, false⟩ :: rest ∧
    ∀ a ∈ rest, ∃ random, Carries strict used runId child random a
  distinct : strict → (controlNames l).Nodup ∧ (siblingNames l).Nodup

variable {strict : Prop} {runId child : Text} {used used' : List Nonce} {l : List Artifact}
variable {a : Artifact} {random : Nonce}

theorem Carries.mono (h : Carries strict used runId child random a) (hu : ∀ n ∈ used, n ∈ used') :
    Carries strict used' runId child random a := ⟨fun hs => hu _ (h.used hs), h.file, h.name⟩

theorem RunList.mono (h : RunList strict runId child used l) (hu : ∀ n ∈ used, n ∈ used') :
    RunList strict runId child used' l := by
  obtain ⟨rest, hl, hrest⟩ := h.files
  exact ⟨h.named, ⟨rest, hl, fun a ha => (hrest a ha).imp fun _ hc => hc.mono hu⟩, h.distinct⟩

/-- The siblings of a run are files. -/
theorem RunList.fileSiblings (h : RunList strict runId child used l) : FileSiblings l := by
  obtain ⟨rest, rfl, hrest⟩ := h.files
  intro a ha hr
  rcases List.mem_cons.mp ha with rfl | ha
  · cases hr
  · obtain ⟨random, hcarry⟩ := hrest a ha
    exact hcarry.file

/-- The first registration of a run. -/
theorem runList_child (h : validRunId (utf8 runId) = some runId) (random : Nonce) :
    RunList strict runId ("run-".toList ++ runId ++ ['-'] ++ nonceText random) used
      [⟨"run-".toList ++ runId ++ ['-'] ++ nonceText random, true, false⟩] :=
  ⟨⟨h, _, isLowercaseNonce_nonceText random, rfl⟩, ⟨[], rfl, nofun⟩, fun _ => by
    simp [controlNames, siblingNames]⟩

theorem archiveEntry_chars : '/' ∉ "archive-entry-".toList ∧ ∀ c ∈ "archive-entry-".toList, Plain c :=
  ⟨by decide, forall_of_all (by decide)⟩

theorem archiveEntryName_noSlash (random : Nonce) : '/' ∉ archiveEntryName random := by
  unfold archiveEntryName
  rw [List.mem_append, not_or]
  exact ⟨archiveEntry_chars.1, slash_notMem_of_nonce (isLowercaseNonce_nonceText random)⟩

/-- What each Asset namespace and its extension hold. -/
theorem stagingPrefix_chars {extension assetPrefix : Text}
    (h : stagingPrefix extension = some assetPrefix) :
    (∀ c ∈ assetPrefix, Plain c ∨ c = '.') ∧ assetPrefix ≠ [] ∧
      isStagingName (OsStr.ofText assetPrefix) = true ∧
      ∃ rest last, extension = '.' :: rest ∧ '.' ∉ rest ∧ (∀ c ∈ rest, Plain c) ∧
        extension.getLast? = some last ∧ Plain last := by
  have hall : ∀ e ∈ [(".dds".toList, ".cao-staging-texture-".toList),
      (".hkx".toList, ".cao-staging-animation-".toList), (".nif".toList, ".cao-staging-mesh-".toList),
      (".btr".toList, ".cao-staging-mesh-".toList), (".bto".toList, ".cao-staging-mesh-".toList)],
      (e.2.all fun c => decide (Plain c ∨ c = '.')) ∧ e.2 ≠ [] ∧ isStagingName (OsStr.ofText e.2) = true ∧
        e.1 = '.' :: e.1.tail ∧ '.' ∉ e.1.tail ∧ (e.1.tail.all fun c => decide (Plain c)) ∧
        e.1.getLast? = some (e.1.getLastD ' ') ∧ Plain (e.1.getLastD ' ') := by
    repeat rw [String.toList_ofList]
    exact forall_of_all (by decide)
  obtain ⟨h1, h2, h3, h4, h5, h6, h7, h8⟩ := hall _ (stagingPrefix_eq_some h)
  exact ⟨forall_of_all h1, h2, h3, _, _, h4, h5, forall_of_all h6, h7, h8⟩

theorem siblingName_noSlash {extension assetPrefix : Text}
    (hr : validRunId (utf8 runId) = some runId) (h : stagingPrefix extension = some assetPrefix) :
    '/' ∉ siblingName runId assetPrefix extension random := by
  obtain ⟨hpre, -, -, rest, last, hext, -, hrest, -⟩ := stagingPrefix_chars h
  have hslash : ¬ (Plain '/' ∨ '/' = '.') := by decide
  simp only [siblingName, List.mem_append, List.mem_singleton, not_or]
  refine ⟨⟨⟨⟨fun hm => hslash (hpre _ hm), slash_notMem_of_validRunId hr⟩, by decide⟩,
    slash_notMem_of_nonce (isLowercaseNonce_nonceText random)⟩, ?_⟩
  rw [hext, List.mem_cons, not_or]
  exact ⟨by decide, fun hm => hslash (.inl (hrest _ hm))⟩

theorem safePart_nonce {pre : Text} (h : ∀ c ∈ pre, Plain c) {nonce : Text}
    (hn : isLowercaseNonce (utf8 nonce) = true) : safePart (pre ++ nonce) = true := by
  have hplain := plain_nonce hn
  have hne : nonce ≠ [] := by
    rintro rfl
    exact absurd (nonce_length hn) (by decide)
  refine safePart_of_plain (fun c hc => .inl ?_) (nonce.getLast hne) ?_ (hplain _ (List.getLast_mem hne))
  · exact (List.mem_append.mp hc).elim (h c) (hplain c)
  · rw [List.getLast?_append, List.getLast?_eq_some_getLast hne, Option.some_or]

theorem safePart_child (hc : IsRunChild runId child) : safePart child = true := by
  obtain ⟨hr, nonce, hn, rfl⟩ := hc
  have hrun : ∀ c ∈ "run-".toList, Plain c := forall_of_all (by decide)
  have hdash : ∀ c ∈ ['-'], Plain c := forall_of_all (by decide)
  refine safePart_nonce (fun c hc => ?_) hn
  rw [List.mem_append, List.mem_append] at hc
  rcases hc with (hc | hc) | hc
  · exact hrun c hc
  · exact plain_of_validRunId hr c hc
  · exact hdash c hc

theorem safePart_siblingName {extension assetPrefix : Text} (hr : validRunId (utf8 runId) = some runId)
    (h : stagingPrefix extension = some assetPrefix) :
    safePart (siblingName runId assetPrefix extension random) = true := by
  obtain ⟨hpre, -, -, rest, last, hext, -, hrest, hlast, hplain⟩ := stagingPrefix_chars h
  have hn := plain_nonce (isLowercaseNonce_nonceText random)
  have hdash : ∀ c ∈ ['-'], Plain c := forall_of_all (by decide)
  refine safePart_of_plain (fun c hc => ?_) last ?_ hplain
  · simp only [siblingName, List.mem_append] at hc
    rcases hc with (((hc | hc) | hc) | hc) | hc
    · exact hpre c hc
    · exact .inl (plain_of_validRunId hr c hc)
    · exact .inl (hdash c hc)
    · exact .inl (hn c hc)
    · rw [hext, List.mem_cons] at hc
      exact hc.elim .inr fun hm => .inl (hrest c hm)
  · rw [siblingName, List.getLast?_append, hlast, Option.some_or]

/-- Every component of a carried name is safe. -/
theorem Carries.safe (h : Carries True used runId child random a) (hc : IsRunChild runId child) :
    safeRelativeName a.relative = true := by
  rw [safeRelativeName_iff]
  rcases h.name with ⟨-, hsplit⟩ | ⟨-, parents, extension, assetPrefix, hpre, hsplit, hparents⟩
  · rw [hsplit]
    intro part hpart
    simp only [List.mem_cons, List.not_mem_nil, or_false] at hpart
    rcases hpart with rfl | rfl
    · exact safePart_child hc
    · exact safePart_nonce archiveEntry_chars.2 (isLowercaseNonce_nonceText random)
  · rw [hsplit]
    intro part hpart
    rw [List.mem_append, List.mem_singleton] at hpart
    rcases hpart with hpart | rfl
    · exact (hparents part hpart).2.2 trivial
    · exact safePart_siblingName hc.1 hpre

/-! ## The reader admits them -/

/-- The parent and the file of a name, from its components. -/
theorem rsplitOnce_of_splitOn {name file : Text} {parents : List Text}
    (h : name.splitOn '/' = parents ++ [file]) :
    parents = [] ∧ file = name ∧ rsplitOnce '/' name = none ∨
      ∃ parent, rsplitOnce '/' name = some (parent, file) ∧ parent.splitOn '/' = parents := by
  cases hs : rsplitOnce '/' name with
  | none =>
    rw [List.splitOn_eq_singleton (rsplitOnce_eq_none.mp hs)] at h
    have h' : [] ++ [name] = parents ++ [file] := h
    obtain ⟨h1, h2⟩ := List.append_inj' h' rfl
    exact .inl ⟨h1.symm, (List.cons.inj h2).1.symm, rfl⟩
  | some p =>
    obtain ⟨parent, file'⟩ := p
    rw [splitOn_of_rsplitOnce hs] at h
    obtain ⟨h1, h2⟩ := List.append_inj' h rfl
    rw [(List.cons.inj h2).1]
    exact .inr ⟨parent, rfl, h1⟩

theorem fileName_of_splitOn {name file : Text} {parents : List Text}
    (h : name.splitOn '/' = parents ++ [file]) : fileName name = file := by
  rcases rsplitOnce_of_splitOn h with ⟨-, rfl, hs⟩ | ⟨parent, hs, -⟩
  · simp [fileName, hs]
  · simp [fileName, hs]

theorem parentName_of_splitOn {name file : Text} {parents : List Text}
    (h : name.splitOn '/' = parents ++ [file]) (hp : ∀ part ∈ parents, part ≠ []) :
    components (parentName name) = parents.map OsStr.ofText := by
  unfold components
  rcases rsplitOnce_of_splitOn h with ⟨rfl, -, hs⟩ | ⟨parent, hs, rfl⟩
  · simp [parentName, hs, List.splitOn_nil]
  · rw [show parentName name = parent by simp [parentName, hs],
      List.filter_eq_self.mpr fun part hm => decide_eq_true (hp part hm)]

/-- A sibling's extension is the one it was named with. -/
theorem extensionOf_siblingName {extension assetPrefix : Text}
    (hpre : stagingPrefix extension = some assetPrefix) :
    extensionOf (siblingName runId assetPrefix extension random) = extension := by
  obtain ⟨-, hne, -, rest, -, hext, hdot, -⟩ := stagingPrefix_chars hpre
  unfold extensionOf siblingName
  rw [hext, rsplitOnce_eq_some.mpr ⟨rfl, hdot⟩]
  exact if_neg (by simp [hne])

/-- The reader recognizes a sibling's name. -/
theorem safeSiblingAssetName_of_splitOn {name extension assetPrefix : Text} {parents : List Text}
    (hpre : stagingPrefix extension = some assetPrefix)
    (h : name.splitOn '/' = parents ++ [siblingName runId assetPrefix extension random]) :
    safeSiblingAssetName name runId = true := by
  unfold safeSiblingAssetName
  simp only [fileName_of_splitOn h, extensionOf_siblingName hpre, hpre]
  rw [Option.any_eq_true]
  refine ⟨nonceText random, ?_, isLowercaseNonce_nonceText random⟩
  rw [stripPrefix_eq_some.mpr (show siblingName runId assetPrefix extension random =
    (assetPrefix ++ runId ++ ['-']) ++ (nonceText random ++ extension) by simp [siblingName])]
  exact stripSuffix_eq_some.mpr rfl

theorem Tracked.lookup {records : Records} (h : Tracked records)
    (hn : (controlNames records.artifacts).Nodup) {a : Artifact} (ha : a ∈ records.artifacts)
    (hr : a.rootRelative = false) : records.owned.lookup a.relative = some a.directory := by
  have hmem : (a.relative, a.directory) ∈ records.owned := by
    rw [h.owned, List.mem_reverse]
    exact List.mem_map.mpr ⟨a, List.mem_filter.mpr ⟨ha, by simp [hr]⟩, rfl⟩
  have hkeys : (records.owned.map Prod.fst).Nodup := by
    rw [h.owned, List.map_reverse, List.nodup_reverse, List.map_map]
    exact hn
  obtain ⟨l₁, l₂, hl⟩ := List.append_of_mem hmem
  refine List.lookup_eq_some_iff.mpr ⟨l₁, l₂, hl, fun p hp => ?_⟩
  rw [hl, List.map_append, List.map_cons, List.nodup_append] at hkeys
  have hne := hkeys.2.2 _ (List.mem_map_of_mem hp) _ List.mem_cons_self
  simpa using fun he => hne he.symm

theorem Tracked.lookup_none {records : Records} (h : Tracked records) {name : Text}
    (hn : name ∉ controlNames records.artifacts) : records.owned.lookup name = none := by
  rw [List.lookup_eq_none_iff]
  rintro ⟨key, directory⟩ hp
  rw [h.owned, List.mem_reverse, List.mem_map] at hp
  obtain ⟨a, ha, he⟩ := hp
  obtain ⟨rfl, rfl⟩ := Prod.mk.inj he
  simp only [bne_iff_ne, ne_eq]
  rintro rfl
  exact hn (List.mem_map.mpr ⟨a, ha, rfl⟩)

theorem controlNames_append (l l' : List Artifact) :
    controlNames (l ++ l') = controlNames l ++ controlNames l' := by simp [controlNames]

theorem siblingNames_append (l l' : List Artifact) :
    siblingNames (l ++ l') = siblingNames l ++ siblingNames l' := by simp [siblingNames]

theorem controlNames_singleton (h : a.rootRelative = false) : controlNames [a] = [a.relative] := by
  simp [controlNames, h]

theorem siblingNames_singleton (h : a.rootRelative = true) : siblingNames [a] = [a.relative] := by
  simp [siblingNames, h]

/-- **The reader admits a carried name it has not read.** -/
theorem Carries.admitted (h : Carries True used runId child random a) (hc : IsRunChild runId child)
    {before rest : List Artifact} {count : Nat} (hb : before = ⟨child, true, false⟩ :: rest)
    (hn : (controlNames (before ++ [a])).Nodup) (hs : (siblingNames (before ++ [a])).Nodup) :
    Admitted ⟨3, runId, child, count⟩ (0 + before.length) (Records.pushAll ⟨[], [], []⟩ before) a := by
  have htracked := tracked_nil.pushAll before
  have hartifacts : (Records.pushAll ⟨[], [], []⟩ before).artifacts = before :=
    Records.pushAll_artifacts _ _
  have hindex : 0 + before.length ≠ 0 := by simp [hb]
  rw [controlNames_append, List.nodup_append] at hn
  rw [siblingNames_append, List.nodup_append] at hs
  refine ⟨h.safe hc, ?_⟩
  rcases h.name with ⟨hr, hsplit⟩ | ⟨hr, parents, extension, assetPrefix, hpre, hsplit, hparents⟩
  · rw [if_neg (by simp [hr]), if_neg hindex]
    have hsplit' : a.relative.splitOn '/' = [child] ++ [archiveEntryName random] := hsplit
    rcases rsplitOnce_of_splitOn hsplit' with ⟨h0, -⟩ | ⟨parent, hone, hparent⟩
    · cases h0
    · have hchild : parent = child := by
        have hjoin : ['/'].intercalate (parent.splitOn '/') = parent := List.intercalate_splitOn '/'
        rw [hparent] at hjoin
        simpa using hjoin.symm
      subst hchild
      refine ⟨⟨?_, parent, _, hone, ?_⟩, ?_⟩
      · rw [(rsplitOnce_eq_some.mp hone).1]
        exact ⟨_, by rw [List.append_assoc]; rfl⟩
      · refine htracked.lookup ?_ (a := ⟨parent, true, false⟩) ?_ rfl
        · rw [hartifacts]
          exact hn.1
        · rw [hartifacts, hb]
          exact List.mem_cons_self
      · apply htracked.lookup_none
        rw [hartifacts]
        intro hm
        exact hn.2.2 _ hm _ (by simp [controlNames_singleton hr]) rfl
  · rw [if_pos hr]
    refine ⟨rfl, h.file, hindex, safeSiblingAssetName_of_splitOn hpre hsplit, ?_, ?_⟩
    · rw [parentName_of_splitOn hsplit fun part hp => (hparents part hp).1]
      simp only [hasStagingComponent, List.any_eq_false, List.mem_map, Bool.not_eq_true]
      rintro _ ⟨part, hp, rfl⟩
      exact (hparents part hp).2.1
    · rw [htracked.siblings, hartifacts, List.mem_reverse]
      intro hm
      exact hs.2.2 _ hm _ (by simp [siblingNames_singleton hr]) rfl

theorem safe_child (hc : IsRunChild runId child) : safeRelativeName child = true := by
  rw [safeRelativeName_iff, List.splitOn_eq_singleton hc.noSlash]
  intro part hpart
  rw [List.mem_singleton.mp hpart]
  exact safePart_child hc

/-- **The reader admits a run's list.** -/
theorem RunList.wellFormed (h : RunList True runId child used l) : WellFormed runId child l := by
  obtain ⟨rest, rfl, hrest⟩ := h.files
  obtain ⟨hn, hs⟩ := h.distinct trivial
  have hc := h.named
  refine ⟨hc, by simp, ?_⟩
  generalize (⟨child, true, false⟩ :: rest : List Artifact).length = count
  clear h
  induction rest using List.reverseRecOn with
  | nil => exact ⟨⟨safe_child hc, by simp⟩, trivial⟩
  | append_singleton rest a ih =>
    obtain ⟨random, ha⟩ := hrest a (by simp)
    rw [← List.cons_append] at hn hs ⊢
    rw [controlNames_append] at hn
    rw [siblingNames_append] at hs
    have hbefore := ih (fun b hb => hrest b (List.mem_append_left _ hb)) (List.nodup_append.mp hn).1
      (List.nodup_append.mp hs).1
    rw [← controlNames_append] at hn
    rw [← siblingNames_append] at hs
    exact admittedFrom_append.mpr ⟨hbefore, ha.admitted hc rfl hn hs, trivial⟩

/-! ## The two changes -/

/-- A name carries one nonce only. -/
theorem Carries.random_unique {a b : Artifact} {random random' : Nonce}
    (h : Carries strict used runId child random a) (h' : Carries strict used' runId child random' b)
    (hr : a.rootRelative = b.rootRelative) (hn : a.relative = b.relative) : random = random' := by
  apply nonceText_injective
  rcases h.name with ⟨ha, hsplit⟩ | ⟨ha, parents, extension, assetPrefix, hpre, hsplit, -⟩ <;>
    rcases h'.name with ⟨hb, hsplit'⟩ | ⟨hb, parents', extension', assetPrefix', hpre', hsplit', -⟩
  · rw [← hn, hsplit] at hsplit'
    have he : archiveEntryName random = archiveEntryName random' := by
      simpa using hsplit'
    exact List.append_cancel_left he
  · rw [ha, hb] at hr
    cases hr
  · rw [ha, hb] at hr
    cases hr
  · rw [← hn, hsplit] at hsplit'
    have hfile := (List.cons.inj (List.append_inj' hsplit' rfl).2).1
    -- the file's extension gives its namespace
    obtain rfl : extension = extension' :=
      (extensionOf_siblingName hpre).symm.trans ((congrArg extensionOf hfile).trans
        (extensionOf_siblingName hpre'))
    rw [hpre, Option.some.injEq] at hpre'
    subst hpre'
    exact List.append_cancel_left (List.append_cancel_right hfile)

/-- A list holds no name that carries a nonce it does not use. -/
theorem RunList.notMem (h : RunList strict runId child used l)
    (ha : Carries strict used' runId child random a) (hs : strict) (hn : random ∉ used) :
    ∀ b ∈ l, b.rootRelative = a.rootRelative → b.relative ≠ a.relative := by
  obtain ⟨rest, rfl, hrest⟩ := h.files
  intro b hb hr he
  rw [List.mem_cons] at hb
  rcases hb with rfl | hb
  · -- the run child is one component, an Archive entry two
    rcases ha.name with ⟨-, hsplit⟩ | ⟨hsibling, -⟩
    · rw [← he, List.splitOn_eq_singleton h.named.noSlash] at hsplit
      cases hsplit
    · rw [hsibling] at hr
      cases hr
  · obtain ⟨random', hb'⟩ := hrest b hb
    rw [← hb'.random_unique ha hr he] at hn
    exact hn (hb'.used hs)

/-- **A registration with a fresh nonce keeps the list.** -/
theorem RunList.register (h : RunList strict runId child used l)
    (ha : Carries strict (random :: used) runId child random a) (hn : strict → random ∉ used) :
    RunList strict runId child (random :: used) (l ++ [a]) := by
  obtain ⟨rest, hl, hrest⟩ := h.files
  refine ⟨h.named, ⟨rest ++ [a], by rw [hl]; rfl, fun b hb => ?_⟩, fun hs => ?_⟩
  · rw [List.mem_append, List.mem_singleton] at hb
    rcases hb with hb | rfl
    · exact (hrest b hb).imp fun _ hc => hc.mono fun n hn => List.mem_cons_of_mem _ hn
    · exact ⟨random, ha⟩
  · have hnew := h.notMem ha hs (hn hs)
    obtain ⟨hcontrols, hsiblings⟩ := h.distinct hs
    rw [controlNames_append, siblingNames_append]
    cases hr : a.rootRelative with
    | true =>
      rw [siblingNames_singleton hr, show controlNames [a] = [] by simp [controlNames, hr],
        List.append_nil]
      refine ⟨hcontrols, hsiblings.append (List.nodup_singleton _) fun name hm hm' => ?_⟩
      obtain ⟨b, hb, rfl⟩ := List.mem_map.mp hm
      rw [List.mem_filter] at hb
      exact hnew b hb.1 (hb.2.trans hr.symm) (List.mem_singleton.mp hm')
    | false =>
      rw [controlNames_singleton hr, show siblingNames [a] = [] by simp [siblingNames, hr],
        List.append_nil]
      refine ⟨hcontrols.append (List.nodup_singleton _) fun name hm hm' => ?_, hsiblings⟩
      obtain ⟨b, hb, rfl⟩ := List.mem_map.mp hm
      rw [List.mem_filter] at hb
      have hbr : b.rootRelative = false := by simpa using hb.2
      exact hnew b hb.1 (hbr.trans hr.symm) (List.mem_singleton.mp hm')

/-- **A release keeps the list.** -/
theorem RunList.release (h : RunList strict runId child used l) {i : Nat} (ha : l[i]? = some a)
    (hd : a.directory = false) : RunList strict runId child used (l.eraseIdx i) := by
  obtain ⟨rest, rfl, hrest⟩ := h.files
  have hsub := List.eraseIdx_sublist (⟨child, true, false⟩ :: rest) i
  refine ⟨h.named, ?_, fun hs => ?_⟩
  · cases i with
    | zero =>
      -- the run child is a directory
      cases ha
      cases hd
    | succ i =>
      exact ⟨rest.eraseIdx i, rfl, fun b hb => hrest b (List.mem_of_mem_eraseIdx hb)⟩
  · obtain ⟨hcontrols, hsiblings⟩ := h.distinct hs
    exact ⟨hcontrols.sublist ((hsub.filter _).map _), hsiblings.sublist ((hsub.filter _).map _)⟩

end Cao
