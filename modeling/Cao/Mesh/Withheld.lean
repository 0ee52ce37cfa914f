import Cao.Mesh.References

/-!
# Withheld References

Which references keep their TGA names because the conversion of their Texture failed (`mesh_references.rs`), and how far
the failures beneath one Mod Root reach into the Meshes of another.

* `namesSameTexture`, `Spells`: whether a failed path is the Texture that a reference points at; **`namesSameTexture_iff`**;
* `FailedTextureConversions`, `recorded`, `withheld`: the record of a run, and what it withholds from a Mesh;
* `DiffersBeneath`: two runs that differ in the conversions beneath one root;
* **`names_beyond_root`**: from outside that root, only a reference through the folders of the root names a Texture beneath it;
* **`withheld_unaffected_iff`**: when no failure beneath the root changes a Mesh.
-/

namespace Cao.Mesh

open Asset (AssetExecutionResult OperationResult)
open Routing (RoutedAsset)

/-! ## Paths and references -/

section Names

variable (tables : CaseTables)

/-- `normalize_asset_path`. -/
def normalizeAssetPath (path : Text) : Text := toLowercase tables (path.map fun c => if c = '\\' then '/' else c)

/-- `Path::to_string_lossy`, normalized. -/
def normalizedPath (path : Path) : Text := normalizeAssetPath tables (nativeText path).lossy

/-- A reference, decoded lossily and normalized. -/
def normalizedReference (reference : Bytes) : Text := normalizeAssetPath tables (fromUtf8Lossy reference)

end Names

/-- `names_same_texture`. -/
def namesSameTexture (executionPath reference meshPath : Text) : Bool :=
  if reference.isEmpty || !reference.isSuffixOf executionPath then false
  else
    let dataRootLen := executionPath.length - reference.length
    if dataRootLen = 0 then true
    else if executionPath[dataRootLen - 1]? ≠ some '/' then false
    else
      let dataRoot := executionPath.take (dataRootLen - 1)
      dataRoot.isEmpty || (decide (dataRoot.length < meshPath.length) && dataRoot.isPrefixOf meshPath &&
        meshPath[dataRoot.length]? == some '/')

/-- A reference is a whole path, or what follows a folder that a Mesh lies beneath. -/
def Spells (executionPath reference meshPath : Text) : Prop :=
  reference ≠ [] ∧ (executionPath = reference ∨ ∃ dataRoot, executionPath = dataRoot ++ '/' :: reference ∧
    (dataRoot = [] ∨ dataRoot ++ ['/'] <+: meshPath))

/-! ## The record of a run -/

/-- `FailedTextureConversions`. -/
structure FailedTextureConversions where
  paths : List Text
  deriving DecidableEq, Repr

/-- An Asset that was attempted, and its result. -/
abbrev FinishedAttempt := RoutedAsset × AssetExecutionResult

/-- A Texture whose conversion was asked for. -/
def isConversion (asset : RoutedAsset) : Bool := decide (asset.target = .texture) && asset.operations.conversion

/-- A DDS that was committed safely although its TGA remains. -/
def committedDds (result : AssetExecutionResult) : Bool :=
  decide (result.failure = some .sourceRemovalFailed) && decide (result.outcome.mutation = .committed) &&
    result.outcome.safeToContinue

/-- A Texture conversion that left no usable DDS. -/
def isFailedConversion (attempt : FinishedAttempt) : Bool :=
  isConversion attempt.1 && !attempt.2.outcome.isSuccess && !committedDds attempt.2

section Record

variable (tables : CaseTables)

/-- `FailedTextureConversions::record_attempt`. -/
def FailedTextureConversions.recordAttempt (failed : FailedTextureConversions) (asset : RoutedAsset)
    (result : AssetExecutionResult) : FailedTextureConversions :=
  if result.outcome.isSuccess || decide (asset.target ≠ .texture) || !asset.operations.conversion || committedDds result
  then failed
  else ⟨failed.paths ++ [normalizedPath tables asset.executionPath]⟩

/-- `FailedTextureConversions::withholds`. -/
def FailedTextureConversions.withholds (failed : FailedTextureConversions) (reference : Bytes) (meshPath : Path) : Bool :=
  if failed.paths.isEmpty then false
  else failed.paths.any fun path =>
    namesSameTexture path (normalizedReference tables reference) (normalizedPath tables meshPath)

/-- What a run that made these attempts has recorded. -/
def recorded (attempts : List FinishedAttempt) : FailedTextureConversions :=
  attempts.foldl (fun failed attempt => failed.recordAttempt tables attempt.1 attempt.2) ⟨[]⟩

/-- The names that a Mesh references, index by index. -/
def Nif.referenced (nif : Nif) : List Bytes := nif.references.filterMap fun slot => nif.strings[slot]?

/-- The references of a Mesh that keep their TGA names after these attempts. -/
def withheld (attempts : List FinishedAttempt) (meshPath : Path) (nif : Nif) : List Bytes :=
  nif.referenced.filter fun reference => containsTga reference && (recorded tables attempts).withholds tables reference meshPath

/-- `maintain_mesh_references` after these attempts, of the Mesh at a path. -/
def maintainedAfter (attempts : List FinishedAttempt) (meshPath : Path) (dryRun : Bool) (nif : Nif) : OperationResult × Nif :=
  maintainMeshReferences dryRun (fun reference => (recorded tables attempts).withholds tables reference meshPath) nif

/-- A reference in a Mesh spells the path of an Asset. -/
def Names (asset : RoutedAsset) (reference : Bytes) (meshPath : Path) : Prop :=
  Spells (normalizedPath tables asset.executionPath) (normalizedReference tables reference) (normalizedPath tables meshPath)

end Record

/-- Two runs attempted the same Assets, and differ at most in the results of Texture conversions beneath a root. -/
def DiffersBeneath (root : Path) (attempts attempts' : List FinishedAttempt) : Prop :=
  List.Forall₂ (fun attempt attempt' => attempt'.1 = attempt.1 ∧
    (¬ (isConversion attempt.1 = true ∧ root <+: attempt.1.executionPath) → attempt'.2 = attempt.2)) attempts attempts'

/-! ## What a reference spells -/

section Spelling

variable {executionPath reference meshPath : Text}

/-- The data root of a match is a folder of the Mesh. -/
theorem isFolder_iff (dataRoot : Text) : (decide (dataRoot.length < meshPath.length) && dataRoot.isPrefixOf meshPath &&
    meshPath[dataRoot.length]? == some '/') = true ↔ dataRoot ++ ['/'] <+: meshPath := by
  rw [Bool.and_eq_true, Bool.and_eq_true, decide_eq_true_iff, List.isPrefixOf_iff_prefix, beq_iff_eq]
  constructor
  · rintro ⟨⟨-, rest, rfl⟩, hslash⟩
    rw [List.getElem?_append_right (le_refl _), Nat.sub_self] at hslash
    cases rest with
    | nil => cases hslash
    | cons c rest =>
      cases hslash
      exact ⟨rest, by rw [List.append_assoc]; rfl⟩
  · rintro ⟨rest, rfl⟩
    refine ⟨⟨?_, ['/'] ++ rest, (List.append_assoc ..).symm⟩, ?_⟩
    · simp only [List.length_append, List.length_cons]
      omega
    · rw [List.append_assoc, List.getElem?_append_right (le_refl _), Nat.sub_self]
      rfl

/-- **The suffix that is matched, with what precedes it.** -/
theorem namesSameTexture_iff : namesSameTexture executionPath reference meshPath = true ↔
    Spells executionPath reference meshPath := by
  unfold namesSameTexture Spells
  by_cases hempty : reference = []
  · subst hempty
    simp
  by_cases hsuffix : reference <:+ executionPath
  · obtain ⟨before, rfl⟩ := hsuffix
    have hnot : (reference.isEmpty || !reference.isSuffixOf (before ++ reference)) = false := by
      rw [Bool.or_eq_false_iff, Bool.not_eq_false', List.isSuffixOf_iff_suffix]
      exact ⟨by simpa using hempty, List.suffix_append ..⟩
    rw [hnot, if_neg Bool.false_ne_true, List.length_append, Nat.add_sub_cancel]
    simp only [hempty, not_false_eq_true, ne_eq, true_and]
    rcases before.eq_nil_or_concat with rfl | ⟨dataRoot, c, rfl⟩
    · simp
    · have hsplit : dataRoot.concat c ++ reference = dataRoot ++ c :: reference := by simp
      have hwhole : dataRoot ++ c :: reference ≠ reference := fun heq => by
        have := congrArg List.length heq
        rw [List.length_append, List.length_cons] at this
        omega
      rw [if_neg (by simp), List.length_concat, Nat.add_sub_cancel, hsplit, List.getElem?_append_right (le_refl _),
        Nat.sub_self, List.take_left', or_iff_right hwhole]
      · by_cases hc : c = '/'
        · subst hc
          rw [if_neg (by simp), Bool.or_eq_true, isFolder_iff, List.isEmpty_iff]
          constructor
          · exact fun h => ⟨dataRoot, rfl, h⟩
          · rintro ⟨other, heq, h⟩
            rwa [List.append_cancel_right heq]
        · rw [if_pos (by simpa using hc)]
          refine iff_of_false Bool.false_ne_true ?_
          rintro ⟨other, heq, -⟩
          exact hc (List.cons.inj (List.append_inj heq (by
            have := congrArg List.length heq
            simp only [List.length_append, List.length_cons] at this
            omega)).2).1
      · rfl
  · have hnot : (reference.isEmpty || !reference.isSuffixOf executionPath) = true := by
      rw [Bool.or_eq_true, Bool.not_eq_true', Bool.eq_false_iff]
      exact .inr fun h => hsuffix (List.isSuffixOf_iff_suffix.mp h)
    rw [hnot, if_pos rfl]
    refine iff_of_false Bool.false_ne_true ?_
    rintro ⟨-, rfl | ⟨dataRoot, rfl, -⟩⟩
    · exact hsuffix (List.suffix_refl _)
    · exact hsuffix ⟨dataRoot ++ ['/'], by rw [List.append_assoc]; rfl⟩

/-- **A reference in a Mesh outside a root spells no Texture beneath it**, short of naming folders of the root itself. -/
theorem spells_beyond_root {root rest : Text} (hroot : root ≠ []) (houtside : ¬ root ++ ['/'] <+: meshPath)
    (h : Spells (root ++ '/' :: rest) reference meshPath) : ∃ folders, folders <:+ root ∧ reference = folders ++ '/' :: rest := by
  obtain ⟨-, rfl | ⟨dataRoot, heq, hdata⟩⟩ := h
  · exact ⟨root, List.suffix_refl _, rfl⟩
  rcases List.append_eq_append_iff.mp heq with ⟨between, rfl, hrest⟩ | ⟨between, rfl, hrest⟩
  · -- the data root would lie beneath the root, and the Mesh with it
    exfalso
    rcases hdata with hnil | hprefix
    · exact hroot (List.append_eq_nil_iff.mp hnil).1
    · refine houtside (List.IsPrefix.trans ?_ hprefix)
      cases between with
      | nil => simp
      | cons c between =>
        cases hrest
        exact ⟨between ++ ['/'], by simp⟩
  · cases between with
    | nil =>
      exfalso
      rcases hdata with hnil | hprefix
      · exact hroot (by rw [List.append_nil]; exact hnil)
      · exact houtside (by rwa [List.append_nil])
    | cons c between =>
      cases hrest
      exact ⟨between, ⟨dataRoot ++ ['/'], by simp⟩, rfl⟩

end Spelling

/-- The text of a path is its names with `\\` between them. -/
theorem nativeText_append {root relative : Path} (hroot : root ≠ []) (hrelative : relative ≠ []) :
    nativeText (root ++ relative) = nativeText root ++ CodePoint.char '\\' :: nativeText relative := by
  unfold nativeText
  induction root with
  | nil => exact absurd rfl hroot
  | cons name root ih =>
    cases root with
    | nil => rw [List.cons_append, List.nil_append, List.intercalate_cons_of_ne_nil hrelative, List.intercalate_singleton,
        List.append_assoc, List.singleton_append]
    | cons next root =>
      have hrest : next :: root ≠ [] := List.cons_ne_nil _ _
      rw [List.cons_append, List.intercalate_cons_of_ne_nil (List.append_ne_nil_of_left_ne_nil hrest _), ih hrest,
        List.intercalate_cons_of_ne_nil hrest, List.append_assoc, List.append_assoc, List.append_assoc]

/-- A path beneath a root. -/
theorem normalizedPath_append {tables : CaseTables} {root relative : Path} (hroot : root ≠ []) (hrelative : relative ≠ []) :
    normalizedPath tables (root ++ relative) = normalizedPath tables root ++ '/' :: normalizedPath tables relative := by
  unfold normalizedPath normalizeAssetPath
  rw [nativeText_append hroot hrelative, OsStr.lossy, List.map_append, List.map_append, List.map_cons, List.map_cons]
  exact toLowercase_slash _ _

/-- **A Mesh outside a root names a Texture beneath it only through the folders of the root.** -/
theorem names_beyond_root {tables : CaseTables} {root relative meshPath : Path} {asset : RoutedAsset} {reference : Bytes}
    (hpath : asset.executionPath = root ++ relative) (hrelative : relative ≠ []) (hroot : normalizedPath tables root ≠ [])
    (houtside : ¬ normalizedPath tables root ++ ['/'] <+: normalizedPath tables meshPath)
    (h : Names tables asset reference meshPath) : ∃ folders, folders <:+ normalizedPath tables root ∧
      normalizedReference tables reference = folders ++ '/' :: normalizedPath tables relative := by
  have hne : root ≠ [] := by
    rintro rfl
    exact hroot rfl
  unfold Names at h
  rw [hpath, normalizedPath_append hne hrelative] at h
  exact spells_beyond_root hroot houtside h
/-! ## What a run records -/

section Recorded

variable {tables : CaseTables} {attempts attempts' : List FinishedAttempt} {meshPath root : Path} {reference : Bytes}

/-- **An attempt is recorded exactly if it is a failed conversion.** -/
theorem recordAttempt_eq (failed : FailedTextureConversions) (attempt : FinishedAttempt) :
    failed.recordAttempt tables attempt.1 attempt.2 =
      if isFailedConversion attempt then ⟨failed.paths ++ [normalizedPath tables attempt.1.executionPath]⟩ else failed := by
  have hnot : (attempt.2.outcome.isSuccess || decide (attempt.1.target ≠ .texture) || !attempt.1.operations.conversion ||
      committedDds attempt.2) = !isFailedConversion attempt := by
    unfold isFailedConversion isConversion
    rw [decide_not]
    cases attempt.2.outcome.isSuccess <;> cases decide (attempt.1.target = .texture) <;>
      cases attempt.1.operations.conversion <;> cases committedDds attempt.2 <;> rfl
  unfold FailedTextureConversions.recordAttempt
  rw [hnot]
  cases isFailedConversion attempt <;> rfl

/-- The record of a run is the path of each failed conversion, in order. -/
theorem recorded_paths (attempts : List FinishedAttempt) : (recorded tables attempts).paths =
    (attempts.filter isFailedConversion).map fun attempt => normalizedPath tables attempt.1.executionPath := by
  have h : ∀ failed : FailedTextureConversions,
      (attempts.foldl (fun failed attempt => failed.recordAttempt tables attempt.1 attempt.2) failed).paths =
        failed.paths ++ (attempts.filter isFailedConversion).map fun attempt =>
          normalizedPath tables attempt.1.executionPath := by
    induction attempts with
    | nil => exact fun failed => (List.append_nil _).symm
    | cons attempt attempts ih =>
      intro failed
      rw [List.foldl_cons, ih, recordAttempt_eq, List.filter_cons]
      split_ifs
      · rw [List.map_cons, List.append_assoc]
        rfl
      · rfl
  exact h ⟨[]⟩

/-- **A reference is withheld exactly if it names a failed conversion.** -/
theorem withholds_iff : (recorded tables attempts).withholds tables reference meshPath = true ↔
    ∃ attempt ∈ attempts, isFailedConversion attempt = true ∧ Names tables attempt.1 reference meshPath := by
  have hempty : ∀ failed : FailedTextureConversions, failed.withholds tables reference meshPath =
      failed.paths.any fun path => namesSameTexture path (normalizedReference tables reference) (normalizedPath tables meshPath) := by
    intro failed
    unfold FailedTextureConversions.withholds
    cases failed.paths <;> rfl
  rw [hempty, recorded_paths, List.any_map, List.any_filter, List.any_eq_true]
  refine exists_congr fun attempt => and_congr_right fun _ => ?_
  rw [Bool.and_eq_true]
  exact and_congr_right fun _ => namesSameTexture_iff

/-! ## Two runs -/

/-- The runs differ in no attempt but the conversions beneath the root. -/
theorem DiffersBeneath.outside (h : DiffersBeneath root attempts attempts') {attempt : FinishedAttempt}
    (houtside : ¬ (isConversion attempt.1 = true ∧ root <+: attempt.1.executionPath)) : attempt ∈ attempts' ↔ attempt ∈ attempts := by
  induction h with
  | nil => rfl
  | @cons first first' rest rest' hfirst _ ih =>
    have hhead : attempt = first' ↔ attempt = first := by
      constructor
      · rintro rfl
        exact Prod.ext hfirst.1 (hfirst.2 (hfirst.1 ▸ houtside))
      · rintro rfl
        exact (Prod.ext hfirst.1 (hfirst.2 houtside)).symm
    rw [List.mem_cons, List.mem_cons, ih, hhead]

/-- The runs attempted the same Assets. -/
theorem DiffersBeneath.attempted (h : DiffersBeneath root attempts attempts') {asset : RoutedAsset} :
    (∃ attempt ∈ attempts', attempt.1 = asset) ↔ ∃ attempt ∈ attempts, attempt.1 = asset := by
  induction h with
  | nil => simp
  | cons hfirst _ ih => simp only [List.mem_cons, exists_eq_or_imp, ih, hfirst.1]

/-- The run in which every conversion beneath a root came out one way. -/
def withResult (root : Path) (result : AssetExecutionResult) (attempts : List FinishedAttempt) : List FinishedAttempt :=
  attempts.map fun attempt =>
    (attempt.1, if isConversion attempt.1 && decide (root <+: attempt.1.executionPath) then result else attempt.2)

theorem differsBeneath_withResult (root : Path) (result : AssetExecutionResult) (attempts : List FinishedAttempt) :
    DiffersBeneath root attempts (withResult root result attempts) := by
  unfold DiffersBeneath withResult
  rw [List.forall₂_map_right_iff, List.forall₂_same]
  refine fun attempt _ => ⟨rfl, fun houtside => if_neg ?_⟩
  rw [Bool.and_eq_true, decide_eq_true_iff]
  exact houtside

/-- A failure beneath the root, or none. -/
theorem mem_withResult {result : AssetExecutionResult} {attempt : FinishedAttempt} (hmem : attempt ∈ attempts)
    (hconversion : isConversion attempt.1 = true) (hbeneath : root <+: attempt.1.executionPath) :
    (attempt.1, result) ∈ withResult root result attempts := by
  refine List.mem_map.mpr ⟨attempt, hmem, Prod.ext rfl (if_pos ?_)⟩
  rw [hconversion, decide_eq_true hbeneath]
  rfl

end Recorded

/-! ## What a Mesh keeps -/

section Unaffected

variable {tables : CaseTables} {attempts attempts' : List FinishedAttempt} {meshPath root : Path} {nif : Nif}

theorem mem_referenced {reference : Bytes} :
    reference ∈ nif.referenced ↔ ∃ slot ∈ nif.references, nif.strings[slot]? = some reference := List.mem_filterMap

theorem mem_withheld {reference : Bytes} : reference ∈ withheld tables attempts meshPath nif ↔
    reference ∈ nif.referenced ∧ containsTga reference = true ∧
      ∃ attempt ∈ attempts, isFailedConversion attempt = true ∧ Names tables attempt.1 reference meshPath := by
  unfold withheld
  rw [List.mem_filter, Bool.and_eq_true, withholds_iff]

/-- **A Mesh is maintained by what is withheld of its own TGA references.** -/
theorem maintainMeshReferences_congr {withholds withholds' : Bytes → Bool} (dryRun : Bool)
    (h : ∀ reference ∈ nif.referenced, containsTga reference = true → withholds reference = withholds' reference) :
    maintainMeshReferences dryRun withholds nif = maintainMeshReferences dryRun withholds' nif := by
  have hrewritable : ∀ slot ∈ nif.references, ∀ reference, nif.strings[slot]? = some reference →
      isRewritable (fun reference => !withholds reference) reference =
        isRewritable (fun reference => !withholds' reference) reference := by
    intro slot hslot reference hreference
    unfold isRewritable
    cases htga : containsTga reference with
    | false => rfl
    | true =>
      dsimp only
      rw [h reference (mem_referenced.mpr ⟨slot, hslot, hreference⟩) htga]
  have hexists : (∃ slot ∈ nif.references, ∃ reference, nif.strings[slot]? = some reference ∧
      isRewritable (fun reference => !withholds reference) reference = true) ↔
      ∃ slot ∈ nif.references, ∃ reference, nif.strings[slot]? = some reference ∧
        isRewritable (fun reference => !withholds' reference) reference = true := by
    refine exists_congr fun slot => and_congr_right fun hslot => exists_congr fun reference => ?_
    exact and_congr_right fun hreference => by rw [hrewritable slot hslot reference hreference]
  cases dryRun with
  | true =>
    rw [maintain_dryRun, maintain_dryRun, Bool.eq_iff_iff.mpr
      ((hasReferencedTgaTexture_iff nif).trans (hexists.trans (hasReferencedTgaTexture_iff nif).symm))]
  | false =>
    have hpassed := @passed_replaceReferenced (fun reference => !withholds reference) nif
    have hpassed' := @passed_replaceReferenced (fun reference => !withholds' reference) nif
    have hstrings : ∀ slot, nif.strings[slot]?.map (rewrite fun reference => !withholds reference) =
        nif.strings[slot]?.map (rewrite fun reference => !withholds' reference) ∨ slot ∉ nif.references := by
      intro slot
      by_cases hslot : slot ∈ nif.references
      · refine .inl ?_
        cases hreference : nif.strings[slot]? with
        | none => rfl
        | some reference =>
          unfold rewrite
          rw [Option.map_some, Option.map_some, hrewritable slot hslot reference hreference]
      · exact .inr hslot
    have hnif : (replaceReferencedTgaTextureNames (fun reference => !withholds reference) nif).2 =
        (replaceReferencedTgaTextureNames (fun reference => !withholds' reference) nif).2 := by
      refine Nif.ext (List.ext_getElem? fun slot => ?_) (hpassed.references.trans hpassed'.references.symm)
      rw [hpassed.strings, hpassed'.strings]
      rcases hstrings slot with hslot | hslot
      · rw [hslot]
      · rw [if_neg hslot, if_neg hslot]
    rw [maintain_apply, maintain_apply, hnif, Bool.eq_iff_iff.mpr (hpassed.changed.trans (hexists.trans hpassed'.changed.symm))]

/-- What two runs withhold of a reference that names no conversion beneath the root. -/
theorem DiffersBeneath.withholds (h : DiffersBeneath root attempts attempts') {reference : Bytes}
    (hnone : ∀ attempt ∈ attempts, isConversion attempt.1 = true → root <+: attempt.1.executionPath →
      ¬ Names tables attempt.1 reference meshPath) :
    (∃ attempt ∈ attempts', isFailedConversion attempt = true ∧ Names tables attempt.1 reference meshPath) ↔
      ∃ attempt ∈ attempts, isFailedConversion attempt = true ∧ Names tables attempt.1 reference meshPath := by
  have houtside : ∀ attempt : FinishedAttempt, (∃ other ∈ attempts, other.1 = attempt.1) →
      Names tables attempt.1 reference meshPath → ¬ (isConversion attempt.1 = true ∧ root <+: attempt.1.executionPath) := by
    rintro attempt ⟨other, hother, heq⟩ hnames ⟨hconversion, hbeneath⟩
    rw [← heq] at hnames hconversion hbeneath
    exact hnone other hother hconversion hbeneath hnames
  constructor
  · rintro ⟨attempt, hmem, hfailed, hnames⟩
    have hout := houtside attempt (h.attempted.mp ⟨attempt, hmem, rfl⟩) hnames
    exact ⟨attempt, (h.outside hout).mp hmem, hfailed, hnames⟩
  · rintro ⟨attempt, hmem, hfailed, hnames⟩
    have hout := houtside attempt ⟨attempt, hmem, rfl⟩ hnames
    exact ⟨attempt, (h.outside hout).mpr hmem, hfailed, hnames⟩

end Unaffected

/-- **No failure of a conversion beneath a root changes what a Mesh keeps, exactly if** each TGA reference of the Mesh is
withheld by a failure outside the root, or names no conversion beneath it. -/
theorem withheld_unaffected_iff (tables : CaseTables) (root meshPath : Path) (nif : Nif) (attempts : List FinishedAttempt) :
    (∀ attempts', DiffersBeneath root attempts attempts' →
      withheld tables attempts' meshPath nif = withheld tables attempts meshPath nif ∧
        ∀ dryRun, maintainedAfter tables attempts' meshPath dryRun nif = maintainedAfter tables attempts meshPath dryRun nif) ↔
    ∀ reference ∈ nif.referenced, containsTga reference = true →
      (∃ attempt ∈ attempts, isFailedConversion attempt = true ∧ ¬ root <+: attempt.1.executionPath ∧
        Names tables attempt.1 reference meshPath) ∨
      ∀ attempt ∈ attempts, isConversion attempt.1 = true → root <+: attempt.1.executionPath →
        ¬ Names tables attempt.1 reference meshPath := by
  constructor
  · intro h reference hmem htga
    by_cases houter : ∃ attempt ∈ attempts, isFailedConversion attempt = true ∧ ¬ root <+: attempt.1.executionPath ∧
        Names tables attempt.1 reference meshPath
    · exact .inl houter
    · refine .inr fun attempt hattempt hconversion hbeneath hnames => houter ?_
      -- were every conversion beneath the root to fail, and were none to
      have hfailed := (h _ (differsBeneath_withResult root (.failed .operationFailed "") attempts)).1
      have hsucceeded := (h _ (differsBeneath_withResult root (.success .committed) attempts)).1
      have hwithheld : reference ∈ withheld tables (withResult root (.failed .operationFailed "") attempts) meshPath nif := by
        refine mem_withheld.mpr ⟨hmem, htga, _, mem_withResult hattempt hconversion hbeneath, ?_, hnames⟩
        unfold isFailedConversion
        rw [hconversion]
        rfl
      rw [hfailed, ← hsucceeded] at hwithheld
      obtain ⟨-, -, other, hother, hfail, hnamesOther⟩ := mem_withheld.mp hwithheld
      obtain ⟨first, hfirst, rfl⟩ := List.mem_map.mp hother
      cases hin : isConversion first.1 && decide (root <+: first.1.executionPath) with
      | true =>
        rw [hin, if_pos rfl] at hfail
        unfold isFailedConversion at hfail
        simp [AssetExecutionResult.success, AttemptOutcome.isSuccess] at hfail
      | false =>
        rw [hin, if_neg Bool.false_ne_true] at hfail
        refine ⟨first, hfirst, hfail, fun hprefix => ?_, hnamesOther⟩
        unfold isFailedConversion at hfail
        simp only [Bool.and_eq_true] at hfail
        rw [hfail.1.1, decide_eq_true hprefix] at hin
        cases hin
  · intro h attempts' hdiffers
    have hsame : ∀ reference ∈ nif.referenced, containsTga reference = true →
        (recorded tables attempts').withholds tables reference meshPath =
          (recorded tables attempts).withholds tables reference meshPath := by
      intro reference hmem htga
      rw [Bool.eq_iff_iff, withholds_iff, withholds_iff]
      rcases h reference hmem htga with ⟨attempt, hattempt, hfailed, houtside, hnames⟩ | hnone
      · have hmem' := (hdiffers.outside fun hboth => houtside hboth.2).mpr hattempt
        exact iff_of_true ⟨attempt, hmem', hfailed, hnames⟩ ⟨attempt, hattempt, hfailed, hnames⟩
      · exact hdiffers.withholds hnone
    refine ⟨List.filter_congr fun reference hmem => ?_, fun dryRun => maintainMeshReferences_congr dryRun hsame⟩
    cases htga : containsTga reference with
    | false => rfl
    | true => rw [hsame reference hmem htga]

/-! ## A Mod Root named like a folder of Data -/

/-- A TGA whose conversion was asked for. -/
def convertible (path : Path) : RoutedAsset where
  executionPath := path
  identity := .texture .convertible
  phase := .looseAssetProcessing
  target := .texture
  executionMode := .apply
  operations := { Routing.AssetOperations.default with conversion := true }

/-- A path of these names. -/
def windowsPath (names : List String) : Path := names.map fun name => OsStr.ofText name.toList

/-- **The failure of one mod's Texture withholds another's reference**: `textures\\x.tga`, of `C:\\mods\\b`, also spells
`C:\\mods\\textures\\x.tga`. -/
theorem sibling_failure_withholds : ¬ ∀ (tables : CaseTables) (rootA rootB meshPath : Path) (nif : Nif)
    (attempts attempts' : List FinishedAttempt), ¬ rootA <+: rootB → ¬ rootB <+: rootA → rootB <+: meshPath →
    DiffersBeneath rootA attempts attempts' →
    withheld tables attempts' meshPath nif = withheld tables attempts meshPath nif := by
  intro h
  let rootA := windowsPath ["C:", "mods", "textures"]
  let rootB := windowsPath ["C:", "mods", "b"]
  let nif : Nif := ⟨[bytes "textures\\x.tga".toList], [0], by decide⟩
  let attempts := [(convertible (rootA ++ windowsPath ["x.tga"]), AssetExecutionResult.success .committed),
    (convertible (rootB ++ windowsPath ["textures", "x.tga"]), AssetExecutionResult.success .committed)]
  have := h .ascii rootA rootB (rootB ++ windowsPath ["meshes", "y.nif"]) nif attempts
    (withResult rootA (.failed .operationFailed "") attempts) (by decide) (by decide) (List.prefix_append ..)
    (differsBeneath_withResult ..)
  revert this
  decide +kernel

end Cao.Mesh
