import Cao.Routing.Route
import Mathlib.Data.List.Nodup

/-!
# Compiling a Routing Policy

How a request, a Profile's capabilities and its Conversion Preference become one policy or every conflict at once
(`RoutingPolicy::compile` of `routing.rs`).

* `ProfileCapabilities`, `RoutingPolicyRequest`, `PolicyValidationError`: the compiler's input and its conflicts;
* `RoutingPolicy.compile`: the compiler;
* **`compile_conflicts`**: it reports every conflict once, in compiler order, and fails exactly when there is one;
* **`route_compiled`**: its policy routes a path for the operations that the request and the Profile give it, and for
  no other;
* **`route_skipped`**: a skipped path's reason says whether its Asset Kind has work at all.
-/

namespace Cao.Routing

open Evidence

/-! ## Work and capabilities -/

/-- `AssetOperation`. -/
inductive AssetOperation
  | extraction
  | optimization
  | conversion
  | meshReferenceMaintenance
  deriving DecidableEq, Repr

/-- `AssetOperations::contains`. -/
def AssetOperations.contains (operations : AssetOperations) : AssetOperation → Bool
  | .extraction => operations.extraction
  | .optimization => operations.optimization
  | .conversion => operations.conversion
  | .meshReferenceMaintenance => operations.meshReferenceMaintenance

/-- `AssetVariant`. -/
inductive AssetVariant
  | texture (variant : TextureVariant)
  | mesh (variant : MeshVariant)
  deriving DecidableEq, Repr

/-- `ProfileCapability`. -/
inductive ProfileCapability
  | nativeTextureOptimization
  | convertibleTextureConversion
  | standardMeshOptimization
  | terrainMeshOptimization
  | animationOptimization
  | archiveExtraction
  | meshReferenceMaintenance
  | archiveCreation
  deriving DecidableEq, Repr

namespace ProfileCapability

/-- `CAPABILITIES`. -/
def all : List ProfileCapability := [.nativeTextureOptimization, .convertibleTextureConversion,
  .standardMeshOptimization, .terrainMeshOptimization, .animationOptimization, .archiveExtraction,
  .meshReferenceMaintenance, .archiveCreation]

/-- `capability_kind`. -/
def kind : ProfileCapability → AssetKind
  | nativeTextureOptimization | convertibleTextureConversion => .texture
  | standardMeshOptimization | terrainMeshOptimization | meshReferenceMaintenance => .mesh
  | animationOptimization => .animation
  | archiveExtraction | archiveCreation => .archive

@[simp] theorem mem_all (capability : ProfileCapability) : capability ∈ all := by
  cases capability <;> decide

end ProfileCapability

namespace RequestedWork

/-- The discriminant of a work choice. -/
def index : RequestedWork → Nat
  | nativeTextureOptimization => 0
  | standardMeshOptimization => 1
  | terrainMeshOptimization => 2
  | animationOptimization => 3
  | archiveExtraction => 4
  | archiveCreation => 5

/-- Every work choice, in enumeration order. -/
def all : List RequestedWork := [.nativeTextureOptimization, .standardMeshOptimization, .terrainMeshOptimization,
  .animationOptimization, .archiveExtraction, .archiveCreation]

/-- The capability a work choice needs, in `REQUESTED_WORK_DEFINITIONS`. -/
def capability : RequestedWork → ProfileCapability
  | nativeTextureOptimization => .nativeTextureOptimization
  | standardMeshOptimization => .standardMeshOptimization
  | terrainMeshOptimization => .terrainMeshOptimization
  | animationOptimization => .animationOptimization
  | archiveExtraction => .archiveExtraction
  | archiveCreation => .archiveCreation

/-- The Variant a work choice targets, in `REQUESTED_WORK_DEFINITIONS`. -/
def variant : RequestedWork → Option AssetVariant
  | nativeTextureOptimization => some (.texture .native)
  | standardMeshOptimization => some (.mesh .standard)
  | terrainMeshOptimization => some (.mesh .terrain)
  | _ => none

@[simp] theorem mem_all (work : RequestedWork) : work ∈ all := by
  cases work <;> decide

theorem all_ordered : all.Pairwise fun first second => first.index < second.index := by
  decide

end RequestedWork

/-- `RoutingPolicyRequest`: the closed set of work as its membership. -/
structure RoutingPolicyRequest where
  executionMode : ExecutionMode
  work : RequestedWork → Bool

/-- `RoutingPolicyRequest::for_work`. -/
def RoutingPolicyRequest.forWork (executionMode : ExecutionMode) (work : List RequestedWork) : RoutingPolicyRequest :=
  ⟨executionMode, fun choice => choice ∈ work⟩

/-- `ProfileCapabilities`: the closed set of capabilities as its membership. -/
structure ProfileCapabilities where
  archiveExtension : Option Text
  supports : ProfileCapability → Bool

namespace ProfileCapabilities

/-- `ProfileCapabilities::define`. -/
def define (archiveExtension : Text) (capabilities : List ProfileCapability) : ProfileCapabilities :=
  ⟨some archiveExtension, fun capability => capability ∈ capabilities⟩

/-- `ProfileCapabilities::without_archive_extension`. -/
def withoutArchiveExtension (capabilities : List ProfileCapability) : ProfileCapabilities :=
  ⟨none, fun capability => capability ∈ capabilities⟩

/-- `ProfileCapabilities::supports_kind`. -/
def supportsKind (capabilities : ProfileCapabilities) (kind : AssetKind) : Bool :=
  ProfileCapability.all.any fun capability => capabilities.supports capability && capability.kind == kind

end ProfileCapabilities

/-! ## Conflicts -/

/-- `MalformedArchiveExtensionReason`. -/
inductive MalformedArchiveExtensionReason
  | missingLeadingPeriod
  | emptySuffix
  | invalidCharacter
  deriving DecidableEq, Repr

/-- `PolicyValidationError`. -/
inductive PolicyValidationError
  | missingArchiveExtension
  | malformedArchiveExtension (extension : Text) (reason : MalformedArchiveExtensionReason)
  | ambiguousArchiveExtension (extension conflictingExtension : Text) (conflictingKind : AssetKind)
  | unsupportedRequestedAssetKind (request : RequestedWork) (kind : AssetKind)
  | unsupportedRequestedAssetVariant (request : RequestedWork) (variant : AssetVariant)
  | unsupportedDerivedOperation (cause : RequestedWork) (operation : AssetOperation)
  deriving DecidableEq, Repr

/-- `asset_kind_name`. -/
def AssetKind.name : AssetKind → String
  | texture => "Texture"
  | mesh => "Mesh"
  | animation => "Animation"
  | archive => "Archive"

/-- `requested_work_name`. -/
def RequestedWork.name : RequestedWork → String
  | nativeTextureOptimization => "native Texture optimization"
  | standardMeshOptimization => "standard Mesh optimization"
  | terrainMeshOptimization => "terrain Mesh optimization"
  | animationOptimization => "Animation optimization"
  | archiveExtraction => "Archive extraction"
  | archiveCreation => "Archive creation"

/-- `asset_variant_name`. -/
def AssetVariant.name : AssetVariant → String
  | texture .native => "native Texture"
  | texture .convertible => "convertible Texture"
  | mesh .standard => "standard Mesh"
  | mesh .terrain => "terrain Mesh"

/-- A reason, as a message gives it. -/
def MalformedArchiveExtensionReason.text : MalformedArchiveExtensionReason → String
  | missingLeadingPeriod => "it must begin with a period"
  | emptySuffix => "it must include characters after the period"
  | invalidCharacter => "it may contain only ASCII letters and digits after the period"

/-- `Display for PolicyValidationError`. -/
def PolicyValidationError.message : PolicyValidationError → Text
  | missingArchiveExtension => "The selected profile is missing its Archive extension.".toList
  | malformedArchiveExtension extension reason =>
    "The selected profile Archive extension '".toList ++ extension ++ "' is invalid because ".toList ++
      reason.text.toList ++ ".".toList
  | ambiguousArchiveExtension extension conflictingExtension conflictingKind =>
    "The selected profile Archive extension '".toList ++ extension ++ "' conflicts with the built-in ".toList ++
      conflictingKind.name.toList ++ " extension '".toList ++ conflictingExtension ++ "'.".toList
  | unsupportedRequestedAssetKind request kind =>
    "The selected profile does not support requested ".toList ++ request.name.toList ++ " for the ".toList ++
      kind.name.toList ++ " Asset Kind.".toList
  | unsupportedRequestedAssetVariant request variant =>
    "The selected profile does not support requested ".toList ++ request.name.toList ++ " for the ".toList ++
      variant.name.toList ++ " Asset Variant.".toList
  | unsupportedDerivedOperation cause _ =>
    "Requested ".toList ++ cause.name.toList ++ " requires unsupported Mesh Reference Maintenance.".toList

/-! ## The compiler -/

/-- `BUILT_IN_EXTENSIONS`. -/
def builtInExtensions : List (Text × AssetKind) := [
  (".dds".toList, .texture), (".tga".toList, .texture), (".nif".toList, .mesh), (".btr".toList, .mesh),
  (".bto".toList, .mesh), (".hkx".toList, .animation)]

/-- `malformed_reason`. -/
def malformedReason : Text → Option MalformedArchiveExtensionReason
  | '.' :: suffix =>
    if suffix = [] then some .emptySuffix
    else if !suffix.all Char.isAlphanum then some .invalidCharacter
    else none
  | _ => some .missingLeadingPeriod

/-- The extension a policy holds, and its conflict. -/
def checkArchiveExtension : Option Text → Text × List PolicyValidationError
  | none => ([], [.missingArchiveExtension])
  | some extension =>
    if extension = [] then ([], [.missingArchiveExtension])
    else
      match malformedReason extension with
      | some reason => ([], [.malformedArchiveExtension extension reason])
      | none =>
        let archiveExtension := extension.map Char.toLower
        match builtInExtensions.find? fun builtIn => builtIn.1 = archiveExtension with
        | some builtIn => (archiveExtension, [.ambiguousArchiveExtension extension builtIn.1 builtIn.2])
        | none => (archiveExtension, [])

/-- The conflict of work whose capability the Profile lacks: of its Kind, where no Variant of it could be offered. -/
def unsupportedWork (capabilities : ProfileCapabilities) (work : RequestedWork) : PolicyValidationError :=
  match work.variant with
  | some variant =>
    if capabilities.supportsKind work.capability.kind then .unsupportedRequestedAssetVariant work variant
    else .unsupportedRequestedAssetKind work work.capability.kind
  | none => .unsupportedRequestedAssetKind work work.capability.kind

namespace RoutingPolicyRequest

/-- Whether the policy converts Textures. -/
def convertsTextures (request : RoutingPolicyRequest) (capabilities : ProfileCapabilities)
    (prefersConversion : Bool) : Bool :=
  prefersConversion && request.work .nativeTextureOptimization && capabilities.supports .convertibleTextureConversion

/-- The work that is requested of a Profile without its capability, in enumeration order. -/
def unsupported (request : RoutingPolicyRequest) (capabilities : ProfileCapabilities) : List RequestedWork :=
  RequestedWork.all.filter fun work => request.work work && !capabilities.supports work.capability

/-- The conflicts of a request, in compiler order. -/
def conflicts (request : RoutingPolicyRequest) (capabilities : ProfileCapabilities) (prefersConversion : Bool) :
    List PolicyValidationError :=
  let errors := (checkArchiveExtension capabilities.archiveExtension).2
  let errors := errors ++ (request.unsupported capabilities).map (unsupportedWork capabilities)
  if request.convertsTextures capabilities prefersConversion && !capabilities.supports .meshReferenceMaintenance then
    errors ++ [.unsupportedDerivedOperation .nativeTextureOptimization .meshReferenceMaintenance]
  else errors

end RoutingPolicyRequest

/-- `RoutingPolicy::compile`. -/
def RoutingPolicy.compile (request : RoutingPolicyRequest) (capabilities : ProfileCapabilities)
    (prefersConversion : Bool) : Except (List PolicyValidationError) RoutingPolicy :=
  let errors := request.conflicts capabilities prefersConversion
  if errors ≠ [] then .error errors
  else
    .ok {
      executionMode := request.executionMode
      work := RequestedWork.all.filter request.work
      convertsTextures := request.convertsTextures capabilities prefersConversion
      archiveExtension := (checkArchiveExtension capabilities.archiveExtension).1 }

/-! ## Every conflict once -/

section Conflicts

variable (request : RoutingPolicyRequest) (capabilities : ProfileCapabilities) (prefersConversion : Bool)

/-- Why an extension is malformed, by its grammar: a period, then ASCII letters and digits. -/
inductive Malformed : Text → MalformedArchiveExtensionReason → Prop
  | missingLeadingPeriod {extension : Text} (h : extension.head? ≠ some '.') : Malformed extension .missingLeadingPeriod
  | emptySuffix : Malformed ['.'] .emptySuffix
  | invalidCharacter {suffix : Text} {c : Char} (hc : c ∈ suffix) (h : c.isAlphanum = false) :
    Malformed ('.' :: suffix) .invalidCharacter

/-- An extension that keeps to the grammar. -/
def WellFormedExtension (extension : Text) : Prop :=
  ∃ suffix, extension = '.' :: suffix ∧ suffix ≠ [] ∧ ∀ c ∈ suffix, c.isAlphanum = true

/-- What a request and a Profile disagree about. -/
inductive Conflict : PolicyValidationError → Prop
  | missing (h : capabilities.archiveExtension.getD [] = []) : Conflict .missingArchiveExtension
  | malformed {extension : Text} {reason : MalformedArchiveExtensionReason}
    (hextension : capabilities.archiveExtension = some extension) (hne : extension ≠ [])
    (h : Malformed extension reason) : Conflict (.malformedArchiveExtension extension reason)
  | ambiguous {extension : Text} {builtIn : Text × AssetKind}
    (hextension : capabilities.archiveExtension = some extension) (hform : WellFormedExtension extension)
    (h : builtIn ∈ builtInExtensions) (hsame : extension.map Char.toLower = builtIn.1) :
    Conflict (.ambiguousArchiveExtension extension builtIn.1 builtIn.2)
  | kind {work : RequestedWork} (hrequested : request.work work = true)
    (hlacks : capabilities.supports work.capability = false)
    (h : work.variant = none ∨ ∀ other, capabilities.supports other = true → other.kind ≠ work.capability.kind) :
    Conflict (.unsupportedRequestedAssetKind work work.capability.kind)
  | variant {work : RequestedWork} {variant : AssetVariant} {other : ProfileCapability}
    (hrequested : request.work work = true) (hlacks : capabilities.supports work.capability = false)
    (hvariant : work.variant = some variant) (hother : capabilities.supports other = true)
    (h : other.kind = work.capability.kind) : Conflict (.unsupportedRequestedAssetVariant work variant)
  | derived (hprefers : prefersConversion = true) (hrequested : request.work .nativeTextureOptimization = true)
    (hconverts : capabilities.supports .convertibleTextureConversion = true)
    (hlacks : capabilities.supports .meshReferenceMaintenance = false) :
    Conflict (.unsupportedDerivedOperation .nativeTextureOptimization .meshReferenceMaintenance)

/-- Compiler order: the extension, each work choice in enumeration order, derived work. -/
def PolicyValidationError.rank : PolicyValidationError → Nat
  | missingArchiveExtension | malformedArchiveExtension .. | ambiguousArchiveExtension .. => 0
  | unsupportedRequestedAssetKind request _ | unsupportedRequestedAssetVariant request _ => 1 + request.index
  | unsupportedDerivedOperation .. => 7

variable {request capabilities prefersConversion}

theorem malformedReason_eq_some_iff {extension : Text} {reason : MalformedArchiveExtensionReason} :
    malformedReason extension = some reason ↔ Malformed extension reason := by
  constructor
  · intro h
    unfold malformedReason at h
    split at h
    · rename_i suffix
      split_ifs at h with hempty hvalid
      · cases h
        subst hempty
        exact .emptySuffix
      · cases h
        have hany : ∃ c ∈ suffix, c.isAlphanum = false := by simpa using hvalid
        obtain ⟨c, hc, hbad⟩ := hany
        exact .invalidCharacter hc hbad
    · rename_i hperiod
      cases h
      refine .missingLeadingPeriod fun hhead => ?_
      obtain ⟨suffix, rfl⟩ := List.head?_eq_some_iff.mp hhead
      exact hperiod suffix rfl
  · intro h
    cases h with
    | missingLeadingPeriod h =>
      unfold malformedReason
      split
      · exact absurd rfl h
      · rfl
    | emptySuffix => rfl
    | @invalidCharacter suffix c hc h =>
      have hne : suffix ≠ [] := List.ne_nil_of_mem hc
      have hany : suffix.all Char.isAlphanum = false := List.all_eq_false.mpr ⟨c, hc, by simp [h]⟩
      simp [malformedReason, hne, hany]

theorem malformedReason_eq_none_iff {extension : Text} :
    malformedReason extension = none ↔ WellFormedExtension extension := by
  constructor
  · intro h
    unfold malformedReason at h
    split at h
    · rename_i suffix
      split_ifs at h with hempty hvalid
      exact ⟨suffix, rfl, hempty, by simpa using hvalid⟩
    · cases h
  · rintro ⟨suffix, rfl, hne, hall⟩
    simpa [malformedReason, hne] using hall

theorem find_builtInExtensions {builtIn : Text × AssetKind} (h : builtIn ∈ builtInExtensions) :
    (builtInExtensions.find? fun other => other.1 = builtIn.1) = some builtIn := by
  simp only [builtInExtensions, List.mem_cons, List.not_mem_nil, or_false] at h
  rcases h with rfl | rfl | rfl | rfl | rfl | rfl <;> rfl

theorem Conflict.of_checkArchiveExtension {error : PolicyValidationError}
    (h : error ∈ (checkArchiveExtension capabilities.archiveExtension).2) :
    Conflict request capabilities prefersConversion error ∧ error.rank = 0 := by
  unfold checkArchiveExtension at h
  cases hextension : capabilities.archiveExtension with
  | none =>
    rw [hextension] at h
    cases List.mem_singleton.mp h
    exact ⟨.missing (by rw [hextension]; rfl), rfl⟩
  | some extension =>
    rw [hextension] at h
    dsimp only at h
    split_ifs at h with hempty
    · cases List.mem_singleton.mp h
      exact ⟨.missing (by rw [hextension]; exact hempty), rfl⟩
    · cases hreason : malformedReason extension with
      | some reason =>
        rw [hreason] at h
        cases List.mem_singleton.mp h
        exact ⟨.malformed hextension hempty (malformedReason_eq_some_iff.mp hreason), rfl⟩
      | none =>
        rw [hreason] at h
        dsimp only at h
        cases hfind : builtInExtensions.find? fun builtIn => builtIn.1 = extension.map Char.toLower with
        | none => simp [hfind] at h
        | some builtIn =>
          rw [hfind] at h
          cases List.mem_singleton.mp h
          have hsame : builtIn.1 = extension.map Char.toLower := by simpa using List.find?_some hfind
          exact ⟨.ambiguous hextension (malformedReason_eq_none_iff.mp hreason) (List.mem_of_find?_eq_some hfind)
            hsame.symm, rfl⟩

/-- **The extension's conflict**, if it has one. -/
theorem mem_checkArchiveExtension (error : PolicyValidationError) :
    error ∈ (checkArchiveExtension capabilities.archiveExtension).2 ↔
      Conflict request capabilities prefersConversion error ∧ error.rank = 0 := by
  refine ⟨Conflict.of_checkArchiveExtension, fun ⟨h, hrank⟩ => ?_⟩
  cases h with
  | missing h =>
    cases hextension : capabilities.archiveExtension with
    | none => simp [checkArchiveExtension]
    | some extension =>
      have hempty : extension = [] := by simpa [hextension] using h
      simp [checkArchiveExtension, hempty]
  | malformed hextension hne h =>
    rw [hextension]
    simp [checkArchiveExtension, hne, malformedReason_eq_some_iff.mpr h]
  | @ambiguous extension builtIn hextension hform h hsame =>
    have hne : extension ≠ [] := by
      obtain ⟨suffix, rfl, -⟩ := hform
      exact List.cons_ne_nil _ _
    rw [hextension]
    simp [checkArchiveExtension, hne, malformedReason_eq_none_iff.mpr hform, hsame, find_builtInExtensions h]
  | kind => exact absurd hrank (by simp [PolicyValidationError.rank])
  | variant => exact absurd hrank (by simp [PolicyValidationError.rank])
  | derived => exact absurd hrank (by simp [PolicyValidationError.rank])

theorem supportsKind_iff {kind : AssetKind} :
    capabilities.supportsKind kind = true ↔ ∃ other, capabilities.supports other = true ∧ other.kind = kind := by
  simp [ProfileCapabilities.supportsKind]

theorem rank_unsupportedWork (work : RequestedWork) : (unsupportedWork capabilities work).rank = 1 + work.index := by
  unfold unsupportedWork
  cases work.variant with
  | none => rfl
  | some variant =>
    dsimp only
    split_ifs <;> rfl

theorem mem_unsupported {work : RequestedWork} : work ∈ request.unsupported capabilities ↔
    request.work work = true ∧ capabilities.supports work.capability = false := by
  simp [RoutingPolicyRequest.unsupported]

theorem index_lt (work : RequestedWork) : work.index < 6 := by
  cases work <;> decide

/-- **The conflicts of requested work.** -/
theorem mem_unsupportedWork (error : PolicyValidationError) :
    error ∈ (request.unsupported capabilities).map (unsupportedWork capabilities) ↔
      Conflict request capabilities prefersConversion error ∧ 0 < error.rank ∧ error.rank < 7 := by
  rw [List.mem_map]
  constructor
  · rintro ⟨work, hwork, rfl⟩
    obtain ⟨hrequested, hlacks⟩ := mem_unsupported.mp hwork
    refine ⟨?_, ?_⟩
    · unfold unsupportedWork
      cases hvariant : work.variant with
      | none => exact .kind hrequested hlacks (Or.inl hvariant)
      | some variant =>
        dsimp only
        split_ifs with hkind
        · obtain ⟨other, hother, hsame⟩ := supportsKind_iff.mp hkind
          exact .variant hrequested hlacks hvariant hother hsame
        · exact .kind hrequested hlacks (Or.inr fun other hother hsame => hkind (supportsKind_iff.mpr ⟨other, hother, hsame⟩))
    · have := index_lt work
      rw [rank_unsupportedWork]
      omega
  · rintro ⟨h, hpos, hlt⟩
    cases h with
    | missing | malformed | ambiguous => exact absurd hpos (by simp [PolicyValidationError.rank])
    | @kind work hrequested hlacks h =>
      refine ⟨work, mem_unsupported.mpr ⟨hrequested, hlacks⟩, ?_⟩
      unfold unsupportedWork
      cases hvariant : work.variant with
      | none => rfl
      | some variant =>
        have hkind : ¬capabilities.supportsKind work.capability.kind = true := fun hkind => by
          obtain ⟨other, hother, hsame⟩ := supportsKind_iff.mp hkind
          rcases h with hnone | hnone
          · rw [hvariant] at hnone
            cases hnone
          · exact hnone other hother hsame
        exact if_neg hkind
    | @variant work variant other hrequested hlacks hvariant hother h =>
      refine ⟨work, mem_unsupported.mpr ⟨hrequested, hlacks⟩, ?_⟩
      unfold unsupportedWork
      rw [hvariant]
      exact if_pos (supportsKind_iff.mpr ⟨other, hother, h⟩)
    | derived => exact absurd hlt (by simp [PolicyValidationError.rank])

/-- **The conflicts reported are the conflicts there are.** -/
theorem mem_conflicts (error : PolicyValidationError) :
    error ∈ request.conflicts capabilities prefersConversion ↔ Conflict request capabilities prefersConversion error := by
  have hderived : (request.convertsTextures capabilities prefersConversion &&
      !capabilities.supports .meshReferenceMaintenance) = true ↔ prefersConversion = true ∧
      request.work .nativeTextureOptimization = true ∧ capabilities.supports .convertibleTextureConversion = true ∧
      capabilities.supports .meshReferenceMaintenance = false := by
    simp [RoutingPolicyRequest.convertsTextures, and_assoc]
  have hparts : error ∈ request.conflicts capabilities prefersConversion ↔
      error ∈ (checkArchiveExtension capabilities.archiveExtension).2 ∨
      error ∈ (request.unsupported capabilities).map (unsupportedWork capabilities) ∨
      (request.convertsTextures capabilities prefersConversion && !capabilities.supports .meshReferenceMaintenance) = true ∧
        error = .unsupportedDerivedOperation .nativeTextureOptimization .meshReferenceMaintenance := by
    unfold RoutingPolicyRequest.conflicts
    dsimp only
    split_ifs with h <;> simp [h, or_assoc]
  rw [hparts, @mem_checkArchiveExtension request _ prefersConversion,
    @mem_unsupportedWork _ _ prefersConversion, hderived]
  constructor
  · rintro (h | h | ⟨⟨hprefers, hrequested, hconverts, hlacks⟩, rfl⟩)
    · exact h.1
    · exact h.1
    · exact .derived hprefers hrequested hconverts hlacks
  · intro h
    cases h with
    | missing h => exact Or.inl ⟨.missing h, rfl⟩
    | malformed hextension hne h => exact Or.inl ⟨.malformed hextension hne h, rfl⟩
    | ambiguous hextension hform h hsame => exact Or.inl ⟨.ambiguous hextension hform h hsame, rfl⟩
    | @kind work hrequested hlacks h =>
      have := index_lt work
      exact Or.inr (Or.inl ⟨.kind hrequested hlacks h, by simp [PolicyValidationError.rank],
        by simp only [PolicyValidationError.rank]; omega⟩)
    | @variant work variant other hrequested hlacks hvariant hother h =>
      have := index_lt work
      exact Or.inr (Or.inl ⟨.variant hrequested hlacks hvariant hother h, by simp [PolicyValidationError.rank],
        by simp only [PolicyValidationError.rank]; omega⟩)
    | derived hprefers hrequested hconverts hlacks =>
      exact Or.inr (Or.inr ⟨⟨hprefers, hrequested, hconverts, hlacks⟩, rfl⟩)

theorem length_checkArchiveExtension (extension : Option Text) : (checkArchiveExtension extension).2.length ≤ 1 := by
  unfold checkArchiveExtension
  cases extension with
  | none => exact Nat.le_refl 1
  | some extension =>
    dsimp only
    split_ifs
    · exact Nat.le_refl 1
    · cases malformedReason extension with
      | some reason => exact Nat.le_refl 1
      | none =>
        dsimp only
        split
        · exact Nat.le_refl 1
        · exact Nat.zero_le 1

/-- **The conflicts come in compiler order.** -/
theorem conflicts_ordered : (request.conflicts capabilities prefersConversion).Pairwise fun first second =>
    first.rank < second.rank := by
  have hextension : (checkArchiveExtension capabilities.archiveExtension).2.Pairwise fun first second =>
      first.rank < second.rank := by
    have hlength := length_checkArchiveExtension capabilities.archiveExtension
    match h : (checkArchiveExtension capabilities.archiveExtension).2 with
    | [] => exact List.Pairwise.nil
    | [_] => exact List.pairwise_singleton _ _
    | _ :: _ :: _ => simp [h] at hlength
  have hwork : ((request.unsupported capabilities).map (unsupportedWork capabilities)).Pairwise fun first second =>
      first.rank < second.rank := by
    rw [List.pairwise_map]
    refine (RequestedWork.all_ordered.filter _).imp fun {first second} hlt => ?_
    rw [rank_unsupportedWork, rank_unsupportedWork]
    omega
  have hboth : ((checkArchiveExtension capabilities.archiveExtension).2 ++
      (request.unsupported capabilities).map (unsupportedWork capabilities)).Pairwise fun first second =>
      first.rank < second.rank := by
    refine List.pairwise_append.mpr ⟨hextension, hwork, fun first hfirst second hsecond => ?_⟩
    have hzero := (@Conflict.of_checkArchiveExtension request _ prefersConversion _ hfirst).2
    have hpos := ((@mem_unsupportedWork _ _ prefersConversion second).mp hsecond).2.1
    omega
  unfold RoutingPolicyRequest.conflicts
  dsimp only
  split_ifs
  · refine List.pairwise_append.mpr ⟨hboth, List.pairwise_singleton _ _, fun first hfirst second hsecond => ?_⟩
    cases List.mem_singleton.mp hsecond
    rcases List.mem_append.mp hfirst with hextension | hwork
    · have hzero :=
        (@Conflict.of_checkArchiveExtension request _ prefersConversion _ hextension).2
      rw [hzero]
      exact Nat.zero_lt_succ 6
    · exact ((@mem_unsupportedWork _ _ prefersConversion first).mp hwork).2.2
  · exact hboth

/-- Two lists in strict order of rank with the same members are one. -/
theorem eq_of_ranked {errors errors' : List PolicyValidationError}
    (h : errors.Pairwise fun first second => first.rank < second.rank)
    (h' : errors'.Pairwise fun first second => first.rank < second.rank) (hsame : ∀ error, error ∈ errors ↔ error ∈ errors') :
    errors = errors' := by
  have hnodup : ∀ {l : List PolicyValidationError}, l.Pairwise (fun first second => first.rank < second.rank) → l.Nodup :=
    fun hl => hl.imp fun {first second} hlt heq => by rw [heq] at hlt; exact Nat.lt_irrefl _ hlt
  have hperm : errors.Perm errors' := (List.perm_ext_iff_of_nodup (hnodup h) (hnodup h')).mpr hsame
  exact hperm.eq_of_pairwise (fun first second _ _ hlt hgt => absurd (Nat.lt_trans hlt hgt) (Nat.lt_irrefl _)) h h'

/-- **The compiler's errors are the conflicts there are, each once, in compiler order.** -/
theorem compile_conflicts (request : RoutingPolicyRequest) (capabilities : ProfileCapabilities) (prefersConversion : Bool)
    (errors : List PolicyValidationError) :
    RoutingPolicy.compile request capabilities prefersConversion = .error errors ↔
      errors ≠ [] ∧ (∀ error, error ∈ errors ↔ Conflict request capabilities prefersConversion error) ∧
        errors.Pairwise fun first second => first.rank < second.rank := by
  have hcompile : RoutingPolicy.compile request capabilities prefersConversion = .error errors ↔
      request.conflicts capabilities prefersConversion ≠ [] ∧
        request.conflicts capabilities prefersConversion = errors := by
    unfold RoutingPolicy.compile
    dsimp only
    split_ifs with h <;> simp [h]
  rw [hcompile]
  constructor
  · rintro ⟨hne, rfl⟩
    exact ⟨hne, mem_conflicts, conflicts_ordered⟩
  · rintro ⟨hne, hmem, hordered⟩
    have hsame : request.conflicts capabilities prefersConversion = errors :=
      eq_of_ranked conflicts_ordered hordered fun error => (mem_conflicts error).trans (hmem error).symm
    exact ⟨hsame ▸ hne, hsame⟩

/-- And it succeeds exactly where there is none. -/
theorem compile_ok_iff : (∃ policy, RoutingPolicy.compile request capabilities prefersConversion = .ok policy) ↔
    ∀ error, ¬Conflict request capabilities prefersConversion error := by
  have hnil : request.conflicts capabilities prefersConversion = [] ↔
      ∀ error, ¬Conflict request capabilities prefersConversion error := by
    rw [List.eq_nil_iff_forall_not_mem]
    exact forall_congr' fun error => not_congr (mem_conflicts error)
  rw [← hnil]
  unfold RoutingPolicy.compile
  dsimp only
  split_ifs with h <;> simpa using h

end Conflicts

/-! ## What a compiled policy routes -/

/-- The Asset a work choice is done on, and the operation; Archive creation is done on none. -/
def RequestedWork.performs : RequestedWork → Option (AssetIdentity × AssetOperation)
  | nativeTextureOptimization => some (.texture .native, .optimization)
  | standardMeshOptimization => some (.mesh .standard, .optimization)
  | terrainMeshOptimization => some (.mesh .terrain, .optimization)
  | animationOptimization => some (.animation, .optimization)
  | archiveExtraction => some (.archive, .extraction)
  | archiveCreation => none

/-- The phase an Asset is processed in. -/
def AssetIdentity.phase (identity : AssetIdentity) : RoutedAssetPhase :=
  if identity.kind = .archive then .archiveExtraction else .looseAssetProcessing

/-- The optimizer an Asset is processed by. -/
def AssetIdentity.target (identity : AssetIdentity) : OptimizerTarget :=
  match identity.kind with
  | .texture => .texture
  | .mesh => .mesh
  | .animation => .animation
  | .archive => .archive

/-- A path with a file name of its own. -/
def nameOnly (name : String) : Path := [OsStr.ofText name.toList]

section Routes

variable (request : RoutingPolicyRequest) (capabilities : ProfileCapabilities) (prefersConversion : Bool)

/-- What the request and the Profile have done to an Asset. -/
inductive Performs : AssetIdentity → AssetOperation → Prop
  | requested {work : RequestedWork} {identity : AssetIdentity} {operation : AssetOperation}
    (h : work.performs = some (identity, operation)) (hrequested : request.work work = true)
    (hsupported : capabilities.supports work.capability = true) : Performs identity operation
  /-- Native Texture work converts too, where the Profile prefers it. -/
  | converted (hnative : Performs (.texture .native) .optimization) (hprefers : prefersConversion = true)
    (hsupported : capabilities.supports .convertibleTextureConversion = true) :
    Performs (.texture .convertible) .conversion
  /-- Converted Textures change the names that every Mesh refers to. -/
  | maintained {variant : MeshVariant} (hconverted : Performs (.texture .convertible) .conversion)
    (hsupported : capabilities.supports .meshReferenceMaintenance = true) :
    Performs (.mesh variant) .meshReferenceMaintenance

/-- The extensions that name Assets, the Profile's own for Archives. -/
def assetNames : List (Text × AssetIdentity) :=
  [(".dds".toList, .texture .native), (".tga".toList, .texture .convertible), (".nif".toList, .mesh .standard),
    (".btr".toList, .mesh .terrain), (".bto".toList, .mesh .terrain), (".hkx".toList, .animation)] ++
    capabilities.archiveExtension.toList.map fun extension => (extension.map Char.toLower, .archive)

/-- Whether a path names an Asset of an identity. -/
def Named (path : Path) (identity : AssetIdentity) : Prop :=
  (normalizedTerminalExtension path, identity) ∈ assetNames capabilities

/-- What the decision of a path has to say. -/
def Decided (path : Path) : RoutingDecision → Prop
  | .routed asset => asset.executionPath = path ∧ Named capabilities path asset.identity ∧
    asset.phase = asset.identity.phase ∧ asset.target = asset.identity.target ∧
    asset.executionMode = request.executionMode ∧
    (∃ operation, Performs request capabilities prefersConversion asset.identity operation) ∧
    ∀ operation, asset.operations.contains operation = true ↔
      Performs request capabilities prefersConversion asset.identity operation
  | .skipped asset => asset.executionPath = path ∧ Named capabilities path asset.identity ∧
    ∀ operation, ¬Performs request capabilities prefersConversion asset.identity operation
  | .unsupported => ∀ identity, ¬Named capabilities path identity

variable {request capabilities prefersConversion}

theorem performs_iff {identity : AssetIdentity} {operation : AssetOperation} :
    Performs request capabilities prefersConversion identity operation ↔
      (∃ work ∈ RequestedWork.all, work.performs = some (identity, operation) ∧ request.work work = true ∧
        capabilities.supports work.capability = true) ∨
      (identity = .texture .convertible ∧ operation = .conversion ∧
        Performs request capabilities prefersConversion (.texture .native) .optimization ∧ prefersConversion = true ∧
        capabilities.supports .convertibleTextureConversion = true) ∨
      ∃ variant, identity = .mesh variant ∧ operation = .meshReferenceMaintenance ∧
        Performs request capabilities prefersConversion (.texture .convertible) .conversion ∧
        capabilities.supports .meshReferenceMaintenance = true := by
  constructor
  · intro h
    cases h with
    | @requested work _ _ h hrequested hsupported =>
      exact Or.inl ⟨work, RequestedWork.mem_all work, h, hrequested, hsupported⟩
    | converted hnative hprefers hsupported => exact Or.inr (Or.inl ⟨rfl, rfl, hnative, hprefers, hsupported⟩)
    | @maintained variant hconverted hsupported =>
      exact Or.inr (Or.inr ⟨variant, rfl, rfl, hconverted, hsupported⟩)
  · rintro (⟨work, -, h, hrequested, hsupported⟩ | ⟨rfl, rfl, hnative, hprefers, hsupported⟩ |
      ⟨variant, rfl, rfl, hconverted, hsupported⟩)
    · exact .requested h hrequested hsupported
    · exact .converted hnative hprefers hsupported
    · exact .maintained hconverted hsupported

/-- What a compiled policy holds, and that it has no conflict. -/
structure Compiled (request : RoutingPolicyRequest) (capabilities : ProfileCapabilities) (prefersConversion : Bool)
    (policy : RoutingPolicy) : Prop where
  executionMode : policy.executionMode = request.executionMode
  requests : ∀ work, policy.requests work = request.work work
  convertsTextures : policy.convertsTextures = request.convertsTextures capabilities prefersConversion
  supported : ∀ work, request.work work = true → capabilities.supports work.capability = true
  maintains : policy.convertsTextures = true → capabilities.supports .meshReferenceMaintenance = true
  extension : ∃ extension, capabilities.archiveExtension = some extension ∧ WellFormedExtension extension ∧
    policy.archiveExtension = extension.map Char.toLower
  unshadowed : ∀ builtIn ∈ builtInExtensions, policy.archiveExtension ≠ builtIn.1

theorem compiled_of_ok {policy : RoutingPolicy}
    (h : RoutingPolicy.compile request capabilities prefersConversion = .ok policy) :
    Compiled request capabilities prefersConversion policy := by
  have hnone := compile_ok_iff.mp ⟨policy, h⟩
  have hpolicy : policy = ⟨request.executionMode, RequestedWork.all.filter request.work,
      request.convertsTextures capabilities prefersConversion, (checkArchiveExtension capabilities.archiveExtension).1⟩ := by
    unfold RoutingPolicy.compile at h
    dsimp only at h
    split_ifs at h
    exact (Except.ok.inj h).symm
  have hextension : ∃ extension, capabilities.archiveExtension = some extension ∧ WellFormedExtension extension ∧
      policy.archiveExtension = extension.map Char.toLower := by
    cases hextension : capabilities.archiveExtension with
    | none => exact absurd (.missing (by rw [hextension]; rfl)) (hnone .missingArchiveExtension)
    | some extension =>
      have hne : extension ≠ [] := fun hempty =>
        hnone .missingArchiveExtension (.missing (by rw [hextension]; exact hempty))
      cases hreason : malformedReason extension with
      | some reason => exact absurd (.malformed hextension hne (malformedReason_eq_some_iff.mp hreason)) (hnone _)
      | none =>
        refine ⟨extension, rfl, malformedReason_eq_none_iff.mp hreason, ?_⟩
        rw [hpolicy, hextension]
        simp only [checkArchiveExtension, if_neg hne, hreason]
        split <;> rfl
  subst hpolicy
  refine ⟨rfl, fun work => ?_, rfl, fun work hwork => ?_, fun hconverts => ?_, hextension, fun builtIn hbuiltIn heq => ?_⟩
  · simp [RoutingPolicy.requests]
  · by_contra hlacks
    have hmem := (@mem_unsupportedWork request _ prefersConversion _).mp
      (List.mem_map_of_mem (mem_unsupported.mpr ⟨hwork, Bool.eq_false_iff.mpr hlacks⟩))
    exact hnone _ hmem.1
  · by_contra hlacks
    have hparts : (prefersConversion = true ∧ request.work .nativeTextureOptimization = true) ∧
        capabilities.supports .convertibleTextureConversion = true := by
      simpa [RoutingPolicyRequest.convertsTextures] using hconverts
    exact hnone _ (.derived hparts.1.1 hparts.1.2 hparts.2 (Bool.eq_false_iff.mpr hlacks))
  · obtain ⟨extension, hsome, hform, hlower⟩ := hextension
    exact hnone _ (.ambiguous hsome hform hbuiltIn (hlower.symm.trans heq))

namespace Compiled

variable {policy : RoutingPolicy}

/-- Requested work under a compiled policy is supported. -/
theorem requests_iff (h : Compiled request capabilities prefersConversion policy) (work : RequestedWork) :
    policy.requests work = true ↔ request.work work = true ∧ capabilities.supports work.capability = true := by
  rw [h.requests]
  exact ⟨fun hwork => ⟨hwork, h.supported work hwork⟩, And.left⟩

/-- Textures are converted where native Texture work is, with the Profile's preference and capability. -/
theorem converts_iff (h : Compiled request capabilities prefersConversion policy) :
    policy.convertsTextures = true ↔ Performs request capabilities prefersConversion (.texture .convertible) .conversion := by
  have hnative : Performs request capabilities prefersConversion (.texture .native) .optimization ↔
      request.work .nativeTextureOptimization = true := by
    have := h.requests_iff .nativeTextureOptimization
    rw [h.requests] at this
    rw [performs_iff]
    simpa [RequestedWork.all, RequestedWork.performs] using this.symm
  rw [performs_iff, h.convertsTextures, RoutingPolicyRequest.convertsTextures, hnative]
  simp only [Bool.and_eq_true, true_and]
  constructor
  · rintro ⟨⟨hprefers, hrequested⟩, hsupported⟩
    exact Or.inr (Or.inl ⟨hrequested, hprefers, hsupported⟩)
  · rintro (⟨work, -, hperforms, -, -⟩ | ⟨hrequested, hprefers, hsupported⟩ | ⟨variant, hidentity, -⟩)
    · cases work <;> simp [RequestedWork.performs] at hperforms
    · exact ⟨⟨hprefers, hrequested⟩, hsupported⟩
    · cases hidentity

/-- **What a compiled policy recognizes**, and the operations it gives it. -/
theorem recognize (h : Compiled request capabilities prefersConversion policy) {extension : Text}
    {identity : AssetIdentity} {phase : RoutedAssetPhase} {target : OptimizerTarget} {operations : AssetOperations}
    (hrecognized : Routing.recognize policy extension = some (identity, phase, target, operations)) :
    (extension, identity) ∈ assetNames capabilities ∧ phase = identity.phase ∧ target = identity.target ∧
      ∀ operation, operations.contains operation = true ↔
        Performs request capabilities prefersConversion identity operation := by
  have hrequests := h.requests_iff
  have hconverts := h.converts_iff
  have hmaintains : policy.maintainsMeshReferences = true ↔
      Performs request capabilities prefersConversion (.texture .convertible) .conversion ∧
        capabilities.supports .meshReferenceMaintenance = true :=
    ⟨fun hmaintains => ⟨hconverts.mp hmaintains, h.maintains hmaintains⟩, fun hmaintains => hconverts.mpr hmaintains.1⟩
  have hperforms : ∀ operation, operations.contains operation = true ↔
      Performs request capabilities prefersConversion identity operation := by
    intro operation
    unfold Routing.recognize at hrecognized
    dsimp only at hrecognized
    split_ifs at hrecognized <;> cases hrecognized <;> cases operation <;>
      first
      | exact hconverts
      | rw [performs_iff]
        simp [AssetOperations.contains, AssetOperations.default, RequestedWork.all, RequestedWork.performs, hrequests,
          hmaintains, RequestedWork.capability]
  have hnamed : (extension, identity) ∈ assetNames capabilities ∧ phase = identity.phase ∧ target = identity.target := by
    obtain ⟨own, hown, -, hlower⟩ := h.extension
    unfold Routing.recognize at hrecognized
    dsimp only at hrecognized
    split_ifs at hrecognized with hdds htga hnif hterrain hhkx harchive <;> cases hrecognized
    · exact ⟨by simp [assetNames, hdds], rfl, rfl⟩
    · exact ⟨by simp [assetNames, htga], rfl, rfl⟩
    · exact ⟨by simp [assetNames, hnif], rfl, rfl⟩
    · exact ⟨by rcases hterrain with rfl | rfl <;> simp [assetNames], rfl, rfl⟩
    · exact ⟨by simp [assetNames, hhkx], rfl, rfl⟩
    · exact ⟨by simp [assetNames, hown, harchive.2, hlower], rfl, rfl⟩
  exact ⟨hnamed.1, hnamed.2.1, hnamed.2.2, hperforms⟩

/-- A path that it does not recognize names no Asset. -/
theorem not_named (h : Compiled request capabilities prefersConversion policy) {extension : Text}
    (hnone : Routing.recognize policy extension = none) (identity : AssetIdentity) :
    (extension, identity) ∉ assetNames capabilities := by
  obtain ⟨own, hown, ⟨suffix, hform, -, -⟩, hlower⟩ := h.extension
  unfold Routing.recognize at hnone
  dsimp only at hnone
  split_ifs at hnone with hdds htga hnif hterrain hhkx harchive
  intro hmem
  have hne : extension ≠ policy.archiveExtension := fun heq => harchive ⟨by simp [heq, hlower, hform], heq⟩
  simp only [assetNames, hown, Option.toList_some, List.map_cons, List.map_nil, List.cons_append, List.nil_append,
    List.mem_cons, List.not_mem_nil, or_false, Prod.mk.injEq] at hmem
  rcases hmem with ⟨h, -⟩ | ⟨h, -⟩ | ⟨h, -⟩ | ⟨h, -⟩ | ⟨h, -⟩ | ⟨h, -⟩ | ⟨h, -⟩
  · exact hdds h
  · exact htga h
  · exact hnif h
  · exact hterrain (Or.inl h)
  · exact hterrain (Or.inr h)
  · exact hhkx h
  · exact hne (h.trans hlower.symm)

end Compiled

theorem isEmpty_iff {operations : AssetOperations} :
    operations.isEmpty = true ↔ ∀ operation, operations.contains operation = false := by
  constructor
  · intro h operation
    have hall : ((operations.optimization = false ∧ operations.conversion = false) ∧
        operations.meshReferenceMaintenance = false) ∧ operations.extraction = false := by
      simpa [AssetOperations.isEmpty] using h
    obtain ⟨⟨⟨hoptimization, hconversion⟩, hmaintenance⟩, hextraction⟩ := hall
    cases operation <;> assumption
  · intro h
    have hextraction := h .extraction
    have hoptimization := h .optimization
    have hconversion := h .conversion
    have hmaintenance := h .meshReferenceMaintenance
    simp_all [AssetOperations.isEmpty, AssetOperations.contains]

theorem Compiled.decided {policy : RoutingPolicy} (hcompiled : Compiled request capabilities prefersConversion policy)
    (path : Path) : Decided request capabilities prefersConversion path (route policy path) := by
  unfold route
  cases hrecognized : Routing.recognize policy (normalizedTerminalExtension path) with
  | none => exact hcompiled.not_named hrecognized
  | some recognized =>
    obtain ⟨identity, phase, target, operations⟩ := recognized
    obtain ⟨hnamed, hphase, htarget, hperforms⟩ := hcompiled.recognize hrecognized
    dsimp only
    cases hempty : operations.isEmpty with
    | true =>
      refine ⟨rfl, hnamed, fun operation hdone => ?_⟩
      have hcontains := (hperforms operation).mpr hdone
      rw [isEmpty_iff.mp hempty operation] at hcontains
      cases hcontains
    | false =>
      have hsome : ∃ operation, operations.contains operation = true := by
        by_contra hnone
        have hall : operations.isEmpty = true := isEmpty_iff.mpr fun operation =>
          Bool.eq_false_iff.mpr fun hcontains => hnone ⟨operation, hcontains⟩
        rw [hempty] at hall
        cases hall
      obtain ⟨operation, hcontains⟩ := hsome
      exact ⟨rfl, hnamed, hphase, htarget, hcompiled.executionMode, ⟨operation, (hperforms operation).mp hcontains⟩,
        hperforms⟩

/-- No extension names two Assets: the Profile's own is none of the built-in ones. -/
theorem Compiled.named_unique {policy : RoutingPolicy} (hcompiled : Compiled request capabilities prefersConversion policy)
    {path : Path} {identity identity' : AssetIdentity} (h : Named capabilities path identity)
    (h' : Named capabilities path identity') : identity = identity' := by
  obtain ⟨own, hown, -, hlower⟩ := hcompiled.extension
  have hnodup : (assetNames capabilities).Pairwise fun first second => first.1 ≠ second.1 := by
    have hbuiltIn : ∀ builtIn ∈ builtInExtensions, builtIn.1 ≠ own.map Char.toLower := fun builtIn hmem heq =>
      hcompiled.unshadowed builtIn hmem (hlower.trans heq.symm)
    simp only [builtInExtensions, List.forall_mem_cons] at hbuiltIn
    unfold assetNames
    rw [hown]
    refine List.pairwise_append.mpr ⟨by decide, List.pairwise_singleton _ _, fun first hfirst second hsecond => ?_⟩
    cases List.mem_singleton.mp hsecond
    simp only [List.mem_cons, List.not_mem_nil, or_false] at hfirst
    obtain ⟨hdds, htga, hnif, hbtr, hbto, hhkx, -⟩ := hbuiltIn
    rcases hfirst with rfl | rfl | rfl | rfl | rfl | rfl <;> assumption
  have hmap : ((assetNames capabilities).map Prod.fst).Nodup := List.pairwise_map.mpr hnodup
  exact (Prod.mk.inj (List.inj_on_of_nodup_map hmap h h' rfl)).2

/-- **A compiled policy routes a path for what the request and the Profile have done to it**, and for nothing else; no
path names two Assets. -/
theorem route_compiled {policy : RoutingPolicy}
    (h : RoutingPolicy.compile request capabilities prefersConversion = .ok policy) (path : Path) :
    Decided request capabilities prefersConversion path (route policy path) ∧
      ∀ identity identity', Named capabilities path identity → Named capabilities path identity' → identity = identity' :=
  ⟨(compiled_of_ok h).decided path, fun _ _ => (compiled_of_ok h).named_unique⟩

/-- A Profile that prefers conversion, and supports what it derives. -/
def convertingProfile : ProfileCapabilities :=
  .define ".BSA".toList [.nativeTextureOptimization, .convertibleTextureConversion, .meshReferenceMaintenance]

theorem route_compiled_tga :
    Decided (.forWork .apply [.nativeTextureOptimization]) convertingProfile true (nameOnly "a.TGA")
        (route ⟨.apply, [.nativeTextureOptimization], true, ".bsa".toList⟩ (nameOnly "a.TGA")) ∧
      ∀ identity identity', Named convertingProfile (nameOnly "a.TGA") identity →
        Named convertingProfile (nameOnly "a.TGA") identity' → identity = identity' :=
  route_compiled (by rfl) (nameOnly "a.TGA")

end Routes

/-! ## Reasons -/

variable {policy : RoutingPolicy}

/-- Every Asset Kind with work has a path that is routed for it. -/
theorem exists_routed {kind : AssetKind} (hkind : kind ≠ .archive) (h : policy.kindHasWork kind = true) :
    ∃ path asset, route policy path = .routed asset ∧ asset.identity.kind = kind := by
  have hdds : normalizedTerminalExtension (nameOnly "a.dds") = ".dds".toList := by decide +kernel
  have htga : normalizedTerminalExtension (nameOnly "a.tga") = ".tga".toList := by decide +kernel
  have hnif : normalizedTerminalExtension (nameOnly "a.nif") = ".nif".toList := by decide +kernel
  have hbtr : normalizedTerminalExtension (nameOnly "a.btr") = ".btr".toList := by decide +kernel
  have hhkx : normalizedTerminalExtension (nameOnly "a.hkx") = ".hkx".toList := by decide +kernel
  have hrouted : ∀ {path : Path} {identity phase target operations},
      recognize policy (normalizedTerminalExtension path) = some (identity, phase, target, operations) →
      operations.isEmpty = false → ∃ path asset, route policy path = .routed asset ∧ asset.identity.kind = identity.kind := by
    intro path identity phase target operations hrecognized hsome
    exact ⟨path, ⟨path, identity, phase, target, policy.executionMode, operations⟩, by simp [route, hrecognized, hsome], rfl⟩
  cases kind with
  | texture =>
    rcases Bool.or_eq_true_iff.mp h with hnative | hconverts
    · exact @hrouted (nameOnly "a.dds") _ _ _ _ (by rw [hdds]; rfl) (by simp [AssetOperations.isEmpty, hnative])
    · exact @hrouted (nameOnly "a.tga") _ _ _ _ (by rw [htga]; rfl) (by simp [AssetOperations.isEmpty, hconverts])
  | mesh =>
    rcases Bool.or_eq_true_iff.mp h with hoptimizes | hmaintains
    · rcases Bool.or_eq_true_iff.mp hoptimizes with hstandard | hterrain
      · exact @hrouted (nameOnly "a.nif") _ _ _ _ (by rw [hnif]; rfl) (by simp [AssetOperations.isEmpty, hstandard])
      · exact @hrouted (nameOnly "a.btr") _ _ _ _ (by rw [hbtr]; rfl) (by simp [AssetOperations.isEmpty, hterrain])
    · exact @hrouted (nameOnly "a.nif") _ _ _ _ (by rw [hnif]; rfl) (by simp [AssetOperations.isEmpty, hmaintains])
  | animation =>
    have hrequests : policy.requests .animationOptimization = true := h
    exact @hrouted (nameOnly "a.hkx") _ _ _ _ (by rw [hhkx]; rfl) (by simp [AssetOperations.isEmpty, hrequests])
  | archive => exact absurd rfl hkind

/-- An Asset with an operation to do is of a Kind with work. -/
theorem kindHasWork_of_recognize {extension : Text} {identity : AssetIdentity} {phase : RoutedAssetPhase}
    {target : OptimizerTarget} {operations : AssetOperations}
    (h : recognize policy extension = some (identity, phase, target, operations)) (hsome : operations.isEmpty = false) :
    policy.kindHasWork identity.kind = true := by
  unfold recognize at h
  dsimp only at h
  split_ifs at h <;> cases h <;>
    grind [AssetOperations.isEmpty, AssetOperations.default, RoutingPolicy.kindHasWork, AssetIdentity.kind]

/-- An Archive without an operation is of a Kind without work. -/
theorem not_kindHasWork_of_archive {extension : Text} {identity : AssetIdentity} {phase : RoutedAssetPhase}
    {target : OptimizerTarget} {operations : AssetOperations}
    (h : recognize policy extension = some (identity, phase, target, operations)) (hnone : operations.isEmpty = true)
    (hkind : identity.kind = .archive) : policy.kindHasWork identity.kind = false := by
  unfold recognize at h
  dsimp only at h
  split_ifs at h <;> cases h <;>
    grind [AssetOperations.isEmpty, AssetOperations.default, RoutingPolicy.kindHasWork, AssetIdentity.kind]

theorem kindHasWork_of_routed {path : Path} {asset : RoutedAsset} (h : route policy path = .routed asset) :
    policy.kindHasWork asset.identity.kind = true := by
  unfold route at h
  cases hrecognized : recognize policy (normalizedTerminalExtension path) with
  | none => simp [hrecognized] at h
  | some recognized =>
    obtain ⟨identity, phase, target, operations⟩ := recognized
    cases hempty : operations.isEmpty with
    | true => simp [hrecognized, hempty] at h
    | false =>
      simp only [hrecognized, hempty, Bool.not_false, if_true, RoutingDecision.routed.injEq] at h
      rw [← h]
      exact kindHasWork_of_recognize hrecognized hempty

/-- **The reason of a skipped path is true**: its Kind is disabled exactly when no path of that Kind is routed. -/
theorem route_skipped {path : Path} {skipped : SkippedAsset} (h : route policy path = .skipped skipped) :
    skipped.reason = .disabledAssetKind ↔
      ∀ other asset, route policy other = .routed asset → asset.identity.kind ≠ skipped.identity.kind := by
  have hskipped : (skipped.identity.kind = .archive → policy.kindHasWork skipped.identity.kind = false) ∧
      (skipped.reason = .disabledAssetKind ↔ policy.kindHasWork skipped.identity.kind = false) := by
    unfold route at h
    cases hrecognized : recognize policy (normalizedTerminalExtension path) with
    | none => simp [hrecognized] at h
    | some recognized =>
      obtain ⟨identity, phase, target, operations⟩ := recognized
      cases hempty : operations.isEmpty with
      | false => simp [hrecognized, hempty] at h
      | true =>
        simp only [hrecognized, hempty, Bool.not_true, Bool.false_eq_true, if_false, RoutingDecision.skipped.injEq] at h
        rw [← h]
        refine ⟨not_kindHasWork_of_archive hrecognized hempty, ?_⟩
        cases policy.kindHasWork identity.kind <;> simp
  rw [hskipped.2]
  constructor
  · intro hnone other asset hrouted hkind
    have hsome := kindHasWork_of_routed hrouted
    rw [hkind, hnone] at hsome
    cases hsome
  · intro hnone
    by_contra hsome
    rw [Bool.not_eq_false] at hsome
    have hkind : skipped.identity.kind ≠ .archive := fun harchive => by
      rw [hskipped.1 harchive] at hsome
      cases hsome
    obtain ⟨other, asset, hrouted, hsame⟩ := exists_routed hkind hsome
    exact hnone other asset hrouted hsame

/-- A native Texture, where Meshes alone have work. -/
theorem route_skipped_texture : (SkipReason.disabledAssetKind = .disabledAssetKind ↔
    ∀ other asset, route ⟨.apply, [.standardMeshOptimization], false, ".bsa".toList⟩ other = .routed asset →
      asset.identity.kind ≠ .texture) :=
  @route_skipped ⟨.apply, [.standardMeshOptimization], false, ".bsa".toList⟩ (nameOnly "a.dds")
    ⟨nameOnly "a.dds", .texture .native, .disabledAssetKind⟩ (by decide +kernel)

end Cao.Routing
