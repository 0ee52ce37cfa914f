import Cao.Asset.Execute
import Cao.Texture.Dimensions

/-!
# Applying the decision

The steps of `Texture::optimize`, over the metadata that each of them is checked against, and the backend's
`optimize_texture` in a Dry Run and in an Apply run.

* `DirectXTex`: the operations of the library; `AsRequested`: each succeeds and returns what it was asked for;
* `LoadedTexture`: `decompress`, `resize`, `generateMipmaps`, `convert`, `optimize`;
* **`optimize_of`**: what a run of the steps leaves: the size, the format, and whether anything was modified;
* **`dryRun_agrees_iff`**: a Dry Run agrees with Apply unless the only work is a conversion to the format a Texture has;
* **`format_kept_iff`**: a block-compressed Texture ends in the format it should, unless it is an interface Texture that the
  profile does not compress.
-/

namespace Cao.Texture

open Asset (OperationResult)

/-! ## DirectXTex -/

/-- A Texture's metadata, with the fields that only `check_metadata` compares. -/
structure ImageMetadata extends TexMetadata where
  depth : Nat
  arraySize : Nat
  miscFlags : UInt32
  dimension : Nat
  isCubemap_eq : isCubemap = decide (miscFlags &&& 4 ≠ 0)

/-- `HResultError`. -/
abbrev HResultError := UInt32

/-- What DirectXTex makes of an image, by the image's metadata. -/
structure DirectXTex where
  decompress : ImageMetadata → Except HResultError ImageMetadata
  resize : ImageMetadata → Nat → Nat → Except HResultError ImageMetadata
  initializeImage : ImageMetadata → Except HResultError ImageMetadata
  hasTopImage : ImageMetadata → Nat → Bool
  copyRectangle : Nat → Except HResultError Unit
  generateMipMaps : ImageMetadata → Nat → Except HResultError ImageMetadata
  compress : ImageMetadata → Format → Except HResultError ImageMetadata
  gpuCompress : Option (ImageMetadata → Format → Except HResultError ImageMetadata)
  convert : ImageMetadata → Format → Except HResultError ImageMetadata

/-- Each operation succeeds and returns the dimensions, the format and the mip count that it was asked for. -/
structure DirectXTex.AsRequested (lib : DirectXTex) : Prop where
  decompress : ∀ image : ImageMetadata, ∃ format : Format, format.isCompressed = false ∧
    lib.decompress image = .ok { image with format }
  resize : ∀ (image : ImageMetadata) (width height : Nat), 0 < width → 0 < height →
    lib.resize image width height = .ok { image with width, height, mipLevels := 1 }
  initializeImage : ∀ image, lib.initializeImage image = .ok image
  hasTopImage : ∀ (image : ImageMetadata) (item : Nat), item < image.arraySize → lib.hasTopImage image item = true
  copyRectangle : ∀ item, lib.copyRectangle item = .ok ()
  generateMipMaps : ∀ (image : ImageMetadata) (levels : Nat),
    lib.generateMipMaps image levels = .ok { image with mipLevels := levels }
  compress : ∀ (image : ImageMetadata) (format : Format), lib.compress image format = .ok { image with format }
  gpuCompress : ∀ compress, lib.gpuCompress = some compress →
    ∀ (image : ImageMetadata) (format : Format), compress image format = .ok { image with format }
  convert : ∀ (image : ImageMetadata) (format : Format), lib.convert image format = .ok { image with format }

/-- `DXGI_FORMAT_B8G8R8A8_UNORM`. -/
def b8g8r8a8Unorm : Format := ⟨87, false, true⟩

/-- `GpuDevice::encodes`: BC6H and BC7. -/
def encodes (format : Format) : Bool := [94, 95, 96, 97, 98, 99].contains format.number

/-! ## The steps -/

/-- `TextureError`, its cases past loading. -/
inductive TextureError
  | process (step : String) (source : HResultError)
  | unexpectedFormat (requested produced : Format)
  | metadataMismatch (step field : String)
  | missingImage (item : Nat)

/-- `step`. -/
def step {α : Type} (name : String) (result : Except HResultError α) : Except TextureError α :=
  result.mapError (.process name)

/-- `check_metadata`. -/
def checkMetadata (step : String) (expected produced : ImageMetadata) : Except TextureError Unit :=
  if expected.width ≠ produced.width then .error (.metadataMismatch step "width")
  else if expected.height ≠ produced.height then .error (.metadataMismatch step "height")
  else if expected.depth ≠ produced.depth then .error (.metadataMismatch step "depth")
  else if expected.arraySize ≠ produced.arraySize then .error (.metadataMismatch step "array size")
  else if expected.miscFlags ≠ produced.miscFlags then .error (.metadataMismatch step "misc flags")
  else if expected.format ≠ produced.format then .error (.metadataMismatch step "format")
  else if expected.dimension ≠ produced.dimension then .error (.metadataMismatch step "dimension")
  else .ok ()

/-- `Texture`: the metadata of its image, and the metadata that is saved with it. -/
structure LoadedTexture where
  image : ImageMetadata
  info : ImageMetadata
  name : Text
  variant : TextureVariant

namespace LoadedTexture

/-- What `Texture::load` leaves: one metadata, a typeless format made UNORM in both. -/
def of (info : ImageMetadata) (name : Text) (variant : TextureVariant) : LoadedTexture := ⟨info, info, name, variant⟩

variable (lib : DirectXTex)

/-- The first step of `optimize`: whether the Texture was decompressed. -/
def decompress (texture : LoadedTexture) : Except TextureError (Bool × LoadedTexture) :=
  if texture.info.format.isCompressed then do
    let image ← step "decompress" (lib.decompress texture.image)
    let info := { texture.info with format := image.format }
    checkMetadata "decompress" info image
    .ok (true, { texture with image, info })
  else .ok (false, texture)

/-- `Texture::resize`. -/
def resize (texture : LoadedTexture) (width height : Nat) : Except TextureError (Bool × LoadedTexture) :=
  if texture.info.width ≤ width ∧ texture.info.height ≤ height then .ok (false, texture)
  else do
    let image ← step "resize" (lib.resize texture.image (nextPowerOfTwo width) (nextPowerOfTwo height))
    let info := { texture.info with width := image.width, height := image.height, mipLevels := 1 }
    checkMetadata "resize" info image
    .ok (true, { texture with image, info })

/-- `generate_mipmaps`, of an array item: its top level is copied. -/
def copyTop (image top : ImageMetadata) (item : Nat) : Except TextureError Unit :=
  if lib.hasTopImage image item && lib.hasTopImage top item then step "copy the top mip level of" (lib.copyRectangle item)
  else .error (.missingImage item)

/-- `generate_mipmaps`, its first half: a partial chain is cut back to its top level. -/
def cutBack (texture : LoadedTexture) (levels : Nat) : Except TextureError LoadedTexture :=
  if texture.info.mipLevels ≠ 1 ∧ texture.info.mipLevels ≠ levels then do
    let top ← step "copy the top mip level of" (lib.initializeImage { texture.info with mipLevels := 1 })
    (List.range texture.info.arraySize).forM (copyTop lib texture.image top)
    .ok { texture with image := top, info := { texture.info with mipLevels := top.mipLevels } }
  else .ok texture

/-- `Texture::generate_mipmaps`. -/
def generateMipmaps (texture : LoadedTexture) : Except TextureError LoadedTexture := do
  let levels := optimalMipCount texture.info.width texture.info.height
  let texture ← texture.cutBack lib levels
  if 1 < texture.info.width ∨ 1 < texture.info.height ∨ 1 < texture.info.depth then do
    let image ← step "generate mipmaps for" (lib.generateMipMaps texture.image levels)
    let info := { texture.info with mipLevels := image.mipLevels }
    checkMetadata "mipmap" info image
    .ok { texture with image, info }
  else .ok texture

/-- What encodes a format: the GPU, where there is one that takes it. -/
def encoder (format : Format) : ImageMetadata → Format → Except HResultError ImageMetadata :=
  match lib.gpuCompress.filter fun _ => encodes format with
  | some compress => compress
  | none => lib.compress

/-- `Texture::convert`. -/
def convert (texture : LoadedTexture) (format : Format) : Except TextureError (Bool × LoadedTexture) :=
  if format.isCompressed then
    if texture.info.format.isCompressed || texture.image.format = format then .ok (false, texture)
    else do
      let image ← step "compress" (encoder lib format texture.image format)
      let info := { texture.info with format := image.format }
      checkMetadata "compress" info image
      .ok (true, { texture with image, info })
  else if texture.info.format = format then .ok (false, texture)
  else do
    let image ← step "convert" (lib.convert texture.image format)
    if image.format ≠ format then .error (.unexpectedFormat format image.format)
    else do
      let info := { texture.info with format := image.format }
      checkMetadata "convert" info image
      .ok (true, { texture with image, info })

/-- The resize of `optimize`, where one is planned. -/
def resizeAsPlanned (plan : TexturePlan) (texture : LoadedTexture) : Except TextureError (Bool × LoadedTexture) :=
  if plan.resize then texture.resize lib plan.width plan.height else .ok (false, texture)

/-- Whether `optimize` generates mipmaps, which a resize decides anew. -/
def wantsMipmaps (tables : CaseTables) (profile : TextureProfile) (request : TextureRequest) (plan : TexturePlan)
    (texture : LoadedTexture) : Bool :=
  if plan.resize then
    request.mipmaps && texture.info.mipLevels ≠ optimalMipCount texture.info.width texture.info.height &&
      canHaveMipmaps texture.info.toTexMetadata (isInterface tables texture.name) profile
  else plan.mipmaps

/-- The mipmaps of `optimize`, where they are wanted. -/
def generateMipmapsIf (wanted : Bool) (texture : LoadedTexture) : Except TextureError LoadedTexture :=
  if wanted then texture.generateMipmaps lib else .ok texture

/-- The format that `optimize` converts to. -/
def conversionTarget (tables : CaseTables) (profile : TextureProfile) (plan : TexturePlan) (original : Format)
    (texture : LoadedTexture) : Format :=
  let target := if plan.compress then profile.format else original
  if !canBeCompressed texture.info.toTexMetadata (isInterface tables texture.name) profile then b8g8r8a8Unorm else target

/-- `Texture::optimize`: whether the Texture was modified. The format to return to is read before decompressing. -/
def optimize (tables : CaseTables) (profile : TextureProfile) (request : TextureRequest) (texture : LoadedTexture) :
    Except TextureError (Bool × LoadedTexture) :=
  let plan := plan tables texture.info.toTexMetadata texture.name texture.variant profile request
  if !plan.wouldChange then .ok (false, texture)
  else do
    let original := texture.info.format
    let (decompressed, texture) ← texture.decompress lib
    let (resized, texture) ← texture.resizeAsPlanned lib plan
    let mipmaps := texture.wantsMipmaps tables profile request plan
    let texture ← texture.generateMipmapsIf lib mipmaps
    let (converted, texture) ← texture.convert lib (texture.conversionTarget tables profile plan original)
    .ok (decompressed || resized || mipmaps || converted, texture)

end LoadedTexture

/-- `OperationResult::changed` or `unchanged`. -/
def resultOf (changed : Bool) : OperationResult := if changed then .changed else .unchanged

/-- `optimize_texture`, of a Texture routed with these operations; conversion always produces a new DDS. An error is the
failed result that it is reported as. -/
def optimizeTexture (lib : DirectXTex) (tables : CaseTables) (settings : TextureSettings) (profile : TextureProfile)
    (optimize convert dryRun : Bool) (texture : LoadedTexture) : Except TextureError (OperationResult × LoadedTexture) :=
  let request := textureRequest settings optimize convert texture.info.toTexMetadata
  let plan := plan tables texture.info.toTexMetadata texture.name texture.variant profile request
  if dryRun then .ok (resultOf (plan.wouldChange || convert), texture)
  else do
    let (modified, texture) ← texture.optimize lib tables profile request
    .ok (resultOf (modified || convert), texture)

/-! ## One step -/

@[simp] theorem step_ok {α : Type} (name : String) (a : α) : step name (.ok a) = .ok a := rfl

@[simp] theorem ok_bind {α β : Type} (a : α) (f : α → Except TextureError β) : ((Except.ok a : Except TextureError α) >>= f) = f a := rfl

@[simp] theorem checkMetadata_self (name : String) (info : ImageMetadata) : checkMetadata name info info = .ok () := by
  unfold checkMetadata
  simp

namespace LoadedTexture

variable {lib : DirectXTex} {tables : CaseTables} {info : ImageMetadata} {name : Text} {variant : TextureVariant}
  {profile : TextureProfile} {request : TextureRequest}

/-- **Decompressing leaves no block format.** -/
theorem decompress_of (h : lib.AsRequested) : ∃ format : Format, format.isCompressed = false ∧
    (info.format.isCompressed = false → format = info.format) ∧
    (of info name variant).decompress lib = .ok (info.format.isCompressed, of { info with format } name variant) := by
  cases hcompressed : info.format.isCompressed with
  | false =>
    refine ⟨info.format, hcompressed, fun _ => rfl, ?_⟩
    unfold decompress of
    rw [hcompressed, if_neg Bool.false_ne_true]
  | true =>
    obtain ⟨format, hformat, hdecompress⟩ := h.decompress info
    refine ⟨format, hformat, fun hfalse => Bool.noConfusion hfalse, ?_⟩
    unfold decompress of
    rw [hcompressed, if_pos rfl, hdecompress]
    simp

/-- **Resizing leaves powers of two, and one mip level.** -/
theorem resize_of (h : lib.AsRequested) {width height : Nat} (hsmaller : width < info.width) :
    (of info name variant).resize lib width height = .ok (true, of { info with
      width := nextPowerOfTwo width, height := nextPowerOfTwo height, mipLevels := 1 } name variant) := by
  have hnot : ¬ (info.width ≤ width ∧ info.height ≤ height) := by omega
  unfold resize of
  rw [if_neg hnot, h.resize _ _ _ (nextPowerOfTwo_pos _) (nextPowerOfTwo_pos _)]
  simp

theorem cutBack_of (h : lib.AsRequested) (levels : Nat) :
    ∃ mipLevels, (of info name variant).cutBack lib levels = .ok (of { info with mipLevels } name variant) := by
  unfold cutBack
  by_cases hpartial : info.mipLevels ≠ 1 ∧ info.mipLevels ≠ levels
  · have hitems : ∀ items : List Nat, (∀ item ∈ items, item < info.arraySize) →
        items.forM (copyTop lib info { info with mipLevels := 1 }) = .ok () := by
      intro items hlt
      induction items with
      | nil => rfl
      | cons item items ih =>
        have hitem := hlt item List.mem_cons_self
        have hcopy : copyTop lib info { info with mipLevels := 1 } item = .ok () := by
          unfold copyTop
          rw [h.hasTopImage info item hitem, h.hasTopImage { info with mipLevels := 1 } item hitem, h.copyRectangle]
          rfl
        show (copyTop lib info { info with mipLevels := 1 } item >>= fun _ => items.forM _) = _
        rw [hcopy, ok_bind, ih fun other hmem => hlt other (List.mem_cons_of_mem _ hmem)]
    refine ⟨1, ?_⟩
    have hall := hitems (List.range info.arraySize) fun item => List.mem_range.mp
    rw [if_pos (by exact hpartial), h.initializeImage, step_ok, ok_bind]
    show (List.range info.arraySize).forM (copyTop lib info { info with mipLevels := 1 }) >>= _ = _
    rw [hall]
    rfl
  · exact ⟨info.mipLevels, if_neg hpartial⟩

/-- **Generating mipmaps changes the mip count only.** -/
theorem generateMipmaps_of (h : lib.AsRequested) :
    ∃ mipLevels, (of info name variant).generateMipmaps lib = .ok (of { info with mipLevels } name variant) := by
  obtain ⟨mipLevels, hcut⟩ := @cutBack_of lib info name variant h (optimalMipCount info.width info.height)
  unfold generateMipmaps
  dsimp only [of] at hcut ⊢
  rw [hcut, ok_bind]
  by_cases hlarge : 1 < info.width ∨ 1 < info.height ∨ 1 < info.depth
  · refine ⟨optimalMipCount info.width info.height, ?_⟩
    rw [if_pos (by exact hlarge), h.generateMipMaps]
    simp
  · exact ⟨mipLevels, if_neg hlarge⟩

/-- **Converting leaves the format that it is asked for**, and modifies a Texture of another. -/
theorem convert_of (h : lib.AsRequested) (hinfo : info.format.isCompressed = false) (format : Format) :
    (of info name variant).convert lib format =
      .ok (decide (info.format ≠ format), of { info with format } name variant) := by
  have hencoder : ∀ image : ImageMetadata, encoder lib format image format = .ok { image with format } := by
    intro image
    unfold encoder
    cases hgpu : lib.gpuCompress.filter fun _ => encodes format with
    | none => exact h.compress image format
    | some compress => exact h.gpuCompress compress (Option.filter_eq_some_iff.mp hgpu).1 image format
  unfold convert of
  by_cases hsame : info.format = format
  · subst hsame
    rw [hinfo, if_neg Bool.false_ne_true, if_pos rfl]
    simp
  · cases hcompressed : format.isCompressed with
    | true =>
      rw [if_pos rfl, hinfo, decide_eq_false hsame, Bool.or_false, if_neg Bool.false_ne_true, hencoder]
      simp [hsame]
    | false =>
      rw [if_neg Bool.false_ne_true, if_neg hsame, h.convert]
      simp [hsame]

end LoadedTexture

/-! ## A run of the steps -/

/-- A plan resizes only what it makes smaller. -/
theorem plannedSize_lt {target : Option (Nat × Nat)} {info : TexMetadata}
    (h : plannedSize target info ≠ (info.width, info.height)) : (plannedSize target info).1 < info.width := by
  obtain ⟨n, hsize, -, hleast⟩ := plannedSize_halved target info
  cases n with
  | zero => exact absurd (by simpa using hsize) h
  | succ n =>
    -- the loop passed once, so the width was above its target
    have hfirst := hleast 0 (Nat.succ_pos n)
    rw [Nat.pow_zero, Nat.div_one, Nat.div_one] at hfirst
    have hpos : 0 < info.width := by
      unfold Ended at hfirst
      push Not at hfirst
      obtain ⟨t, -, hlarge, -⟩ := hfirst
      omega
    rw [hsize]
    exact Nat.div_lt_self hpos (Nat.one_lt_two_pow (Nat.succ_ne_zero n))

/-- The sides that are written. -/
def appliedSize (info : TexMetadata) (plan : TexturePlan) : Nat × Nat :=
  if plan.resize then (nextPowerOfTwo plan.width, nextPowerOfTwo plan.height) else (info.width, info.height)

/-- Sides that a block format takes. -/
def sidesFit (size : Nat × Nat) : Bool :=
  (4 ≤ size.1 && 4 ≤ size.2) && (2 ^ size.1.log2 == size.1 && 2 ^ size.2.log2 == size.2)

/-- Interface Textures that the profile does not compress are left out. -/
def interfaceOkay (tables : CaseTables) (name : Text) (profile : TextureProfile) : Bool :=
  profile.compressInterface || !isInterface tables name

/-- The format that is written. -/
def appliedFormat (tables : CaseTables) (info : TexMetadata) (name : Text) (profile : TextureProfile) (plan : TexturePlan) :
    Format :=
  if interfaceOkay tables name profile && sidesFit (appliedSize info plan) then
    if plan.compress then profile.format else info.format
  else b8g8r8a8Unorm

/-- **What a run of the steps leaves.** -/
theorem optimize_of {lib : DirectXTex} (h : lib.AsRequested) (tables : CaseTables) (info : ImageMetadata) (name : Text)
    (variant : TextureVariant) (profile : TextureProfile) (request : TextureRequest)
    (hplan : (plan tables info.toTexMetadata name variant profile request).wouldChange = true) :
    ∃ (modified : Bool) (final : ImageMetadata),
      (LoadedTexture.of info name variant).optimize lib tables profile request =
        .ok (modified, .of final name variant) ∧
      (final.width, final.height) = appliedSize info.toTexMetadata (plan tables info.toTexMetadata name variant profile request) ∧
      final.format = appliedFormat tables info.toTexMetadata name profile
        (plan tables info.toTexMetadata name variant profile request) ∧
      (modified = false ↔ info.format.isCompressed = false ∧
        (plan tables info.toTexMetadata name variant profile request).resize = false ∧
        (plan tables info.toTexMetadata name variant profile request).mipmaps = false ∧
        info.format = appliedFormat tables info.toTexMetadata name profile
          (plan tables info.toTexMetadata name variant profile request)) := by
  obtain ⟨format, hformat, hsame, hdecompress⟩ := @LoadedTexture.decompress_of lib info name variant h
  generalize hp : plan tables info.toTexMetadata name variant profile request = p at hplan ⊢
  -- the Texture after it was resized
  obtain ⟨resized, hresize, hsize, hresizedFormat⟩ : ∃ resized : ImageMetadata,
      (LoadedTexture.of { info with format } name variant).resizeAsPlanned lib p = .ok (p.resize, .of resized name variant) ∧
      (resized.width, resized.height) = appliedSize info.toTexMetadata p ∧ resized.format = format := by
    unfold LoadedTexture.resizeAsPlanned appliedSize
    cases hr : p.resize with
    | false => exact ⟨{ info with format }, rfl, rfl, rfl⟩
    | true =>
      have hne : plannedSize request.target info.toTexMetadata ≠ (info.width, info.height) := by
        rw [← hp] at hr
        exact of_decide_eq_true hr
      have hlt : p.width < info.width := by
        rw [← hp]
        exact plannedSize_lt hne
      exact ⟨_, LoadedTexture.resize_of h hlt, rfl, rfl⟩
  -- and after its mipmaps were generated
  obtain ⟨mipmaps, hmipmaps⟩ : ∃ mipmaps, (LoadedTexture.of resized name variant).wantsMipmaps tables profile request p =
      mipmaps := ⟨_, rfl⟩
  obtain ⟨mipLevels, hgenerate⟩ : ∃ mipLevels, (LoadedTexture.of resized name variant).generateMipmapsIf lib mipmaps =
      .ok (.of { resized with mipLevels } name variant) := by
    cases mipmaps with
    | false => exact ⟨resized.mipLevels, rfl⟩
    | true => exact LoadedTexture.generateMipmaps_of h
  have htarget : (LoadedTexture.of { resized with mipLevels } name variant).conversionTarget tables profile p info.format =
      appliedFormat tables info.toTexMetadata name profile p := by
    have hfits : canBeCompressed { resized with mipLevels }.toTexMetadata (isInterface tables name) profile =
        (interfaceOkay tables name profile && sidesFit (appliedSize info.toTexMetadata p)) := by
      unfold canBeCompressed interfaceOkay sidesFit isPowerOfTwo
      rw [← hsize]
      dsimp only
      rw [hresizedFormat, hformat, Bool.not_false, Bool.and_true, Bool.and_assoc]
    simp only [LoadedTexture.conversionTarget, LoadedTexture.of, hfits, appliedFormat]
    cases interfaceOkay tables name profile && sidesFit (appliedSize info.toTexMetadata p) <;> rfl
  have hconvert := @LoadedTexture.convert_of lib { resized with mipLevels } name variant h
    (by rw [hresizedFormat]; exact hformat) (appliedFormat tables info.toTexMetadata name profile p)
  refine ⟨info.format.isCompressed || p.resize || mipmaps ||
    decide (resized.format ≠ appliedFormat tables info.toTexMetadata name profile p),
    { resized with mipLevels, format := appliedFormat tables info.toTexMetadata name profile p }, ?_, hsize, rfl, ?_⟩
  · unfold LoadedTexture.optimize
    rw [show plan tables (LoadedTexture.of info name variant).info.toTexMetadata (LoadedTexture.of info name variant).name
      (LoadedTexture.of info name variant).variant profile request = p from hp]
    dsimp only
    rw [hplan, Bool.not_true, if_neg Bool.false_ne_true, hdecompress, ok_bind]
    dsimp only
    rw [hresize, ok_bind]
    dsimp only
    rw [hmipmaps, hgenerate, ok_bind, show (LoadedTexture.of info name variant).info.format = info.format from rfl, htarget,
      hconvert, ok_bind]
  · have hmodified : ∀ a b c d : Bool, (a || b || c || d) = false ↔ a = false ∧ b = false ∧ c = false ∧ d = false := by decide
    rw [hmodified]
    refine and_congr_right fun hcompressed => and_congr_right fun hr => ?_
    unfold LoadedTexture.wantsMipmaps at hmipmaps
    rw [hr, if_neg Bool.false_ne_true] at hmipmaps
    rw [hmipmaps, hresizedFormat, hsame hcompressed, decide_eq_false_iff_not, not_not]

/-! ## A Dry Run and Apply -/

/-- The only work is a conversion, to the uncompressed format that the Texture has: `convert` then leaves it. -/
def AlreadyConverted (tables : CaseTables) (settings : TextureSettings) (profile : TextureProfile) (optimize convert : Bool)
    (info : TexMetadata) (name : Text) (variant : TextureVariant) : Prop :=
  convert = false ∧
    ((textureRequest settings optimize convert info).necessary = true ∧
      (isIncompatible info profile = true ∨ variant = .convertible)) ∧
    plannedSize (textureRequest settings optimize convert info).target info = (info.width, info.height) ∧
    ¬ ((textureRequest settings optimize convert info).mipmaps = true ∧
      info.mipLevels ≠ optimalMipCount info.width info.height ∧
      canHaveMipmaps info (isInterface tables name) profile = true) ∧
    info.format.isCompressed = false ∧
    info.format = if canBeCompressed info (isInterface tables name) profile then profile.format else b8g8r8a8Unorm

/-- A Dry Run and an Apply run of one Texture, as `load` left it. -/
theorem optimizeTexture_eq {lib : DirectXTex} (h : lib.AsRequested) (tables : CaseTables) (settings : TextureSettings)
    (profile : TextureProfile) (optimize convert : Bool) (info : ImageMetadata) (name : Text) (variant : TextureVariant) :
    ∃ (modified : Bool) (final : LoadedTexture),
      optimizeTexture lib tables settings profile optimize convert false (.of info name variant) =
        .ok (resultOf (modified || convert), final) ∧
      (LoadedTexture.of info name variant).optimize lib tables profile
        (textureRequest settings optimize convert info.toTexMetadata) = .ok (modified, final) := by
  have hoptimize : ∃ (modified : Bool) (final : LoadedTexture), (LoadedTexture.of info name variant).optimize lib tables
      profile (textureRequest settings optimize convert info.toTexMetadata) = .ok (modified, final) := by
    cases hplan : (plan tables info.toTexMetadata name variant profile
        (textureRequest settings optimize convert info.toTexMetadata)).wouldChange with
    | false =>
      refine ⟨false, .of info name variant, ?_⟩
      unfold LoadedTexture.optimize
      dsimp only [LoadedTexture.of]
      rw [hplan]
      rfl
    | true =>
      obtain ⟨modified, final, hrun, -⟩ := optimize_of h tables info name variant profile _ hplan
      exact ⟨modified, _, hrun⟩
  obtain ⟨modified, final, hrun⟩ := hoptimize
  refine ⟨modified, final, ?_, hrun⟩
  unfold optimizeTexture
  dsimp only
  rw [if_neg Bool.false_ne_true, show (LoadedTexture.of info name variant).info = info from rfl, hrun, ok_bind]

theorem resultOf_eq_changed (changed : Bool) : resultOf changed = .changed ↔ changed = true := by
  cases changed <;> simp [resultOf]

/-- What is planned of a Texture that a run leaves as it was. -/
theorem alreadyConverted_iff (tables : CaseTables) (settings : TextureSettings) (profile : TextureProfile) (optimize : Bool)
    (info : TexMetadata) (name : Text) (variant : TextureVariant)
    (hplan : (plan tables info name variant profile (textureRequest settings optimize false info)).wouldChange = true) :
    AlreadyConverted tables settings profile optimize false info name variant ↔
      info.format.isCompressed = false ∧
        (plan tables info name variant profile (textureRequest settings optimize false info)).resize = false ∧
        (plan tables info name variant profile (textureRequest settings optimize false info)).mipmaps = false ∧
        info.format = appliedFormat tables info name profile
          (plan tables info name variant profile (textureRequest settings optimize false info)) := by
  generalize hrequest : textureRequest settings optimize false info = request at hplan ⊢
  generalize hp : plan tables info name variant profile request = p at hplan ⊢
  have hresize : p.resize = false ↔ plannedSize request.target info = (info.width, info.height) := by
    rw [← hp]
    show decide _ = false ↔ _
    rw [decide_eq_false_iff_not, not_not]
  have hmipmaps : p.mipmaps = false ↔ ¬ (request.mipmaps = true ∧ info.mipLevels ≠ optimalMipCount info.width info.height ∧
      canHaveMipmaps info (isInterface tables name) profile = true) := by
    rw [← hp]
    show (_ && _ && _) = false ↔ _
    rw [Bool.eq_false_iff, Ne, Bool.and_eq_true, Bool.and_eq_true, decide_eq_true_iff, and_assoc]
  have hcompress : p.compress = true ↔ (request.necessary = true ∧ (isIncompatible info profile = true ∨ variant = .convertible)) ∨
      (request.compress = true ∧ canBeCompressed info (isInterface tables name) profile = true ∧
        info.format ≠ profile.format) := by
    rw [← hp]
    show (_ && _ || _ && _ && _) = true ↔ _
    rw [Bool.or_eq_true, Bool.and_eq_true, Bool.and_eq_true, Bool.and_eq_true, Bool.or_eq_true, decide_eq_true_iff,
      decide_eq_true_iff, and_assoc]
  have happlied : info.format.isCompressed = false → p.resize = false → p.compress = true →
      appliedFormat tables info name profile p =
        if canBeCompressed info (isInterface tables name) profile then profile.format else b8g8r8a8Unorm := by
    intro hformat hr hc
    have hfits : canBeCompressed info (isInterface tables name) profile =
        (interfaceOkay tables name profile && sidesFit (appliedSize info p)) := by
      unfold canBeCompressed interfaceOkay sidesFit isPowerOfTwo appliedSize
      rw [hr, if_neg Bool.false_ne_true, hformat, Bool.not_false, Bool.and_true, Bool.and_assoc]
    unfold appliedFormat
    rw [hfits, hc, if_pos rfl]
  unfold AlreadyConverted
  rw [hrequest]
  constructor
  · rintro ⟨-, hnecessary, hr, hm, hformat, heq⟩
    have hr' := hresize.mpr hr
    refine ⟨hformat, hr', hmipmaps.mpr hm, ?_⟩
    rw [happlied hformat hr' (hcompress.mpr (.inl hnecessary))]
    exact heq
  · rintro ⟨hformat, hr, hm, heq⟩
    have hc : p.compress = true := by
      unfold TexturePlan.wouldChange at hplan
      rw [hr, hm, Bool.false_or, Bool.or_false] at hplan
      exact hplan
    rw [happlied hformat hr hc] at heq
    refine ⟨rfl, ?_, hresize.mp hr, hmipmaps.mp hm, hformat, heq⟩
    rcases hcompress.mp hc with hnecessary | ⟨-, hcan, hne⟩
    · exact hnecessary
    · rw [if_pos hcan] at heq
      exact absurd heq hne

/-- **A Dry Run agrees with Apply unless the only work is a conversion to the format that the Texture has.** -/
theorem dryRun_agrees_iff {lib : DirectXTex} (h : lib.AsRequested) (tables : CaseTables) (settings : TextureSettings)
    (profile : TextureProfile) (optimize convert : Bool) (info : ImageMetadata) (name : Text) (variant : TextureVariant) :
    ((optimizeTexture lib tables settings profile optimize convert true (.of info name variant)).map Prod.fst = .ok .changed ↔
      (optimizeTexture lib tables settings profile optimize convert false (.of info name variant)).map Prod.fst =
        .ok .changed) ↔
    ¬ AlreadyConverted tables settings profile optimize convert info.toTexMetadata name variant := by
  have hok : ∀ (changed : Bool) (final : LoadedTexture),
      ((Except.ok (resultOf changed, final) : Except TextureError _).map Prod.fst = .ok .changed) ↔ changed = true := by
    intro changed final
    rw [← resultOf_eq_changed changed]
    exact ⟨fun heq => Except.ok.inj heq, fun heq => congrArg Except.ok heq⟩
  have hdryRun : optimizeTexture lib tables settings profile optimize convert true (.of info name variant) =
      .ok (resultOf ((plan tables info.toTexMetadata name variant profile
        (textureRequest settings optimize convert info.toTexMetadata)).wouldChange || convert), .of info name variant) := rfl
  obtain ⟨modified, final, happly, hrun⟩ := optimizeTexture_eq h tables settings profile optimize convert info name variant
  rw [hdryRun, happly, hok, hok]
  cases convert with
  | true =>
    rw [Bool.or_true, Bool.or_true]
    exact iff_of_true Iff.rfl fun hconverted => Bool.noConfusion hconverted.1
  | false =>
    rw [Bool.or_false, Bool.or_false]
    cases hplan : (plan tables info.toTexMetadata name variant profile
        (textureRequest settings optimize false info.toTexMetadata)).wouldChange with
    | false =>
      have hunmodified : modified = false := by
        unfold LoadedTexture.optimize at hrun
        dsimp only [LoadedTexture.of] at hrun
        rw [hplan] at hrun
        exact (congrArg Prod.fst (Except.ok.inj hrun)).symm
      rw [hunmodified]
      refine iff_of_true Iff.rfl fun hconverted => ?_
      -- a conversion is planned of every such Texture
      unfold plan TexturePlan.wouldChange at hplan
      simp only [Bool.or_eq_false_iff, Bool.and_eq_false_iff] at hplan
      rcases hplan.1.2.1 with hnecessary | hneeded
      · rw [hconverted.2.1.1] at hnecessary
        cases hnecessary
      · rcases hconverted.2.1.2 with hincompatible | hvariant
        · rw [hincompatible] at hneeded
          cases hneeded.1
        · rw [hvariant] at hneeded
          cases hneeded.2
    | true =>
      obtain ⟨modified', final', hrun', -, -, hmodified⟩ := optimize_of h tables info name variant profile
        (textureRequest settings optimize false info.toTexMetadata) hplan
      have heq : modified = modified' := congrArg Prod.fst (Except.ok.inj (hrun.symm.trans hrun'))
      rw [alreadyConverted_iff tables settings profile optimize info.toTexMetadata name variant hplan, ← hmodified, heq]
      cases modified' <;> simp

/-! ## The format that is written -/

/-- **A block-compressed Texture of sides that fit ends in its own format, or in the one that its plan converts it to**,
unless it is an interface Texture that the profile does not compress. -/
theorem format_kept_iff {lib : DirectXTex} (h : lib.AsRequested) (tables : CaseTables) (info : ImageMetadata) (name : Text)
    (variant : TextureVariant) (profile : TextureProfile) (request : TextureRequest)
    (hcompressed : info.format.isCompressed = true)
    (hsides : sidesFit (appliedSize info.toTexMetadata
      (plan tables info.toTexMetadata name variant profile request)) = true)
    (hplan : (plan tables info.toTexMetadata name variant profile request).wouldChange = true) :
    (∃ (modified : Bool) (final : LoadedTexture),
      (LoadedTexture.of info name variant).optimize lib tables profile request = .ok (modified, final) ∧
      ((plan tables info.toTexMetadata name variant profile request).compress = false →
        final.info.format = info.format) ∧
      ((plan tables info.toTexMetadata name variant profile request).compress = true →
        final.info.format = profile.format)) ↔
    profile.compressInterface = true ∨ isInterface tables name = false ∨
      ((plan tables info.toTexMetadata name variant profile request).compress = true ∧ profile.format = b8g8r8a8Unorm) := by
  obtain ⟨modified, final, hrun, -, hformat, -⟩ := optimize_of h tables info name variant profile request hplan
  generalize plan tables info.toTexMetadata name variant profile request = p at hsides hformat ⊢
  have hrun_iff : ∀ P : LoadedTexture → Prop, (∃ (modified : Bool) (final : LoadedTexture),
      (LoadedTexture.of info name variant).optimize lib tables profile request = .ok (modified, final) ∧ P final) ↔
        P (.of final name variant) := by
    intro P
    constructor
    · rintro ⟨modified', final', hrun', hP⟩
      rw [hrun] at hrun'
      cases hrun'
      exact hP
    · exact fun hP => ⟨modified, _, hrun, hP⟩
  rw [hrun_iff]
  show (_ → final.format = _) ∧ (_ → final.format = _) ↔ _
  have hblock : b8g8r8a8Unorm ≠ info.format := fun heq => by
    rw [← heq] at hcompressed
    cases hcompressed
  unfold appliedFormat at hformat
  rw [hsides, Bool.and_true] at hformat
  rw [hformat, ← or_assoc, show profile.compressInterface = true ∨ isInterface tables name = false ↔
    interfaceOkay tables name profile = true by simp [interfaceOkay]]
  cases interfaceOkay tables name profile <;> cases p.compress <;> simp [hblock, eq_comm]

/-! ## Two Textures -/

/-- DirectXTex, of operations that all succeed; block formats decompress to `R8G8B8A8_UNORM`. -/
def exactDirectXTex : DirectXTex where
  decompress image := .ok { image with format := ⟨28, false, true⟩ }
  resize image width height := .ok { image with width, height, mipLevels := 1 }
  initializeImage image := .ok image
  hasTopImage image item := item < image.arraySize
  copyRectangle _ := .ok ()
  generateMipMaps image levels := .ok { image with mipLevels := levels }
  compress image format := .ok { image with format }
  gpuCompress := none
  convert image format := .ok { image with format }

theorem exactDirectXTex_asRequested : exactDirectXTex.AsRequested where
  decompress _ := ⟨⟨28, false, true⟩, rfl, rfl⟩
  resize _ _ _ _ _ := rfl
  initializeImage _ := rfl
  hasTopImage _ _ h := decide_eq_true h
  copyRectangle _ := rfl
  generateMipMaps _ _ := rfl
  compress _ _ := rfl
  gpuCompress _ h := by cases h
  convert _ _ := rfl

/-- A cubemap of `B8G8R8A8_UNORM` with sides of 2, whose alpha is opaque. -/
def smallCubemap : ImageMetadata :=
  { width := 2, height := 2, mipLevels := 1, format := b8g8r8a8Unorm, alphaOpaque := true, isCubemap := true, depth := 1,
    arraySize := 6, miscFlags := 4, dimension := 3, isCubemap_eq := by decide }

/-- `BC7_UNORM`. -/
def bc7Unorm : Format := ⟨98, true, true⟩

/-- A square Texture of `BC7_UNORM`. -/
def blockTexture (side : Nat) : ImageMetadata :=
  { width := side, height := side, mipLevels := 1, format := bc7Unorm, alphaOpaque := false, isCubemap := false, depth := 1,
    arraySize := 1, miscFlags := 0, dimension := 3, isCubemap_eq := by decide }

/-- A profile that compresses to `BC7_UNORM`, and no interface Textures. -/
def bc7Profile : TextureProfile := ⟨bc7Unorm, [], false⟩

/-- Necessary optimization, and nothing else. -/
def necessaryOnly : TextureSettings := ⟨true, false, false, .none⟩

theorem dryRun_agrees_cubemap :
    ¬ (((optimizeTexture exactDirectXTex .ascii necessaryOnly bc7Profile true false true (.of smallCubemap [] .native)).map
        Prod.fst = .ok .changed ↔
      (optimizeTexture exactDirectXTex .ascii necessaryOnly bc7Profile true false false (.of smallCubemap [] .native)).map
        Prod.fst = .ok .changed)) := by
  rw [dryRun_agrees_iff exactDirectXTex_asRequested, not_not]
  exact ⟨rfl, by decide +kernel, rfl, by decide +kernel, rfl, by decide +kernel⟩

/-- **A Dry Run reports a cubemap that Apply leaves**: it is converted to the format that it has. -/
theorem dryRun_reports_unchanged : ¬ ∀ (lib : DirectXTex), lib.AsRequested → ∀ (tables : CaseTables)
    (settings : TextureSettings) (profile : TextureProfile) (optimize convert : Bool) (info : ImageMetadata) (name : Text)
    (variant : TextureVariant),
    ((optimizeTexture lib tables settings profile optimize convert true (.of info name variant)).map Prod.fst = .ok .changed ↔
      (optimizeTexture lib tables settings profile optimize convert false (.of info name variant)).map Prod.fst =
        .ok .changed) := by
  intro h
  have hagree := h exactDirectXTex exactDirectXTex_asRequested .ascii necessaryOnly bc7Profile true false smallCubemap [] .native
  have hdryRun : (optimizeTexture exactDirectXTex .ascii necessaryOnly bc7Profile true false true
      (.of smallCubemap [] .native)).map Prod.fst = .ok .changed := rfl
  have happly : (optimizeTexture exactDirectXTex .ascii necessaryOnly bc7Profile true false false
      (.of smallCubemap [] .native)).map Prod.fst = .ok .unchanged := rfl
  have hchanged := hagree.mp hdryRun
  rw [happly] at hchanged
  cases hchanged

/-- Halving towards sides of 8, and nothing else. -/
def halveToEight : TextureRequest := ⟨false, false, false, some (8, 8)⟩

theorem format_kept_mesh_texture : ∃ (modified : Bool) (final : LoadedTexture),
    (LoadedTexture.of (blockTexture 16) "a.dds".toList .native).optimize exactDirectXTex .ascii bc7Profile halveToEight =
      .ok (modified, final) ∧ final.info.format = bc7Unorm := by
  obtain ⟨modified, final, hrun, hkept, -⟩ := (format_kept_iff exactDirectXTex_asRequested .ascii (blockTexture 16)
    "a.dds".toList .native bc7Profile halveToEight rfl (by decide +kernel) (by decide +kernel)).mpr
    (.inr (.inl (by decide +kernel)))
  exact ⟨modified, final, hrun, hkept (by decide +kernel)⟩

/-- **An interface Texture of a block format is resized to one that is not compressed.** -/
theorem format_lost : ¬ ∀ (lib : DirectXTex), lib.AsRequested → ∀ (tables : CaseTables) (info : ImageMetadata) (name : Text)
    (variant : TextureVariant) (profile : TextureProfile) (request : TextureRequest) (modified : Bool) (final : LoadedTexture),
    info.format.isCompressed = true →
    sidesFit (appliedSize info.toTexMetadata (plan tables info.toTexMetadata name variant profile request)) = true →
    ((plan tables info.toTexMetadata name variant profile request).resize = true ∨
      (plan tables info.toTexMetadata name variant profile request).mipmaps = true) →
    (plan tables info.toTexMetadata name variant profile request).compress = false →
    (LoadedTexture.of info name variant).optimize lib tables profile request = .ok (modified, final) →
    final.info.format = info.format := by
  intro h
  obtain ⟨modified, final, hrun, -, hformat, -⟩ := optimize_of exactDirectXTex_asRequested .ascii (blockTexture 16)
    "interface/a.dds".toList .native bc7Profile halveToEight (by decide +kernel)
  have hkept := h exactDirectXTex exactDirectXTex_asRequested .ascii (blockTexture 16) "interface/a.dds".toList .native
    bc7Profile halveToEight modified _ rfl (by decide +kernel) (by decide +kernel) (by decide +kernel) hrun
  have hlost : final.format = b8g8r8a8Unorm := by
    rw [hformat]
    decide +kernel
  rw [show final.format = bc7Unorm from hkept] at hlost
  exact absurd hlost (by decide)

end Cao.Texture
