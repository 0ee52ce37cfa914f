import Cao.Ini.Encoding
import Cao.Lib.Loop
import Mathlib.Data.Nat.Log
import Mathlib.Algebra.Order.Group.Nat

/-!
# What is done to a Texture

The decision for one Texture (`cao_optimizers::textures`), and the size that applying it leaves.

* `ResizeRatio`, `ResizeSize`, `TextureResizeChoice`: a run's accepted resize choices;
* `target`, `halving`, `plan`: the decision, the size halved towards a target;
* `resize`, `writtenSize`: the size applied, rounded up to powers of two.
-/

namespace Cao.Texture

/-! ## The resize choice -/

/-- Why a Work Choice is rejected. -/
inductive WorkChoiceError
  | zeroResizeRatio
  | oddResizeSize
  | zeroResizeSize
  deriving DecidableEq, Repr

/-- The ratios that a Texture's sides are divided by. -/
structure ResizeRatio where
  width : UInt32
  height : UInt32
  width_ne : width ≠ 0
  height_ne : height ≠ 0

/-- The size that a Texture is halved towards. -/
structure ResizeSize where
  width : UInt32
  height : UInt32
  width_ne : width ≠ 0
  height_ne : height ≠ 0
  width_even : width % 2 = 0
  height_even : height % 2 = 0

/-- `ResizeRatio::new`. -/
def ResizeRatio.new (width height : UInt32) : Except WorkChoiceError ResizeRatio :=
  if hw : width = 0 then .error .zeroResizeRatio
  else if hh : height = 0 then .error .zeroResizeRatio
  else .ok ⟨width, height, hw, hh⟩

/-- `ResizeSize::new`: the odd sides are checked first. -/
def ResizeSize.new (width height : UInt32) : Except WorkChoiceError ResizeSize :=
  if hw : width % 2 = 0 then
    if hh : height % 2 = 0 then
      if hw' : width = 0 then .error .zeroResizeSize
      else if hh' : height = 0 then .error .zeroResizeSize
      else .ok ⟨width, height, hw', hh', hw, hh⟩
    else .error .oddResizeSize
  else .error .oddResizeSize

/-- Whether and how a run resizes its Textures. -/
inductive TextureResizeChoice
  | none
  | ratio (ratio : ResizeRatio)
  | size (size : ResizeSize)

/-- The resize options of a profile. -/
structure ResizeOptions where
  resizeRatio : Bool
  resizeSize : Bool
  targetWidthRatio : UInt32
  targetHeightRatio : UInt32
  targetWidth : UInt32
  targetHeight : UInt32

/-- `work_choices`, its resize choice: ratio wins, and only the choice a run uses is checked. -/
def resizeChoice (options : ResizeOptions) : Except WorkChoiceError TextureResizeChoice :=
  if options.resizeRatio then (ResizeRatio.new options.targetWidthRatio options.targetHeightRatio).map .ratio
  else if options.resizeSize then (ResizeSize.new options.targetWidth options.targetHeight).map .size
  else .ok .none

/-! ## The decision -/

/-- A `DXGI_FORMAT`, with what DirectXTex says of it. -/
structure Format where
  number : Nat
  isCompressed : Bool
  hasAlpha : Bool
  deriving DecidableEq

/-- What is read of a Texture's metadata. -/
structure TexMetadata where
  width : Nat
  height : Nat
  mipLevels : Nat
  format : Format
  alphaOpaque : Bool
  isCubemap : Bool

/-- `TextureVariant`. -/
inductive TextureVariant
  | native
  | convertible
  deriving DecidableEq

/-- `TextureProfile`. -/
structure TextureProfile where
  format : Format
  unwantedFormats : List Format
  compressInterface : Bool

/-- `TextureSettings`: the per-run Texture options. -/
structure TextureSettings where
  necessary : Bool
  compress : Bool
  mipmaps : Bool
  resize : TextureResizeChoice

/-- `TextureRequest`. -/
structure TextureRequest where
  necessary : Bool
  compress : Bool
  mipmaps : Bool
  target : Option (Nat × Nat)

/-- `TexturePlan`. -/
structure TexturePlan where
  width : Nat
  height : Nat
  resize : Bool
  compress : Bool
  mipmaps : Bool

/-- `would_change`. -/
def TexturePlan.wouldChange (plan : TexturePlan) : Bool := plan.resize || plan.compress || plan.mipmaps

/-- The size a Texture's sides are halved towards. -/
def resizeTarget (choice : TextureResizeChoice) (info : TexMetadata) : Option (Nat × Nat) :=
  match choice with
  | .none => none
  | .ratio ratio => some (info.width / ratio.width.toNat, info.height / ratio.height.toNat)
  | .size size => some (size.width.toNat, size.height.toNat)

/-- `texture_request`. -/
def textureRequest (settings : TextureSettings) (optimize convert : Bool) (info : TexMetadata) : TextureRequest where
  necessary := convert || (optimize && settings.necessary)
  compress := optimize && settings.compress
  mipmaps := optimize && settings.mipmaps
  target := if optimize then resizeTarget settings.resize info else none

/-- One pass of `plan`'s loop: both sides are halved while both are above the target. -/
def halve (target : Nat × Nat) (size : Nat × Nat) : Pass (Nat × Nat) (Nat × Nat) :=
  if target.1 < size.1 ∧ target.2 < size.2 then .next (size.1 / 2, size.2 / 2) else .done size

/-- The loop of `plan`. -/
def halving (target : Nat × Nat) : Loop (Nat × Nat) (Nat × Nat) where
  body := halve target
  size s := s.1
  shrinks {s s'} h := by
    unfold halve at h
    split_ifs at h with hlarge
    cases h
    show s.1 / 2 < s.1
    omega

/-- `is_power_of_two`. -/
def isPowerOfTwo (info : TexMetadata) : Bool :=
  2 ^ info.width.log2 == info.width && 2 ^ info.height.log2 == info.height

/-- One pass of `optimal_mip_count`. -/
def mipStep (s : (Nat × Nat) × Nat) : Pass ((Nat × Nat) × Nat) Nat :=
  if 1 < s.1.1 ∨ 1 < s.1.2 then .next ((max (s.1.1 / 2) 1, max (s.1.2 / 2) 1), s.2 + 1) else .done s.2

/-- The loop of `optimal_mip_count`. -/
def mipLoop : Loop ((Nat × Nat) × Nat) Nat where
  body := mipStep
  size s := (s.1.1 - 1) + (s.1.2 - 1)
  shrinks {s s'} h := by
    unfold mipStep at h
    split_ifs at h with hlarge
    cases h
    show (max (s.1.1 / 2) 1 - 1) + (max (s.1.2 / 2) 1 - 1) < (s.1.1 - 1) + (s.1.2 - 1)
    omega

/-- `optimal_mip_count`. -/
def optimalMipCount (width height : Nat) : Nat := mipLoop.run ((width, height), 1)

/-- `is_incompatible`. -/
def isIncompatible (info : TexMetadata) (profile : TextureProfile) : Bool :=
  profile.unwantedFormats.contains info.format ||
    (info.isCubemap && !info.format.isCompressed && (info.alphaOpaque || !info.format.hasAlpha)) ||
    (info.format.isCompressed && !isPowerOfTwo info)

/-- `can_be_compressed`. -/
def canBeCompressed (info : TexMetadata) (isInterface : Bool) (profile : TextureProfile) : Bool :=
  (profile.compressInterface || !isInterface) && !info.format.isCompressed && (4 ≤ info.width && 4 ≤ info.height) &&
    isPowerOfTwo info

/-- `can_have_mipmaps`. -/
def canHaveMipmaps (info : TexMetadata) (isInterface : Bool) (profile : TextureProfile) : Bool :=
  (!isInterface || profile.compressInterface) && 4 ≤ info.width && 4 ≤ info.height

/-- The name of an interface Texture holds `interface`, in any case. -/
def isInterface (tables : CaseTables) (name : Text) : Bool :=
  (toLowercase tables name).tails.any ("interface".toList.isPrefixOf ·)

/-- The size that `plan` leaves. -/
def plannedSize (target : Option (Nat × Nat)) (info : TexMetadata) : Nat × Nat :=
  match target with
  | none => (info.width, info.height)
  | some target => (halving target).run (info.width, info.height)

/-- `plan`. -/
def plan (tables : CaseTables) (info : TexMetadata) (name : Text) (variant : TextureVariant) (profile : TextureProfile)
    (request : TextureRequest) : TexturePlan where
  width := (plannedSize request.target info).1
  height := (plannedSize request.target info).2
  resize := decide (plannedSize request.target info ≠ (info.width, info.height))
  compress :=
    (request.necessary && (isIncompatible info profile || variant = .convertible)) ||
      (request.compress && canBeCompressed info (isInterface tables name) profile && info.format ≠ profile.format)
  mipmaps :=
    request.mipmaps && info.mipLevels ≠ optimalMipCount info.width info.height &&
      canHaveMipmaps info (isInterface tables name) profile

/-! ## Applying it -/

/-- DirectXTex's `Resize`: the sides of the image it returns, which are those it is asked for. -/
structure Resizer where
  resize : Nat → Nat → Nat × Nat
  resize_eq : ∀ width height, 0 < width → 0 < height → resize width height = (width, height)

/-- `usize::next_power_of_two`. -/
def nextPowerOfTwo (n : Nat) : Nat := 2 ^ Nat.clog 2 n

/-- `Texture::resize`: the size it leaves. -/
def resize (resizer : Resizer) (info : TexMetadata) (width height : Nat) : Nat × Nat :=
  if info.width ≤ width ∧ info.height ≤ height then (info.width, info.height)
  else resizer.resize (nextPowerOfTwo width) (nextPowerOfTwo height)

/-- The size that `optimize` writes. Every other step is checked to keep it. -/
def writtenSize (resizer : Resizer) (info : TexMetadata) (plan : TexturePlan) : Nat × Nat :=
  if plan.resize then resize resizer info plan.width plan.height else (info.width, info.height)

end Cao.Texture
