import Cao.Texture.Plan

/-!
# The sides of a resized Texture

* `halving_run`: the loop halves both sides the least number of times that ends it;
* `writtenSize_le`, `writtenSize_eq`: applying a plan never enlarges a Texture, and writes powers of two as planned;
* **`validPlan_iff`**: a plan leaves both sides at least 1 exactly where no side below its ratio is halved away.
-/

namespace Cao.Texture

variable {target : Nat × Nat} {info : TexMetadata}

/-! ## The loop -/

/-- **The sides are halved the least number of times that ends the loop.** -/
theorem halving_run (target : Nat × Nat) (width height : Nat) :
    ∃ n, (halving target).run (width, height) = (width / 2 ^ n, height / 2 ^ n) ∧
      (width / 2 ^ n ≤ target.1 ∨ height / 2 ^ n ≤ target.2) ∧
      ∀ m < n, target.1 < width / 2 ^ m ∧ target.2 < height / 2 ^ m := by
  induction width using Nat.strongRecOn generalizing height with
  | ind width ih =>
    by_cases hlarge : target.1 < width ∧ target.2 < height
    · have hpass : (halving target).body (width, height) = .next (width / 2, height / 2) := if_pos hlarge
      obtain ⟨n, hrun, hend, hleast⟩ := ih (width / 2) (by omega) (height / 2)
      have hhalf : ∀ x k : Nat, x / 2 / 2 ^ k = x / 2 ^ (k + 1) := by
        intro x k
        rw [Nat.div_div_eq_div_mul, Nat.pow_succ, Nat.mul_comm]
      refine ⟨n + 1, ?_, ?_, ?_⟩
      · rw [Loop.run_next hpass, hrun, hhalf, hhalf]
      · rwa [hhalf, hhalf] at hend
      · intro m hm
        cases m with
        | zero => simpa using hlarge
        | succ m =>
          have := hleast m (by omega)
          rwa [hhalf, hhalf] at this
    · have hpass : (halving target).body (width, height) = .done (width, height) := if_neg hlarge
      refine ⟨0, ?_, ?_, fun m hm => absurd hm (Nat.not_lt_zero m)⟩
      · rw [Loop.run_done hpass, Nat.pow_zero, Nat.div_one, Nat.div_one]
      · rw [Nat.pow_zero, Nat.div_one, Nat.div_one]
        omega

/-- Where the loop ends. -/
def Ended (target : Option (Nat × Nat)) (width height : Nat) : Prop :=
  ∀ t, target = some t → width ≤ t.1 ∨ height ≤ t.2

theorem not_ended {target : Option (Nat × Nat)} {width height : Nat} :
    ¬ Ended target width height ↔ ∃ t, target = some t ∧ t.1 < width ∧ t.2 < height := by
  unfold Ended
  push Not
  rfl

/-- The sides, each halved so many times. -/
def HalvedBy (n : Nat) (target : Option (Nat × Nat)) (info : TexMetadata) (size : Nat × Nat) : Prop :=
  size = (info.width / 2 ^ n, info.height / 2 ^ n) ∧ Ended target size.1 size.2 ∧
    ∀ m < n, ¬ Ended target (info.width / 2 ^ m) (info.height / 2 ^ m)

theorem plannedSize_halved (target : Option (Nat × Nat)) (info : TexMetadata) :
    ∃ n, HalvedBy n target info (plannedSize target info) := by
  cases target with
  | none =>
    refine ⟨0, ?_, ?_, ?_⟩
    · rw [Nat.pow_zero, Nat.div_one, Nat.div_one]
      rfl
    · intro t ht
      cases ht
    · exact fun m hm => absurd hm (Nat.not_lt_zero m)
  | some target =>
    obtain ⟨n, hrun, hend, hleast⟩ := halving_run target info.width info.height
    refine ⟨n, hrun, ?_, ?_⟩
    · intro t ht
      cases ht
      show ((halving target).run (info.width, info.height)).1 ≤ _ ∨ _
      rwa [plannedSize, hrun]
    · intro m hm hended
      have := hleast m hm
      have := hended target rfl
      omega

/-- A side is not halved away while it has a binary digit left. -/
theorem halved_pos_iff {side : Nat} (hside : 1 ≤ side) (n : Nat) : 1 ≤ side / 2 ^ n ↔ n ≤ side.log2 := by
  rw [Nat.le_log2 (by omega), Nat.le_div_iff_mul_le (Nat.two_pow_pos n), Nat.one_mul]

/-! ## What applying writes -/

theorem nextPowerOfTwo_pos (n : Nat) : 0 < nextPowerOfTwo n := Nat.two_pow_pos _

theorem nextPowerOfTwo_pow (k : Nat) : nextPowerOfTwo (2 ^ k) = 2 ^ k := by
  unfold nextPowerOfTwo
  rw [Nat.clog_pow 2 k (by decide)]

/-- Rounding up what was halved stays within the side. -/
theorem nextPowerOfTwo_halved_le {side n : Nat} (hside : 1 ≤ side) (hn : n ≠ 0) :
    nextPowerOfTwo (side / 2 ^ n) ≤ side := by
  have htwice : 2 * (side / 2 ^ n) ≤ side := by
    have hstep : side / 2 ^ n ≤ side / 2 := by
      apply Nat.div_le_div_left _ (by decide)
      exact Nat.le_self_pow hn 2
    omega
  unfold nextPowerOfTwo
  by_cases hsmall : side / 2 ^ n ≤ 1
  · rw [Nat.clog_of_right_le_one hsmall]
    exact hside
  · have hlt : 2 ^ (Nat.clog 2 (side / 2 ^ n)).pred < side / 2 ^ n :=
      Nat.pow_pred_clog_lt_self (by decide) (by omega)
    have hpos : 0 < Nat.clog 2 (side / 2 ^ n) := Nat.clog_pos (by decide) (by omega)
    have hpow : 2 ^ Nat.clog 2 (side / 2 ^ n) = 2 * 2 ^ (Nat.clog 2 (side / 2 ^ n)).pred := by
      rw [← Nat.pow_succ', Nat.succ_pred_eq_of_pos hpos]
    omega

variable {resizer : Resizer} {tables : CaseTables} {name : Text} {variant : TextureVariant} {profile : TextureProfile}
  {request : TextureRequest}

/-- **Applying a plan never enlarges a Texture.** -/
theorem writtenSize_le (hwidth : 1 ≤ info.width) (hheight : 1 ≤ info.height) :
    (writtenSize resizer info (plan tables info name variant profile request)).1 ≤ info.width ∧
      (writtenSize resizer info (plan tables info name variant profile request)).2 ≤ info.height := by
  obtain ⟨n, hsize, -, -⟩ := plannedSize_halved request.target info
  unfold writtenSize resize
  by_cases hresize : (plan tables info name variant profile request).resize
  · rw [if_pos hresize]
    split_ifs with hsmall
    · exact ⟨Nat.le_refl _, Nat.le_refl _⟩
    · have hn : n ≠ 0 := by
        rintro rfl
        have hsame : plannedSize request.target info = (info.width, info.height) := by simpa using hsize
        have hchanged : plannedSize request.target info ≠ (info.width, info.height) := of_decide_eq_true hresize
        exact hchanged hsame
      have hw : (plan tables info name variant profile request).width = info.width / 2 ^ n := congrArg Prod.fst hsize
      have hh : (plan tables info name variant profile request).height = info.height / 2 ^ n := congrArg Prod.snd hsize
      rw [resizer.resize_eq _ _ (nextPowerOfTwo_pos _) (nextPowerOfTwo_pos _), hw, hh]
      exact ⟨nextPowerOfTwo_halved_le hwidth hn, nextPowerOfTwo_halved_le hheight hn⟩
  · rw [if_neg hresize]
    exact ⟨Nat.le_refl _, Nat.le_refl _⟩

/-- **Sides that are powers of two are written as they are planned.** -/
theorem writtenSize_eq {a b : Nat} (hw : (plan tables info name variant profile request).width = 2 ^ a)
    (hh : (plan tables info name variant profile request).height = 2 ^ b) :
    writtenSize resizer info (plan tables info name variant profile request) =
      ((plan tables info name variant profile request).width, (plan tables info name variant profile request).height) := by
  obtain ⟨n, hsize, -, -⟩ := plannedSize_halved request.target info
  have hw' : (plan tables info name variant profile request).width = info.width / 2 ^ n := congrArg Prod.fst hsize
  have hh' : (plan tables info name variant profile request).height = info.height / 2 ^ n := congrArg Prod.snd hsize
  unfold writtenSize resize
  by_cases hresize : (plan tables info name variant profile request).resize
  · rw [if_pos hresize]
    split_ifs with hsmall
    · have hle : ∀ x : Nat, x / 2 ^ n ≤ x := fun x => Nat.div_le_self x _
      have := hle info.width
      have := hle info.height
      rw [Prod.mk.injEq]
      omega
    · rw [resizer.resize_eq _ _ (nextPowerOfTwo_pos _) (nextPowerOfTwo_pos _), hw, hh, nextPowerOfTwo_pow,
        nextPowerOfTwo_pow]
  · rw [if_neg hresize]
    have hsame : plannedSize request.target info = (info.width, info.height) :=
      Decidable.byContradiction fun hne => hresize (decide_eq_true hne)
    exact hsame.symm

/-! ## The planned sides -/

/-- **What a plan promises of a Texture's sides**, and of those that Apply writes. -/
structure ValidPlan (resizer : Resizer) (target : Option (Nat × Nat)) (info : TexMetadata) (plan : TexturePlan) : Prop where
  halved : ∃ n, HalvedBy n target info (plan.width, plan.height)
  width_pos : 1 ≤ plan.width
  height_pos : 1 ≤ plan.height
  written_le : (writtenSize resizer info plan).1 ≤ info.width ∧ (writtenSize resizer info plan).2 ≤ info.height
  written_eq : ∀ a b, plan.width = 2 ^ a → plan.height = 2 ^ b → writtenSize resizer info plan = (plan.width, plan.height)

/-- No side is halved away: where a side is below its ratio, so that its target is 0, the other side reaches its own
target first. -/
def KeepsSides (target : Option (Nat × Nat)) (info : TexMetadata) : Prop :=
  ∀ t, target = some t →
    (t.1 = 0 → info.height / 2 ^ info.width.log2 ≤ t.2) ∧ (t.2 = 0 → info.width / 2 ^ info.height.log2 ≤ t.1)

theorem div_two_pow_log2 {n : Nat} (h : 1 ≤ n) : n / 2 ^ n.log2 = 1 := by
  apply Nat.div_eq_of_lt_le
  · simpa using Nat.log2_self_le (by omega)
  · simpa [Nat.pow_succ, Nat.mul_comm] using @Nat.lt_log2_self n

/-- The planned sides are at least 1 exactly where none is halved away. -/
theorem plannedSize_pos_iff (target : Option (Nat × Nat)) (hwidth : 1 ≤ info.width) (hheight : 1 ≤ info.height) :
    (1 ≤ (plannedSize target info).1 ∧ 1 ≤ (plannedSize target info).2) ↔ KeepsSides target info := by
  obtain ⟨n, hsize, hend, hleast⟩ := plannedSize_halved target info
  rw [hsize] at hend ⊢
  rw [halved_pos_iff hwidth, halved_pos_iff hheight]
  constructor
  · rintro ⟨hw, hh⟩ t ht
    have hmono : ∀ {x k : Nat}, n ≤ k → x / 2 ^ k ≤ x / 2 ^ n := fun hk =>
      Nat.div_le_div_left (Nat.pow_le_pow_right (by decide) hk) (Nat.two_pow_pos n)
    have hw' := (halved_pos_iff hwidth n).mpr hw
    have hh' := (halved_pos_iff hheight n).mpr hh
    have := hend t ht
    dsimp only at this
    constructor
    · intro hzero
      exact Nat.le_trans (hmono hw) (by omega)
    · intro hzero
      exact Nat.le_trans (hmono hh) (by omega)
  · intro hkeeps
    -- Past the last halving that keeps a side, the other side has ended the loop.
    constructor
    · by_contra hgone
      obtain ⟨t, ht, hw, hh⟩ := not_ended.mp (hleast info.width.log2 (by omega))
      rw [div_two_pow_log2 hwidth] at hw
      have := (hkeeps t ht).1 (by omega)
      omega
    · by_contra hgone
      obtain ⟨t, ht, hw, hh⟩ := not_ended.mp (hleast info.height.log2 (by omega))
      rw [div_two_pow_log2 hheight] at hh
      have := (hkeeps t ht).2 (by omega)
      omega

/-- **A plan is valid exactly where no side is halved away.** Every other promise it keeps for every Texture and every
resize choice that a run accepts. -/
theorem validPlan_iff (resizer : Resizer) (tables : CaseTables) (settings : TextureSettings) (optimize convert : Bool)
    (info : TexMetadata) (name : Text) (variant : TextureVariant) (profile : TextureProfile) (hwidth : 1 ≤ info.width)
    (hheight : 1 ≤ info.height) :
    ValidPlan resizer (textureRequest settings optimize convert info).target info
        (plan tables info name variant profile (textureRequest settings optimize convert info)) ↔
      (optimize = true → KeepsSides (resizeTarget settings.resize info) info) := by
  have hpos := plannedSize_pos_iff (textureRequest settings optimize convert info).target hwidth hheight
  have hcond : KeepsSides (textureRequest settings optimize convert info).target info ↔
      (optimize = true → KeepsSides (resizeTarget settings.resize info) info) := by
    unfold textureRequest
    cases optimize with
    | true => simp
    | false => simp [KeepsSides]
  rw [← hcond, ← hpos]
  constructor
  · intro hvalid
    exact ⟨hvalid.width_pos, hvalid.height_pos⟩
  · rintro ⟨hw, hh⟩
    exact ⟨plannedSize_halved _ info, hw, hh, writtenSize_le hwidth hheight, fun a b hw hh => writtenSize_eq hw hh⟩

/-! ### A Texture of one pixel -/

/-- A resizer that returns the size it is asked for. -/
def exactResizer : Resizer := ⟨fun width height => (width, height), fun _ _ _ _ => rfl⟩

/-- An uncompressed Texture of these sides. -/
def sampleInfo (width height : Nat) : TexMetadata := ⟨width, height, 1, ⟨28, false, true⟩, false, false⟩

/-- Settings that halve both sides. -/
def halvingSettings : TextureSettings := ⟨false, false, false, .ratio ⟨2, 2, by decide, by decide⟩⟩

/-- A profile of the sample Textures. -/
def sampleTextureProfile : TextureProfile := ⟨⟨28, false, true⟩, [], false⟩

theorem validPlan_sample :
    ValidPlan exactResizer (textureRequest halvingSettings true false (sampleInfo 8 4)).target (sampleInfo 8 4)
      (plan .ascii (sampleInfo 8 4) [] .native sampleTextureProfile
        (textureRequest halvingSettings true false (sampleInfo 8 4))) := by
  refine (validPlan_iff exactResizer .ascii halvingSettings true false (sampleInfo 8 4) [] .native sampleTextureProfile
    (by decide) (by decide)).mpr fun _ t ht => ?_
  cases ht
  exact ⟨fun h => absurd h (by decide), fun h => absurd h (by decide)⟩

/-- **A Texture of one pixel is planned with no pixel.** -/
theorem not_validPlan_pixel :
    ¬ ValidPlan exactResizer (textureRequest halvingSettings true false (sampleInfo 1 1)).target (sampleInfo 1 1)
      (plan .ascii (sampleInfo 1 1) [] .native sampleTextureProfile
        (textureRequest halvingSettings true false (sampleInfo 1 1))) := by
  intro hvalid
  have hzero : (plan .ascii (sampleInfo 1 1) [] .native sampleTextureProfile
      (textureRequest halvingSettings true false (sampleInfo 1 1))).width = 0 := by decide
  have := hvalid.width_pos
  omega

end Cao.Texture
