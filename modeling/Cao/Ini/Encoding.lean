import Cao.Ordinal
import Cao.Lib.Decimal
import Mathlib.Data.List.DropRight

/-!
# Characters, units and bytes

The encodings that settings files are read and written through.

* `byte`, `bytes`: ASCII text as bytes;
* `encodeUtf16`, `fromUtf16Lossy`: UTF-16, with **`fromUtf16Lossy_encodeUtf16`**;
* `utf8Chunks`, `isUtf8`, `fromUtf8Lossy`: UTF-8, with U+FFFD for each invalid chunk;
* `CaseTables`, `toLowercase`: Unicode lowercasing, **`toLowercase_slash`**: a `/` divides it.
-/

namespace Cao

/-! ## ASCII -/

/-- The byte of an ASCII character. -/
def byte (c : Char) : UInt8 := UInt8.ofNat c.toNat

/-- The bytes of ASCII text. -/
def bytes (s : Text) : Bytes := s.map byte

/-- `[u8]::eq_ignore_ascii_case`. -/
def eqIgnoreAsciiCase (a b : Bytes) : Bool :=
  let lower : UInt8 → UInt8 := fun x => if 0x41 ≤ x ∧ x ≤ 0x5A then x + 0x20 else x
  a.map lower == b.map lower

/-- `u8::is_ascii_whitespace`. -/
def isAsciiWhitespace (b : UInt8) : Bool := b == 0x20 || b == 0x09 || b == 0x0A || b == 0x0C || b == 0x0D

/-- `[u8]::trim_ascii`. -/
def trimAscii (b : Bytes) : Bytes := (b.dropWhile isAsciiWhitespace).rdropWhile isAsciiWhitespace

/-- `u8::is_ascii_alphanumeric`. -/
def isAsciiAlphanumeric (b : UInt8) : Bool :=
  (0x30 ≤ b && b ≤ 0x39) || (0x41 ≤ b && b ≤ 0x5A) || (0x61 ≤ b && b ≤ 0x7A)

/-- `char::to_digit` of a byte read as a character. -/
def toDigit (radix : Nat) (b : UInt8) : Option Nat :=
  let digit :=
    if 0x30 ≤ b ∧ b ≤ 0x39 then some (b.toNat - 0x30)
    else if 0x61 ≤ b ∧ b ≤ 0x66 then some (b.toNat - 0x61 + 10)
    else if 0x41 ≤ b ∧ b ≤ 0x46 then some (b.toNat - 0x41 + 10)
    else none
  digit.filter (· < radix)

/-- `u8::is_ascii_hexdigit`. -/
def isAsciiHexdigit (b : UInt8) : Bool := (toDigit 16 b).isSome

/-- What holds of all 256 bytes. -/
theorem forall_byte {P : UInt8 → Prop} (h : ∀ n < 256, P (UInt8.ofNat n)) (b : UInt8) : P b := by
  have := h b.toNat b.toNat_lt
  rwa [UInt8.ofNat_toNat] at this

theorem bytes_append (s t : Text) : bytes (s ++ t) = bytes s ++ bytes t := List.map_append

/-! ## UTF-16 -/

/-- `str::encode_utf16`. -/
def encodeUtf16 (s : Text) : List Nat := encodeWide (OsStr.ofText s)

@[simp] theorem encodeUtf16_nil : encodeUtf16 [] = [] := rfl

@[simp] theorem encodeUtf16_cons (c : Char) (s : Text) :
    encodeUtf16 (c :: s) = (CodePoint.char c).units ++ encodeUtf16 s := rfl

@[simp] theorem encodeUtf16_append (s t : Text) : encodeUtf16 (s ++ t) = encodeUtf16 s ++ encodeUtf16 t := by
  unfold encodeUtf16 OsStr.ofText
  rw [List.map_append, encodeWide_append]

instance (u : Nat) : Decidable (IsSurrogate u) := inferInstanceAs (Decidable (_ ∧ _))

/-- `String::from_utf16_lossy`: an unpaired surrogate reads as U+FFFD. -/
def fromUtf16Lossy : List Nat → Text
  | [] => []
  | [u] => [if IsSurrogate u then '\uFFFD' else Char.ofNat u]
  | u :: v :: units =>
    if ¬ IsSurrogate u then Char.ofNat u :: fromUtf16Lossy (v :: units)
    else if u < 0xDC00 ∧ 0xDC00 ≤ v ∧ v < 0xE000 then
      Char.ofNat (0x10000 + (u - 0xD800) * 0x400 + (v - 0xDC00)) :: fromUtf16Lossy units
    else '\uFFFD' :: fromUtf16Lossy (v :: units)

theorem char_range (c : Char) : c.toNat < 0xD800 ∨ 0xDFFF < c.toNat ∧ c.toNat < 0x110000 := c.valid

theorem fromUtf16Lossy_units (c : Char) (units : List Nat) :
    fromUtf16Lossy ((CodePoint.char c).units ++ units) = c :: fromUtf16Lossy units := by
  have hrange := char_range c
  simp only [CodePoint.units]
  by_cases hplane : c.toNat < 0x10000
  · have hplain : ¬ IsSurrogate c.toNat := by
      unfold IsSurrogate
      omega
    rw [if_pos hplane]
    cases units with
    | nil => simp [fromUtf16Lossy, hplain]
    | cons v units => simp [fromUtf16Lossy, hplain]
  · have hhigh : IsSurrogate (0xD800 + (c.toNat - 0x10000) / 0x400) := by
      unfold IsSurrogate
      omega
    have hnat : 0x10000 + (0xD800 + (c.toNat - 0x10000) / 0x400 - 0xD800) * 0x400 +
        (0xDC00 + (c.toNat - 0x10000) % 0x400 - 0xDC00) = c.toNat := by
      omega
    rw [if_neg hplane, List.cons_append, List.cons_append, List.nil_append, fromUtf16Lossy,
      if_neg (not_not_intro hhigh), if_pos ⟨by omega, by omega, by omega⟩, hnat, Char.ofNat_toNat]

/-- **Text is the decoding of its own units.** -/
@[simp] theorem fromUtf16Lossy_encodeUtf16 (s : Text) : fromUtf16Lossy (encodeUtf16 s) = s := by
  induction s with
  | nil => rfl
  | cons c s ih => rw [encodeUtf16_cons, fromUtf16Lossy_units, ih]

theorem encodeUtf16_injective : Function.Injective encodeUtf16 := fun s t h => by
  have := congrArg fromUtf16Lossy h
  simpa using this

theorem units_lt {c : Char} {u : Nat} (h : u ∈ (CodePoint.char c).units) : u < 0x10000 := by
  have hrange := char_range c
  simp only [CodePoint.units] at h
  split_ifs at h with hplane
  · rw [List.mem_singleton] at h
    omega
  · rw [List.mem_cons, List.mem_singleton] at h
    omega

theorem encodeUtf16_lt {s : Text} {u : Nat} (h : u ∈ encodeUtf16 s) : u < 0x10000 := by
  induction s with
  | nil => cases h
  | cons c s ih =>
    rw [encodeUtf16_cons, List.mem_append] at h
    exact h.elim units_lt ih

/-- The unit of an ASCII character stands for that character only. -/
theorem units_eq_of_ascii {c : Char} {u : Nat} (hu : u < 0x80) (h : u ∈ (CodePoint.char c).units) :
    c.toNat = u ∧ (CodePoint.char c).units = [u] := by
  simp only [CodePoint.units] at h ⊢
  split_ifs at h ⊢ with hplane
  · rw [List.mem_singleton] at h
    exact ⟨h.symm, by rw [h]⟩
  · rw [List.mem_cons, List.mem_singleton] at h
    omega

theorem mem_encodeUtf16_ascii {s : Text} {c : Char} (hc : c.toNat < 0x80) : c.toNat ∈ encodeUtf16 s ↔ c ∈ s := by
  induction s with
  | nil => simp
  | cons d s ih =>
    rw [encodeUtf16_cons, List.mem_append, List.mem_cons, ih]
    have hhead : c.toNat ∈ (CodePoint.char d).units ↔ c = d := by
      constructor
      · exact fun h => (Char.toNat_inj.mp (units_eq_of_ascii hc h).1).symm
      · rintro rfl
        rw [units_ascii hc]
        exact List.mem_singleton_self _
    rw [hhead]

/-! ## UTF-8 -/

/-- A byte that goes on a sequence. -/
def isContinuation (b : UInt8) : Bool := 0x80 ≤ b && b < 0xC0

/-- The second bytes that a three- or four-byte sequence may have. -/
def isSecond (lead b : UInt8) : Bool :=
  if lead == 0xE0 then 0xA0 ≤ b && b < 0xC0
  else if lead == 0xED then 0x80 ≤ b && b < 0xA0
  else if lead == 0xF0 then 0x90 ≤ b && b < 0xC0
  else if lead == 0xF4 then 0x80 ≤ b && b < 0x90
  else isContinuation b

/-- `[u8]::utf8_chunks`: each character, and `none` for each invalid chunk. -/
def utf8Chunks : Bytes → List (Option Char)
  | [] => []
  | b :: rest =>
    if b < 0x80 then some (Char.ofNat b.toNat) :: utf8Chunks rest
    else if 0xC2 ≤ b ∧ b < 0xE0 then
      match rest with
      | [] => [none]
      | b₁ :: rest₁ =>
        if isContinuation b₁ then some (Char.ofNat ((b.toNat - 0xC0) * 0x40 + (b₁.toNat - 0x80))) :: utf8Chunks rest₁
        else none :: utf8Chunks (b₁ :: rest₁)
    else if 0xE0 ≤ b ∧ b < 0xF0 then
      match rest with
      | [] => [none]
      | b₁ :: rest₁ =>
        if !isSecond b b₁ then none :: utf8Chunks (b₁ :: rest₁)
        else match rest₁ with
          | [] => [none]
          | b₂ :: rest₂ =>
            if isContinuation b₂ then
              some (Char.ofNat (((b.toNat - 0xE0) * 0x40 + (b₁.toNat - 0x80)) * 0x40 + (b₂.toNat - 0x80))) ::
                utf8Chunks rest₂
            else none :: utf8Chunks (b₂ :: rest₂)
    else if 0xF0 ≤ b ∧ b < 0xF5 then
      match rest with
      | [] => [none]
      | b₁ :: rest₁ =>
        if !isSecond b b₁ then none :: utf8Chunks (b₁ :: rest₁)
        else match rest₁ with
          | [] => [none]
          | b₂ :: rest₂ =>
            if !isContinuation b₂ then none :: utf8Chunks (b₂ :: rest₂)
            else match rest₂ with
              | [] => [none]
              | b₃ :: rest₃ =>
                if isContinuation b₃ then
                  some (Char.ofNat ((((b.toNat - 0xF0) * 0x40 + (b₁.toNat - 0x80)) * 0x40 + (b₂.toNat - 0x80)) * 0x40 +
                    (b₃.toNat - 0x80))) :: utf8Chunks rest₃
                else none :: utf8Chunks (b₃ :: rest₃)
    else none :: utf8Chunks rest

/-- `str::from_utf8(data).is_ok()`. -/
def isUtf8 (b : Bytes) : Bool := (utf8Chunks b).all Option.isSome

/-- `String::from_utf8_lossy`. -/
def fromUtf8Lossy (b : Bytes) : Text := (utf8Chunks b).map (·.getD '\uFFFD')

theorem utf8Chunks_cons_ascii {b : UInt8} (h : b < 0x80) (rest : Bytes) :
    utf8Chunks (b :: rest) = some (Char.ofNat b.toNat) :: utf8Chunks rest := by
  conv_lhs => unfold utf8Chunks
  rw [if_pos h]

theorem toNat_ofNat_ascii : ∀ n < 0x80, (Char.ofNat n).toNat = n := by decide

/-- An ASCII byte is a unit of its own. -/
theorem encodeUtf16_fromUtf8Lossy_cons {b : UInt8} (h : b < 0x80) (rest : Bytes) :
    encodeUtf16 (fromUtf8Lossy (b :: rest)) = b.toNat :: encodeUtf16 (fromUtf8Lossy rest) := by
  have hb : b.toNat < 0x80 := h
  have hc : (Char.ofNat b.toNat).toNat = b.toNat := toNat_ofNat_ascii _ hb
  unfold fromUtf8Lossy
  rw [utf8Chunks_cons_ascii h, List.map_cons, Option.getD_some, encodeUtf16_cons, units_ascii (by omega), hc]
  rfl

theorem isUtf8_of_ascii {b : Bytes} (h : ∀ x ∈ b, x < 0x80) : isUtf8 b = true := by
  induction b with
  | nil => rfl
  | cons x b ih =>
    unfold isUtf8
    rw [utf8Chunks_cons_ascii (h x List.mem_cons_self), List.all_cons, Option.isSome_some, Bool.true_and]
    exact ih fun y hy => h y (List.mem_cons_of_mem _ hy)

/-! ## Lowercase -/

/-- The Unicode tables behind `str::to_lowercase`. -/
structure CaseTables where
  /-- The lowercase mapping of a character on its own. -/
  lower : Char → Text
  cased : Char → Bool
  caseIgnorable : Char → Bool
  lower_ascii : ∀ c : Char, c.toNat < 0x80 → lower c = [c.toLower]
  slash_cased : cased '/' = false
  slash_ignorable : caseIgnorable '/' = false

namespace CaseTables

/-- The tables of text that is ASCII. -/
def ascii : CaseTables where
  lower c := [c.toLower]
  cased c := c.isAlpha
  caseIgnorable c := c == '\'' || c == '.' || c == ':' || c == '^' || c.toNat == 0x60
  lower_ascii _ _ := rfl
  slash_cased := rfl
  slash_ignorable := rfl

end CaseTables

variable (tables : CaseTables)

/-- Whether text has a cased character first, but for case-ignorable ones. -/
def caseIgnorableThenCased (s : Text) : Bool :=
  match s.dropWhile tables.caseIgnorable with
  | c :: _ => tables.cased c
  | [] => false

/-- The lowercase of text after `before`, which is reversed: a `Σ` that ends a word has its own. -/
def lowercaseAfter (before : Text) : Text → Text
  | [] => []
  | c :: rest =>
    (if c = 'Σ' then
        [if caseIgnorableThenCased tables before && !caseIgnorableThenCased tables rest then 'ς' else 'σ']
      else tables.lower c) ++ lowercaseAfter (c :: before) rest

/-- `str::to_lowercase`. -/
def toLowercase (s : Text) : Text := lowercaseAfter tables [] s

variable {tables}

/-- A `/` bounds the word on either side of it. -/
theorem caseIgnorableThenCased_slash (s t : Text) :
    caseIgnorableThenCased tables (s ++ '/' :: t) = caseIgnorableThenCased tables s := by
  unfold caseIgnorableThenCased
  induction s with
  | nil =>
    rw [List.nil_append, List.dropWhile_cons_of_neg (by rw [tables.slash_ignorable]; decide)]
    exact tables.slash_cased
  | cons c s ih =>
    rw [List.cons_append]
    by_cases hc : tables.caseIgnorable c
    · rw [List.dropWhile_cons_of_pos hc, List.dropWhile_cons_of_pos hc]
      exact ih
    · rw [List.dropWhile_cons_of_neg hc, List.dropWhile_cons_of_neg hc]

theorem lowercaseAfter_before_slash (before t s : Text) :
    lowercaseAfter tables (before ++ '/' :: t) s = lowercaseAfter tables before s := by
  induction s generalizing before with
  | nil => rfl
  | cons c s ih =>
    rw [lowercaseAfter, lowercaseAfter, caseIgnorableThenCased_slash, ← List.cons_append, ih]

theorem lowercaseAfter_slash (before s t : Text) :
    lowercaseAfter tables before (s ++ '/' :: t) =
      lowercaseAfter tables before s ++ '/' :: toLowercase tables t := by
  induction s generalizing before with
  | nil =>
    have hslash : tables.lower '/' = ['/'] := tables.lower_ascii '/' (by decide)
    have hafter := @lowercaseAfter_before_slash tables [] before t
    rw [List.nil_append] at hafter
    show (if '/' = 'Σ' then _ else tables.lower '/') ++ lowercaseAfter tables ('/' :: before) t = _
    rw [if_neg (by decide), hslash, hafter]
    rfl
  | cons c s ih =>
    rw [List.cons_append, lowercaseAfter, lowercaseAfter, caseIgnorableThenCased_slash, ih, List.append_assoc]

/-- **A `/` divides the lowercase of text.** -/
theorem toLowercase_slash (s t : Text) :
    toLowercase tables (s ++ '/' :: t) = toLowercase tables s ++ '/' :: toLowercase tables t :=
  lowercaseAfter_slash [] s t

theorem toLowercase_ascii {s : Text} (h : ∀ c ∈ s, c.toNat < 0x80) : toLowercase tables s = s.map Char.toLower := by
  have hafter : ∀ before, lowercaseAfter tables before s = s.map Char.toLower := by
    induction s with
    | nil => exact fun _ => rfl
    | cons c s ih =>
      intro before
      have hc : c.toNat < 0x80 := h c List.mem_cons_self
      have hsigma : c ≠ 'Σ' := by
        rintro rfl
        exact absurd hc (by decide)
      rw [lowercaseAfter, if_neg hsigma, tables.lower_ascii c hc, ih fun d hd => h d (List.mem_cons_of_mem _ hd)]
      rfl
  exact hafter []

end Cao
