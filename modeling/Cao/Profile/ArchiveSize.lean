import Cao.Ini.Ordered
import Cao.Ini.Write
import Cao.Lib.Binary64

/-!
# A Profile's maximum Archive size

The size that a Profile asks for (`archive_size.rs`): bytes, or a number with a unit, and the text that it was read from.

* `splitUnit`, `unitScale`, `scaledBytes`, `wholeBytes`: the number and the unit of a text, and the bytes that they stand for;
* `ArchiveSize`, `read`, `write`: a size of at least one byte, whose text reads back as it;
* **`archiveSize_exact`**: decimal digits with a unit are read as exactly their bytes, or rejected; what is written is read.
-/

namespace Cao.Profile

open Ini

/-! ## Numbers and units -/

/-- `char::is_ascii_alphabetic`. -/
def isAsciiAlphabetic (c : Char) : Bool := c.isAlpha

/-- `split_unit`. -/
def splitUnit (text : Text) : Option (Text × Text) :=
  let number := text.rdropWhile isAsciiAlphabetic
  if number.length < text.length then some (number.rdropWhile isWhitespace, text.drop number.length) else none

/-- The spellings of the unit of each power of 1024, in uppercase. -/
def spellings : List (Nat × List Text) :=
  [(0, ["B".toList]), (1, ["KB".toList, "KIB".toList]), (2, ["MB".toList, "MIB".toList]),
    (3, ["GB".toList, "GIB".toList]), (4, ["TB".toList, "TIB".toList])]

/-- `unit_scale`. -/
def unitScale (unit : Text) : Option Nat :=
  (spellings.find? fun spelled => spelled.2.contains (unit.map Char.toUpper)).map fun spelled => 1024 ^ spelled.1

/-- `u64::checked_mul`. -/
def checkedMul (a b : Nat) : Option Nat := if a * b < u64Size then some (a * b) else none

/-- `PAST_THE_LARGEST`. -/
def pastTheLargest : ℚ := 18446744073709551616

/-- `in_range`. -/
def inRange : Binary64 → Option Nat
  | .finite size => if 0 ≤ size ∧ size < pastTheLargest then some size.floor.toNat else none
  | _ => none

section Parsing

-- `str::parse::<f64>`.
variable (parseF64 : Text → Option Binary64)

/-- `scaled_bytes`. -/
def scaledBytes (number : Text) (scale : Nat) : Option Nat :=
  match parseU64 number with
  | some units => checkedMul units scale
  | none => (parseF64 number).bind fun units => inRange (units.times scale)

/-- `whole_bytes`. -/
def wholeBytes (text : Text) : Option Nat :=
  match parseU64 text with
  | some bytes => some bytes
  | none => (parseF64 text).bind inRange

/-- The bytes that a text stands for, and the text where it has a unit. -/
def readSize (text : Text) : Option Nat × Option Text :=
  match splitUnit text with
  | none => (wholeBytes parseF64 text, none)
  | some (number, unit) => ((unitScale unit).bind (scaledBytes parseF64 number), some text)

/-- A size that a Profile gives: its bytes, and the text that they were read from, which they are read from again. -/
@[ext]
structure Given where
  bytes : Nat
  written : Option Text
  bytes_pos : 0 < bytes
  bytes_lt : bytes < u64Size
  readsBack : ∀ text, written = some text → trim text = text ∧ readSize parseF64 text = (some bytes, some text)

/-- `ArchiveSize`. -/
abbrev ArchiveSize := Option (Given parseF64)

end Parsing

/-- `ProfileError::UnsupportedValue`. -/
structure UnsupportedValue where
  file : String
  key : Text
  value : Option Text
  accepted : String

/-- `ACCEPTED`. -/
def accepted : String :=
  "a whole number of bytes from 1 to 18446744073709551615, or a size such as `8GB` in B, KB, MB, GB or TB, counted in " ++
    "1024s; leave the key out for the game's default"

/-- `ProfileError::unsupported_value`, of a value that is not missing. -/
def unsupportedValue (key : Text) (value : Value) (accepted : String) : UnsupportedValue :=
  ⟨"profile.ini", key, some (valueText value), accepted⟩

/-! ## Text -/

section Texts

variable {parseF64 : Text → Option Binary64} {s digits unit : Text} {c : Char}

/-- What is trimmed begins and ends with no whitespace. -/
theorem trim_trim (s : Text) : trim (trim s) = trim s := by
  have hstart : ∀ t : Text, (∀ c, t.head? = some c → isWhitespace c = false) → trim t = t.rdropWhile isWhitespace := by
    intro t ht
    unfold trim
    cases t with
    | nil => rfl
    | cons c t => rw [List.dropWhile_cons_of_neg (by rw [ht c rfl]; exact Bool.false_ne_true)]
  have hhead : ∀ c, (trim s).head? = some c → isWhitespace c = false := by
    intro c hc
    unfold trim at hc
    have hinit : (s.dropWhile isWhitespace).head? = some c := by
      obtain ⟨dropped, hdropped⟩ := List.rdropWhile_prefix isWhitespace (s.dropWhile isWhitespace)
      cases hkept : (s.dropWhile isWhitespace).rdropWhile isWhitespace with
      | nil => rw [hkept] at hc; cases hc
      | cons d kept =>
        rw [hkept] at hc hdropped
        cases hc
        rw [← hdropped]
        rfl
    have hne : s.dropWhile isWhitespace ≠ [] := fun hnil => by rw [hnil] at hinit; cases hinit
    have hnot := List.head_dropWhile_not isWhitespace hne
    rwa [List.head_eq_iff_head?_eq_some hne |>.mpr hinit] at hnot
  rw [hstart _ hhead]
  unfold trim
  exact List.rdropWhile_idempotent ..

/-- What holds no whitespace is left as it is. -/
theorem trim_eq_self (h : ∀ c ∈ s, isWhitespace c = false) : trim s = s := by
  have hdrop : s.dropWhile isWhitespace = s := by
    cases s with
    | nil => rfl
    | cons c s => exact List.dropWhile_cons_of_neg (by rw [h c List.mem_cons_self]; exact Bool.false_ne_true)
  unfold trim
  rw [hdrop, List.rdropWhile_eq_self_iff]
  intro hne
  rw [h _ (List.getLast_mem hne)]
  exact Bool.false_ne_true

theorem isWhitespace_of_alphanumeric (h : c.isDigit = true ∨ isAsciiAlphabetic c = true) : isWhitespace c = false := by
  have hrange : (48 ≤ c.toNat ∧ c.toNat ≤ 57) ∨ (65 ≤ c.toNat ∧ c.toNat ≤ 90) ∨ (97 ≤ c.toNat ∧ c.toNat ≤ 122) := by
    rcases h with h | h
    · exact .inl (Decimal.isDigit_iff.mp h)
    · unfold isAsciiAlphabetic Char.isAlpha Char.isUpper Char.isLower at h
      simp only [Bool.or_eq_true, Bool.and_eq_true, decide_eq_true_eq, ge_iff_le, UInt32.le_iff_toNat_le] at h
      exact .inr h
  unfold isWhitespace
  simp only [Bool.or_eq_false_iff, Bool.and_eq_false_iff, decide_eq_false_iff_not, beq_eq_false_iff_ne]
  omega

theorem not_alphabetic_of_digit (h : c.isDigit = true) : isAsciiAlphabetic c = false := by
  have hrange := Decimal.isDigit_iff.mp h
  rw [Bool.eq_false_iff]
  intro halpha
  unfold isAsciiAlphabetic Char.isAlpha Char.isUpper Char.isLower at halpha
  simp only [Bool.or_eq_true, Bool.and_eq_true, decide_eq_true_eq, ge_iff_le, UInt32.le_iff_toNat_le] at halpha
  have hletter : (65 ≤ c.toNat ∧ c.toNat ≤ 90) ∨ (97 ≤ c.toNat ∧ c.toNat ≤ 122) := halpha
  omega

/-- A letter is one in any case. -/
theorem alphabetic_of_toUpper (h : isAsciiAlphabetic c.toUpper = true) : isAsciiAlphabetic c = true := by
  unfold isAsciiAlphabetic at h ⊢
  by_cases hlower : c.isLower = true
  · unfold Char.isAlpha
    rw [hlower, Bool.or_true]
  · have hsame : c.toUpper = c := by
      unfold Char.toUpper
      unfold Char.isLower at hlower
      rw [dif_neg (by simpa using hlower)]
    rwa [hsame] at h

theorem rdropWhile_append_of_all {p : Char → Bool} (s : Text) {t : Text} (h : ∀ c ∈ t, p c = true) :
    (s ++ t).rdropWhile p = s.rdropWhile p := by
  unfold List.rdropWhile
  rw [List.reverse_append, List.dropWhile_append_of_pos fun c hc => h c (List.mem_reverse.mp hc)]

theorem rdropWhile_eq_self {p : Char → Bool} (h : ∀ c ∈ s, p c = false) : s.rdropWhile p = s := by
  rw [List.rdropWhile_eq_self_iff]
  intro hne
  rw [h _ (List.getLast_mem hne)]
  exact Bool.false_ne_true

/-! ## Digits and a unit -/

/-- A unit's spelling, in any case; none is bytes. -/
def Spelled (power : Nat) (unit : Text) : Prop :=
  (unit = [] ∧ power = 0) ∨ ∃ texts, (power, texts) ∈ spellings ∧ unit.map Char.toUpper ∈ texts

/-- A text of decimal digits. -/
def IsDigits (digits : Text) : Prop := digits ≠ [] ∧ ∀ c ∈ digits, c.isDigit = true

theorem nil_notMem_spellings : ∀ spelled ∈ spellings, [] ∉ spelled.2 := by decide

theorem unitScale_of_spelled {power : Nat} {texts : List Text} (hspelled : (power, texts) ∈ spellings)
    (hunit : unit.map Char.toUpper ∈ texts) : unitScale unit = some (1024 ^ power) := by
  unfold unitScale
  simp only [spellings, List.mem_cons, List.not_mem_nil, or_false, Prod.mk.injEq] at hspelled
  rcases hspelled with ⟨rfl, rfl⟩ | ⟨rfl, rfl⟩ | ⟨rfl, rfl⟩ | ⟨rfl, rfl⟩ | ⟨rfl, rfl⟩ <;>
    simp only [List.mem_cons, List.not_mem_nil, or_false] at hunit
  · rw [hunit]
    rfl
  all_goals
    rcases hunit with hunit | hunit <;> rw [hunit] <;> rfl

theorem alphabetic_of_spelled {power : Nat} (h : Spelled power unit) : ∀ c ∈ unit, isAsciiAlphabetic c = true := by
  rcases h with ⟨rfl, -⟩ | ⟨texts, hspelled, hunit⟩
  · exact fun c hc => absurd hc List.not_mem_nil
  · intro c hc
    have hletters : (spellings.all fun spelled => spelled.2.all fun text => text.all isAsciiAlphabetic) = true := by decide
    have htext := List.all_eq_true.mp (List.all_eq_true.mp hletters _ hspelled) _ hunit
    exact alphabetic_of_toUpper (List.all_eq_true.mp htext _ (List.mem_map_of_mem hc))

/-- **Digits and their unit are told apart.** -/
theorem splitUnit_digits (hdigits : IsDigits digits) (hunit : ∀ c ∈ unit, isAsciiAlphabetic c = true) :
    splitUnit (digits ++ unit) = if unit = [] then none else some (digits, unit) := by
  have hnumber : (digits ++ unit).rdropWhile isAsciiAlphabetic = digits := by
    rw [rdropWhile_append_of_all digits hunit]
    exact rdropWhile_eq_self fun c hc => not_alphabetic_of_digit (hdigits.2 c hc)
  have htrimmed : digits.rdropWhile isWhitespace = digits :=
    rdropWhile_eq_self fun c hc => isWhitespace_of_alphanumeric (.inl (hdigits.2 c hc))
  unfold splitUnit
  rw [hnumber]
  dsimp only
  rw [htrimmed, List.drop_left, List.length_append]
  cases unit with
  | nil => simp
  | cons c unit =>
    rw [if_pos (by simp), if_neg (List.cons_ne_nil _ _)]

/-- Digits are read as a whole number, where it fits. -/
theorem parseU64_digits (hdigits : IsDigits digits) : parseU64 digits =
    if Decimal.value digits < u64Size then some (Decimal.value digits) else none := by
  have hplain : stripStart ['+'] digits = none := by
    unfold stripStart
    cases digits with
    | nil => exact absurd rfl hdigits.1
    | cons c digits =>
      have hc : c ≠ '+' := by
        rintro rfl
        exact absurd (hdigits.2 '+' List.mem_cons_self) (by decide)
      rw [if_neg]
      simpa [List.isPrefixOf] using Ne.symm hc
  have hparse : parseDigits digits = some (Decimal.value digits) := by
    unfold parseDigits
    rw [if_pos ⟨hdigits.1, List.all_eq_true.mpr hdigits.2⟩]
  unfold parseU64
  rw [hplain, Option.getD_none, hparse, Option.filter_some]
  simp

/-- Digits that do not fit are parsed as a double that they round to. -/
def CorrectlyRounded (parseF64 : Text → Option Binary64) (digits : Text) : Prop :=
  ∃ double, parseF64 digits = some double ∧ Binary64.Rounds (Decimal.value digits) double

/-- **What is rounded from past the range is past it**, in bytes and in any unit. -/
theorem inRange_times {double : Binary64} {number scale : Nat} (hpast : u64Size ≤ number)
    (h : Binary64.Rounds number double) (hscale : 0 < scale) : inRange double = none ∧ inRange (double.times scale) = none := by
  cases double with
  | nan => exact ⟨rfl, rfl⟩
  | infinite negative => exact ⟨rfl, rfl⟩
  | finite value =>
    have hpastTheLargest : (2 : ℚ) ^ 64 = pastTheLargest := by
      unfold pastTheLargest
      norm_num
    have hvalue : pastTheLargest ≤ value := by
      rw [← hpastTheLargest]
      refine h.le_finite (Binary64.representable_two_pow (by omega)) ?_
      exact_mod_cast hpast
    have hscaled : value ≤ value * scale := by
      have hpos : 0 ≤ value := le_trans (by unfold pastTheLargest; norm_num) hvalue
      have hone : (1 : ℚ) ≤ scale := by exact_mod_cast hscale
      nlinarith
    refine ⟨if_neg fun hin => absurd hin.2 (not_lt.mpr hvalue), ?_⟩
    unfold Binary64.times
    dsimp only
    split_ifs
    · exact if_neg fun hin => absurd hin.2 (not_lt.mpr (le_trans hvalue hscaled))
    · rfl

/-- **Digits and a unit stand for exactly their bytes, where these fit.** -/
theorem readSize_digits {power : Nat} (hdigits : IsDigits digits) (hspelled : Spelled power unit)
    (hparse : u64Size ≤ Decimal.value digits → CorrectlyRounded parseF64 digits) :
    (readSize parseF64 (digits ++ unit)).1 = if Decimal.value digits * 1024 ^ power < u64Size
      then some (Decimal.value digits * 1024 ^ power) else none := by
  have hscale : 0 < 1024 ^ power := Nat.pow_pos (by decide)
  have hbytes : (readSize parseF64 (digits ++ unit)).1 =
      if unit = [] then wholeBytes parseF64 digits else scaledBytes parseF64 digits (1024 ^ power) := by
    unfold readSize
    rw [splitUnit_digits hdigits (alphabetic_of_spelled hspelled)]
    rcases hspelled with ⟨rfl, rfl⟩ | ⟨texts, hspelled, hunit⟩
    · rw [if_pos rfl, if_pos rfl, List.append_nil]
    · have hne : unit ≠ [] := by
        rintro rfl
        exact nil_notMem_spellings _ hspelled hunit
      rw [if_neg hne, if_neg hne]
      show (unitScale unit).bind (scaledBytes parseF64 digits) = _
      rw [unitScale_of_spelled hspelled hunit]
      rfl
  have hpower : unit = [] → power = 0 := by
    rintro rfl
    rcases hspelled with ⟨-, rfl⟩ | ⟨texts, hspelled, hunit⟩
    · rfl
    · exact absurd hunit (nil_notMem_spellings _ hspelled)
  rw [hbytes]
  by_cases hfits : Decimal.value digits < u64Size
  · have hu64 : parseU64 digits = some (Decimal.value digits) := (parseU64_digits hdigits).trans (if_pos hfits)
    unfold wholeBytes scaledBytes
    rw [hu64]
    split_ifs with hnil hscaled
    · rw [hpower hnil, Nat.pow_zero, Nat.mul_one]
    · rw [hpower hnil, Nat.pow_zero, Nat.mul_one] at hscaled
      exact absurd hfits hscaled
    · exact if_pos ‹_›
    · exact if_neg ‹_›
  · have hu64 : parseU64 digits = none := (parseU64_digits hdigits).trans (if_neg hfits)
    obtain ⟨double, hdouble, hrounds⟩ := hparse (not_lt.mp hfits)
    obtain ⟨hwhole, htimes⟩ := inRange_times (not_lt.mp hfits) hrounds hscale
    have hpast : ¬ Decimal.value digits * 1024 ^ power < u64Size := fun hlt =>
      hfits (Nat.lt_of_le_of_lt (Nat.le_mul_of_pos_right _ hscale) hlt)
    unfold wholeBytes scaledBytes
    rw [hu64, hdouble, if_neg hpast]
    split_ifs
    · exact hwhole
    · exact htimes

end Texts

/-! ## Reading and writing -/

section Sizes

variable {tables : CaseTables} {parseF64 : Text → Option Binary64}

theorem checkedMul_lt {a b bytes : Nat} (h : checkedMul a b = some bytes) : bytes < u64Size := by
  unfold checkedMul at h
  split_ifs at h with hlt
  cases h
  exact hlt

theorem inRange_lt {double : Binary64} {bytes : Nat} (h : inRange double = some bytes) : bytes < u64Size := by
  cases double with
  | nan => cases h
  | infinite negative => cases h
  | finite size =>
    unfold inRange at h
    dsimp only at h
    split_ifs at h with hin
    cases h
    have hfloor : size.floor < (u64Size : ℤ) := by
      rw [Rat.floor_lt_iff]
      exact_mod_cast hin.2
    unfold u64Size at hfloor ⊢
    omega

theorem parseU64_lt {text : Text} {bytes : Nat} (h : parseU64 text = some bytes) : bytes < u64Size := by
  unfold parseU64 at h
  simpa using (Option.filter_eq_some_iff.mp h).2

/-- Whatever a text stands for fits. -/
theorem readSize_lt {text : Text} {bytes : Nat} (h : (readSize parseF64 text).1 = some bytes) : bytes < u64Size := by
  unfold readSize at h
  split at h
  · unfold wholeBytes at h
    dsimp only at h
    split at h
    · next hparse =>
      cases h
      exact parseU64_lt hparse
    · obtain ⟨double, -, hin⟩ := Option.bind_eq_some_iff.mp h
      exact inRange_lt hin
  · obtain ⟨scale, -, hscaled⟩ := Option.bind_eq_some_iff.mp h
    unfold scaledBytes at hscaled
    split at hscaled
    · exact checkedMul_lt hscaled
    · obtain ⟨double, -, hin⟩ := Option.bind_eq_some_iff.mp hscaled
      exact inRange_lt hin

theorem readSize_written {text written : Text} (h : (readSize parseF64 text).2 = some written) : written = text := by
  unfold readSize at h
  split at h
  · cases h
  · exact (Option.some.inj h).symm

end Sizes

namespace ArchiveSize

variable {tables : CaseTables} {parseF64 : Text → Option Binary64}

/-- `ArchiveSize::NOT_GIVEN`. -/
def notGiven : ArchiveSize parseF64 := none

/-- `ArchiveSize::from_bytes`. -/
def fromBytes (bytes : Nat) (bytes_pos : 0 < bytes) (bytes_lt : bytes < u64Size) : ArchiveSize parseF64 :=
  some ⟨bytes, none, bytes_pos, bytes_lt, fun _ h => by cases h⟩

/-- `requested`. -/
def requested (size : ArchiveSize parseF64) : Option Nat := Option.map Given.bytes size

variable (parseF64) in
/-- `ArchiveSize::read`, of the value under a key. -/
def readValue (key : Text) (value : Value) : Except UnsupportedValue (ArchiveSize parseF64) :=
  match value with
  | .invalid => .ok notGiven
  | value =>
    match hbytes : (readSize parseF64 (trim value.toQstring)).1.filter (0 < ·) with
    | none => .error (unsupportedValue key value accepted)
    | some bytes => .ok (some
      { bytes
        written := (readSize parseF64 (trim value.toQstring)).2
        bytes_pos := by simpa using (Option.filter_eq_some_iff.mp hbytes).2
        bytes_lt := readSize_lt (Option.filter_eq_some_iff.mp hbytes).1
        readsBack := fun text htext => by
          have heq := readSize_written htext
          subst heq
          exact ⟨trim_trim _, Prod.ext (Option.filter_eq_some_iff.mp hbytes).1 htext⟩ })

variable (parseF64) in
/-- `ArchiveSize::read`. -/
def read (ini : IniFile tables) (key : Text) : Except UnsupportedValue (ArchiveSize parseF64) :=
  readValue parseF64 key (ini.value key)

/-- `ArchiveSize::write`. -/
def write (size : ArchiveSize parseF64) (ini : IniFile tables) (key : Text) : IniFile tables :=
  match size with
  | none => ini.remove key
  | some given => ini.set key (.string (given.written.getD (natText given.bytes)))

/-- What `write` puts under its key: nothing where no size is given. -/
def edit (size : ArchiveSize parseF64) : Option Value :=
  Option.map (fun given => .string (given.written.getD (natText given.bytes))) size

/-- What is read of a text, where its bytes are at least one. -/
theorem readValue_ok {key text : Text} {value : Value} {size : ArchiveSize parseF64} (htext : value.asStr = some text)
    (h : readValue parseF64 key value = .ok size) : ∃ given, size = some given ∧ 0 < given.bytes ∧
      readSize parseF64 (trim text) = (some given.bytes, given.written) := by
  have hqstring : value.toQstring = text := by
    unfold Value.toQstring
    rw [htext]
    rfl
  subst hqstring
  unfold readValue at h
  split at h
  · cases htext
  · split at h
    · cases h
    · next bytes hbytes =>
      cases h
      obtain ⟨hsome, hpos⟩ := Option.filter_eq_some_iff.mp hbytes
      exact ⟨_, rfl, by simpa using hpos, Prod.ext hsome rfl⟩

theorem exists_readValue {key text : Text} {value : Value} {bytes : Nat} (htext : value.asStr = some text)
    (hbytes : (readSize parseF64 (trim text)).1 = some bytes) (hpos : 0 < bytes) :
    ∃ size, readValue parseF64 key value = .ok size := by
  have hqstring : value.toQstring = text := by
    unfold Value.toQstring
    rw [htext]
    rfl
  subst hqstring
  unfold readValue
  split
  · exact ⟨notGiven, rfl⟩
  · split
    · next hnone =>
      rw [hbytes, Option.filter_some, if_pos (decide_eq_true hpos)] at hnone
      cases hnone
    · exact ⟨_, rfl⟩

/-- What an integer is written as is read as that integer. -/
theorem readSize_natText (bytes : Nat) (hlt : bytes < u64Size) : trim (natText bytes) = natText bytes ∧
    readSize parseF64 (natText bytes) = (some bytes, none) := by
  have hdigits : IsDigits (natText bytes) :=
    ⟨Nat.toDigits_ne_nil, fun c hc => Nat.isDigit_of_mem_toDigits (by decide) (by decide) hc⟩
  have hvalue : Decimal.value (natText bytes) = bytes := Nat.ofDigitChars_toDigits (by decide) (by decide)
  have hsplit : splitUnit (natText bytes) = none := by
    have := splitUnit_digits hdigits (List.forall_mem_nil fun c => isAsciiAlphabetic c = true)
    rwa [List.append_nil] at this
  refine ⟨trim_eq_self fun c hc => isWhitespace_of_alphanumeric (.inl (hdigits.2 c hc)), ?_⟩
  unfold readSize wholeBytes
  rw [hsplit, parseU64_digits hdigits, hvalue, if_pos hlt]

/-- **A size is read of any value that no getter tells from its own.** -/
theorem readValue_of_same (size : ArchiveSize parseF64) {key : Text} {value : Value}
    (h : Value.SameReadings (size.edit.getD .invalid) value) : readValue parseF64 key value = .ok size := by
  cases size with
  | none =>
    obtain rfl : value = .invalid := h.invalid.mp rfl
    rfl
  | some given =>
    have htext : value.asStr = some (given.written.getD (natText given.bytes)) := h.asStr.symm
    have hread : trim (given.written.getD (natText given.bytes)) = given.written.getD (natText given.bytes) ∧
        readSize parseF64 (given.written.getD (natText given.bytes)) = (some given.bytes, given.written) := by
      cases hwritten : given.written with
      | none => exact readSize_natText given.bytes given.bytes_lt
      | some text => exact given.readsBack text hwritten
    obtain ⟨read, hok⟩ := @exists_readValue parseF64 key _ _ given.bytes htext (by rw [hread.1, hread.2]) given.bytes_pos
    obtain ⟨again, rfl, -, hagain⟩ := readValue_ok htext hok
    rw [hread.1, hread.2] at hagain
    rw [hok]
    exact congrArg (fun given => Except.ok (some given))
      (Given.ext (Option.some.inj (congrArg Prod.fst hagain)).symm (congrArg Prod.snd hagain).symm)

/-- What is under its key is its own. -/
theorem value_write (size : ArchiveSize parseF64) (ini : IniFile tables) (key : Text) :
    (size.write ini key).value key = size.edit.getD .invalid := by
  unfold IniFile.value
  cases size with
  | none =>
    show ((ini.remove key).get key).getD .invalid = _
    rw [ini.get_remove, if_pos rfl]
    rfl
  | some given =>
    show (IniFile.get (ini.insert key _) key).getD .invalid = _
    rw [ini.get_insert, if_pos rfl]
    rfl

/-- **What is written is read back.** -/
theorem read_write (size : ArchiveSize parseF64) (ini : IniFile tables) (key : Text) :
    read parseF64 (size.write ini key) key = .ok size := by
  refine readValue_of_same size ?_
  rw [size.value_write]
  exact .refl _

end ArchiveSize

/-- **A decimal number of bytes, or of a unit, is read exactly or rejected**: accepted where it is from 1 to the largest
64-bit number of bytes, as exactly these. What is written of a size is read back as it. -/
theorem archiveSize_exact (tables : CaseTables) (parseF64 : Text → Option Binary64) :
    (∀ (ini : IniFile tables) (key digits unit : Text) (power : Nat), IsDigits digits → Spelled power unit →
      (u64Size ≤ Decimal.value digits → CorrectlyRounded parseF64 digits) →
      (ini.value key).asStr = some (digits ++ unit) →
      ((∃ size, ArchiveSize.read parseF64 ini key = .ok size) ↔
        Decimal.value digits * 1024 ^ power ≠ 0 ∧ Decimal.value digits * 1024 ^ power ≤ u64Size - 1) ∧
      ∀ size, ArchiveSize.read parseF64 ini key = .ok size →
        size.requested = some (Decimal.value digits * 1024 ^ power)) ∧
    ∀ (size : ArchiveSize parseF64) (ini : IniFile tables) (key : Text),
      ArchiveSize.read parseF64 (size.write ini key) key = .ok size := by
  refine ⟨fun ini key digits unit power hdigits hspelled hparse htext => ?_, ArchiveSize.read_write⟩
  have htrim : trim (digits ++ unit) = digits ++ unit := trim_eq_self fun c hc => by
    refine isWhitespace_of_alphanumeric ?_
    rcases List.mem_append.mp hc with hc | hc
    · exact .inl (hdigits.2 c hc)
    · exact .inr (alphabetic_of_spelled hspelled c hc)
  have hbytes := readSize_digits hdigits hspelled hparse
  have hsize : 0 < u64Size := by decide
  have hok : ∀ size, ArchiveSize.read parseF64 ini key = .ok size →
      size.requested = some (Decimal.value digits * 1024 ^ power) ∧ 0 < Decimal.value digits * 1024 ^ power ∧
        Decimal.value digits * 1024 ^ power < u64Size := by
    intro size hread
    obtain ⟨given, rfl, hpos, hagain⟩ := ArchiveSize.readValue_ok htext hread
    rw [htrim] at hagain
    rw [hagain] at hbytes
    split_ifs at hbytes with hlt
    have heq : given.bytes = _ := Option.some.inj hbytes
    exact ⟨congrArg some heq, heq ▸ hpos, hlt⟩
  refine ⟨⟨?_, ?_⟩, fun size hread => (hok size hread).1⟩
  · rintro ⟨size, hread⟩
    obtain ⟨-, hpos, hlt⟩ := hok size hread
    exact ⟨by omega, by omega⟩
  · rintro ⟨hne, hle⟩
    rw [if_pos (by omega)] at hbytes
    exact ArchiveSize.exists_readValue htext (by rw [htrim]; exact hbytes) (by omega)

/-- A size past the range, in a unit. -/
theorem archiveSize_past : ¬ ∃ size, ArchiveSize.read (fun _ => some (.finite (2 ^ 64)))
    ((IniFile.new .ascii).set "BSA/max".toList (.string "18446744073709551616kB".toList)) "BSA/max".toList = .ok size := by
  have hread := (archiveSize_exact .ascii fun _ => some (.finite (2 ^ 64))).1
    ((IniFile.new .ascii).set "BSA/max".toList (.string "18446744073709551616kB".toList)) "BSA/max".toList
    "18446744073709551616".toList "kB".toList 1 ⟨by decide, forall_of_all (by decide)⟩ (.inr ⟨["KB".toList, "KIB".toList], by decide, by decide⟩)
    (fun _ => ⟨_, rfl, by
      have hvalue : Decimal.value "18446744073709551616".toList = 2 ^ 64 := by decide
      rw [hvalue, Nat.cast_pow]
      exact Binary64.rounds_two_pow (by decide)⟩) (by decide +kernel)
  rw [hread.1]
  decide

end Cao.Profile
