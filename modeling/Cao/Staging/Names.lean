import Cao.Staging.Confine
import Mathlib.Tactic.IntervalCases

/-!
# Windows names and staging nonces

The name checks of `run/artifacts.rs` and the nonces of `run/staging.rs`.

* `ambiguousWindowsName`, `reservedDeviceName`: the names Win32 would alias;
* `OrdinaryName`, **`safePart_of_ordinary`**: an unambiguous component is a safe manifest component;
* `nonceText`, **`isLowercaseNonce_nonceText`**, **`nonceText_injective`**: 16 bytes in hexadecimal.
-/

namespace Cao

/-! ## Windows names -/

/-- `str::trim_end_matches`. -/
def trimEndMatches (p : Char → Bool) (s : Text) : Text := (s.reverse.dropWhile p).reverse

/-- `reserved_device_name`. -/
def reservedDeviceName (name : Text) : Bool :=
  let stem := name.takeWhile fun c => c ≠ '.'
  let stem := (trimEndMatches (fun c => c = ' ' || c = '.') stem).map Char.toUpper
  if stem ∈ ["CON".toList, "PRN".toList, "AUX".toList, "NUL".toList, "CONIN$".toList, "CONOUT$".toList] then
    true
  else
    let initial := stem.take 3
    (initial = "COM".toList || initial = "LPT".toList) && (stem.drop 4).isEmpty &&
      (stem[3]?).any fun digit => ('1' ≤ digit && digit ≤ '9') || digit ∈ ['¹', '²', '³']

/-- `ambiguous_windows_name`. -/
def ambiguousWindowsName (name : Text) : Bool :=
  name = [] || name.getLast? = some '.' || name.getLast? = some ' ' ||
    (name.any fun c => c ∈ "<>:\"|?*".toList) || (name.any fun c => c.val < 32) ||
    reservedDeviceName name

/-- A component that Win32 takes for the entry it names. -/
structure OrdinaryName (name : OsStr) : Prop where
  unambiguous : ambiguousWindowsName name.lossy = false
  noSlash : CodePoint.char '/' ∉ name
  noBackslash : CodePoint.char '\\' ∉ name

/-- **An unambiguous Unicode component is a safe component of a manifest name.** -/
theorem safePart_of_ordinary {text : Text} (h : OrdinaryName (OsStr.ofText text)) :
    safePart text = true ∧ '/' ∉ text := by
  obtain ⟨hu, hs, hb⟩ := h
  have hmem : ∀ {c : Char}, CodePoint.char c ∉ OsStr.ofText text → c ∉ text := fun hc hm =>
    hc (List.mem_map.mpr ⟨_, hm, rfl⟩)
  rw [OsStr.lossy_ofText] at hu
  simp only [ambiguousWindowsName, Bool.or_eq_false_iff, decide_eq_false_iff_not,
    List.any_eq_false, decide_eq_true_eq] at hu
  obtain ⟨⟨⟨⟨⟨hne, hdot⟩, hspace⟩, hreserved⟩, hcontrol⟩, -⟩ := hu
  refine ⟨?_, hmem hs⟩
  simp only [safePart, Bool.and_eq_true, decide_eq_true_eq, Bool.not_eq_true', Bool.or_eq_false_iff,
    beq_eq_false_iff_ne, List.any_eq_false]
  have hparts : ∀ c ∈ reservedCharacters, c = '\\' ∨ c ∈ "<>:\"|?*".toList := forall_of_all (by decide)
  refine ⟨⟨⟨⟨⟨hne, ?_⟩, ?_⟩, hdot, hspace⟩, fun c hc hm => ?_⟩, hcontrol⟩
  · intro he
    exact hdot (by rw [he]; decide)
  · intro he
    exact hdot (by rw [he]; decide)
  · rcases hparts c hm with rfl | hc'
    · exact hmem hb hc
    · exact hreserved c hc hc'

/-! ## Nonces -/

/-- 16 random bytes. -/
abbrev Nonce := { bytes : Bytes // bytes.length = 16 }

/-- A lowercase hexadecimal digit. -/
def hexDigit (n : Nat) : Char := Nat.digitChar n

/-- `nonce`: 32 lowercase hexadecimal characters. -/
def nonceText (nonce : Nonce) : Text :=
  nonce.1.flatMap fun b => [hexDigit (b.toNat / 16), hexDigit (b.toNat % 16)]

theorem hexDigit_byte : ∀ n < 16, ∃ b : UInt8, String.utf8EncodeChar (hexDigit n) = [b] ∧
    ((48 ≤ b && b ≤ 57) || (97 ≤ b && b ≤ 102)) = true := by
  intro n hn
  interval_cases n <;> exact ⟨_, rfl, rfl⟩

theorem hexDigit_injective : ∀ m < 16, ∀ n < 16, hexDigit m = hexDigit n → m = n := by decide

/-- **A nonce's text is 32 lowercase hexadecimal characters.** -/
theorem isLowercaseNonce_nonceText (nonce : Nonce) : isLowercaseNonce (utf8 (nonceText nonce)) = true := by
  obtain ⟨bytes, hlen⟩ := nonce
  have hbytes : ∀ bs : Bytes, (utf8 (bs.flatMap fun b =>
      [hexDigit (b.toNat / 16), hexDigit (b.toNat % 16)])).length = 2 * bs.length ∧
      ∀ b ∈ utf8 (bs.flatMap fun b => [hexDigit (b.toNat / 16), hexDigit (b.toNat % 16)]),
        ((48 ≤ b && b ≤ 57) || (97 ≤ b && b ≤ 102)) = true := by
    intro bs
    induction bs with
    | nil => exact ⟨rfl, nofun⟩
    | cons b bs ih =>
      have hb := b.toNat_lt
      obtain ⟨hi, hhi, hhi'⟩ := hexDigit_byte (b.toNat / 16) (by omega)
      obtain ⟨lo, hlo, hlo'⟩ := hexDigit_byte (b.toNat % 16) (by omega)
      simp only [List.flatMap_cons, List.cons_append, List.nil_append, utf8_cons, hhi, hlo,
        List.length_cons, List.mem_cons]
      refine ⟨by omega, ?_⟩
      rintro c (rfl | rfl | hc)
      · exact hhi'
      · exact hlo'
      · exact ih.2 c hc
  obtain ⟨h32, hall⟩ := hbytes bytes
  unfold isLowercaseNonce nonceText
  rw [Bool.and_eq_true, beq_iff_eq, List.all_eq_true]
  exact ⟨by rw [h32, hlen], hall⟩

/-- **Different bytes have different texts.** -/
theorem nonceText_injective : Function.Injective nonceText := by
  have hbytes : ∀ as bs : Bytes, (as.flatMap fun b =>
      [hexDigit (b.toNat / 16), hexDigit (b.toNat % 16)]) =
      (bs.flatMap fun b => [hexDigit (b.toNat / 16), hexDigit (b.toNat % 16)]) → as = bs := by
    intro as
    induction as with
    | nil =>
      rintro (_ | ⟨b, bs⟩) h
      · rfl
      · cases h
    | cons a as ih =>
      rintro (_ | ⟨b, bs⟩) h
      · cases h
      · simp only [List.flatMap_cons, List.cons_append, List.nil_append, List.cons.injEq] at h
        obtain ⟨hhi, hlo, h⟩ := h
        have ha := a.toNat_lt
        have hb := b.toNat_lt
        have h1 := hexDigit_injective _ (by omega) _ (by omega) hhi
        have h2 := hexDigit_injective _ (by omega) _ (by omega) hlo
        have : a = b := UInt8.toNat_inj.mp (by omega)
        rw [this, ih bs h]
  rintro ⟨a, ha⟩ ⟨b, hb⟩ h
  exact Subtype.ext (hbytes a b h)

end Cao
