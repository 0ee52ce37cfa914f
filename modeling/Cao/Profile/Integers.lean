import Cao.Ini.Lossless
import Cao.Profile.ArchiveSize

/-!
# Integers are read back

The integers that a Profile's keys hold (`cao_profiles::ini::value`), as the getters read them of their text.

* `trim_intText`, **`parseI64_intText`**: an integer's text is read as it;
* `toBool_ofBool`, `toI32_ofInt`, `toU32_ofNat`: so are the values of `From`;
* **`listEntries_intList`**: a list of integers is read as theirs, also from the one-element form of it.
-/

namespace Cao.Profile

open Ini

variable {tables : CaseTables}

/-! ## Text of an integer -/

theorem isDigits_natText (n : Nat) : IsDigits (natText n) :=
  ⟨Nat.toDigits_ne_nil, fun _ hc => Nat.isDigit_of_mem_toDigits (by decide) (by decide) hc⟩

theorem parseDigits_natText (n : Nat) : parseDigits (natText n) = some n := by
  have hvalue : Decimal.value (natText n) = n := Nat.ofDigitChars_toDigits (by decide) (by decide)
  unfold parseDigits
  rw [if_pos ⟨(isDigits_natText n).1, List.all_eq_true.mpr (isDigits_natText n).2⟩, hvalue]

/-- Digits have no sign. -/
theorem stripStart_natText {c : Char} (hc : c.isDigit = false) (n : Nat) : stripStart [c] (natText n) = none := by
  obtain ⟨d, rest, hcons⟩ := List.exists_cons_of_ne_nil (isDigits_natText n).1
  have hd : d.isDigit = true := (isDigits_natText n).2 d (hcons ▸ List.mem_cons_self)
  have hne : c ≠ d := by
    rintro rfl
    rw [hc] at hd
    cases hd
  unfold stripStart
  rw [hcons, if_neg]
  simpa [List.isPrefixOf] using hne

theorem mem_intText {i : Int} {c : Char} (h : c ∈ intText i) : c = '-' ∨ c.isDigit = true := by
  unfold intText at h
  split_ifs at h
  · exact (List.mem_cons.mp h).imp_right ((isDigits_natText _).2 c)
  · exact .inr ((isDigits_natText _).2 c h)

theorem trim_intText (i : Int) : trim (intText i) = intText i := by
  refine trim_eq_self fun c hc => ?_
  obtain rfl | hdigit := mem_intText hc
  · decide
  · exact isWhitespace_of_alphanumeric (.inl hdigit)

/-- **An integer's text is read as it.** -/
theorem parseI64_intText {i : Int} (hlow : -(u64Size / 2 : Nat) ≤ i) (hhigh : i < (u64Size / 2 : Nat)) :
    parseI64 (intText i) = some i := by
  unfold parseI64 intText
  by_cases hneg : i < 0
  · have hstrip : stripStart ['-'] ('-' :: natText i.natAbs) = some (natText i.natAbs) := by
      unfold stripStart
      simp [List.isPrefixOf]
    rw [if_pos hneg, hstrip]
    dsimp only
    rw [parseDigits_natText, Option.filter_some, if_pos (by simp; omega)]
    show some (-(i.natAbs : Int)) = some i
    exact congrArg some (by omega)
  · rw [if_neg hneg, stripStart_natText (by decide), stripStart_natText (by decide)]
    dsimp only
    rw [Option.getD_none, parseDigits_natText, Option.filter_some, if_pos (by simp; omega), Option.map_some]
    exact congrArg some (Int.natAbs_of_nonneg (by omega))

theorem toI64_ofInt {i : Int} (hlow : -(u64Size / 2 : Nat) ≤ i) (hhigh : i < (u64Size / 2 : Nat)) :
    (Value.ofInt i).toI64 = i := by
  show (parseI64 (trim (intText i))).getD 0 = i
  rw [trim_intText, parseI64_intText hlow hhigh, Option.getD_some]

/-! ## Values -/

theorem toBool_ofBool (b : Bool) : (Value.ofBool b).toBool tables = b := by
  have hlower : ∀ text : Text, (∀ c ∈ text, c.toNat < 0x80) → toLowercase tables text = text.map Char.toLower :=
    fun _ => toLowercase_ascii
  cases b with
  | false =>
    show (!(_ == [] || _ == ['0'] || _ == "false".toList)) = false
    rw [hlower _ (forall_of_all (by decide))]
    decide
  | true =>
    show (!(_ == [] || _ == ['0'] || _ == "false".toList)) = true
    rw [hlower _ (forall_of_all (by decide))]
    decide

theorem toI32_ofInt (i : Int32) : (Value.ofInt i.toInt).toI32 = i := by
  have hlow := i.le_toInt
  have hhigh := i.toInt_lt
  unfold Value.toI32
  rw [toI64_ofInt (by unfold u64Size; omega) (by unfold u64Size; omega), Int32.ofInt_toInt]

theorem toI64_ofNat {n : Nat} (h : n < u64Size / 2) : (Value.ofNat n).toI64 = n := by
  have htext : natText n = intText n := by
    unfold intText
    rw [if_neg (by omega)]
    rfl
  have := toI64_ofInt (i := n) (by omega) (by omega)
  unfold Value.ofInt at this
  unfold Value.ofNat
  rwa [htext]

theorem toU32_ofNat (n : UInt32) : (Value.ofNat n.toNat).toU32 = n := by
  have hlt := n.toNat_lt
  have hparse : parseU64 (natText n.toNat) = some n.toNat := by
    have hvalue : Decimal.value (natText n.toNat) = n.toNat := Nat.ofDigitChars_toDigits (by decide) (by decide)
    rw [parseU64_digits (isDigits_natText _), hvalue, if_pos (by unfold u64Size; omega)]
  have htrim := (@ArchiveSize.readSize_natText (fun _ => none) n.toNat (by unfold u64Size; omega)).1
  show UInt32.ofNat ((parseU64 (trim (natText n.toNat))).getD 0) = n
  rw [htrim, hparse, Option.getD_some, UInt32.ofNat_toNat]

/-! ## Lists of integers -/

theorem toNat_ofNat_latin1 : ∀ n < 0x100, (Char.ofNat n).toNat = n := by
  decide +kernel

theorem encodeUtf16_bytes {l : List Nat} (h : ∀ n ∈ l, n < 0x100) : encodeUtf16 (l.map Char.ofNat) = l := by
  induction l with
  | nil => rfl
  | cons n l ih =>
    have hn := h n List.mem_cons_self
    have hchar := toNat_ofNat_latin1 n hn
    have hunits : (CodePoint.char (Char.ofNat n)).units = [n] := by
      simp only [CodePoint.units]
      rw [hchar, if_pos (by omega)]
    rw [List.map_cons, encodeUtf16_cons, hunits, ih fun m hm => h m (List.mem_cons_of_mem _ hm)]
    rfl

theorem beBytes_lt (n : Nat) : ∀ b ∈ Value.beBytes n, b < 0x100 := by
  intro b hb
  unfold Value.beBytes at hb
  simp only [List.mem_cons, List.not_mem_nil, or_false] at hb
  omega

theorem ofNat_toUInt32 (value : Int32) : Int32.ofNat value.toUInt32.toNat = value := by
  refine Int32.toBitVec_inj.mp ?_
  show BitVec.ofNat 32 value.toBitVec.toNat = value.toBitVec
  simp

theorem streamU32_beBytes {n : Nat} (h : n < 0x100000000) (rest : List Nat) :
    Value.streamU32 (Value.beBytes n ++ rest) = some (n, rest) := by
  show some ((((n / 0x1000000 % 0x100) * 0x100 + n / 0x10000 % 0x100) * 0x100 + n / 0x100 % 0x100) * 0x100 + n % 0x100, rest) = _
  congr 2
  omega

theorem listEntries_of_payload {v : Value} {payload : Text} (h : v.variantPayload = some payload) :
    v.listEntries = Value.decodeVariantList payload := by
  cases v with
  | encoded raw =>
    unfold Value.listEntries
    dsimp only
    rw [h]
  | _ => cases h

/-- Bytes that are decoded are the stream of a one-element list. -/
theorem decodeVariantList_bytes {l : List Nat} (h : ∀ n ∈ l, n < 0x100) :
    Value.decodeVariantList (l.map Char.ofNat) = (Value.streamU32 l).bind fun type =>
      if type.1 ≠ Value.typeVariantList then none
      else (Value.streamU32 type.2).bind fun count => Value.streamElements count.1 count.2 := by
  have hclip : l.map (fun unit => if unit < 0x100 then unit else '?'.toNat) = l :=
    (List.map_congr_left fun n hn => if_pos (h n hn)).trans (List.map_id l)
  unfold Value.decodeVariantList
  rw [encodeUtf16_bytes h, hclip]

/-- **A list of integers is read as theirs.** -/
theorem listEntries_intList (values : List Int32) :
    (Value.intList values).listEntries = some (values.map fun value => .string (intText value.toInt)) := by
  match values with
  | [] => rfl
  | first :: second :: values => rfl
  | [value] =>
    have hvalue : value.toUInt32.toNat < 0x100000000 := value.toUInt32.toNat_lt
    let stream : List Nat := Value.beBytes Value.typeVariantList ++ (Value.beBytes 1 ++ (Value.beBytes Value.typeInt ++
      (Value.beBytes value.toUInt32.toNat ++ [0x29])))
    have hstream : ∀ n ∈ stream, n < 0x100 := by
      intro n hn
      simp only [stream, List.mem_append, List.mem_singleton] at hn
      obtain hn | hn | hn | hn | rfl := hn
      any_goals exact beBytes_lt _ n hn
      decide
    have hpayload : (Value.intList [value]).variantPayload = some (stream.map Char.ofNat) := by
      show stripStart Value.variantOpening _ = _
      unfold stripStart
      rw [List.append_assoc, if_pos (List.isPrefixOf_iff_prefix.mpr (List.prefix_append _ _)), List.drop_left]
      simp [stream]
    have helement : Value.streamElement (Value.beBytes Value.typeInt ++ (Value.beBytes value.toUInt32.toNat ++ [0x29])) =
        some (intText value.toInt, [0x29]) := by
      unfold Value.streamElement
      rw [streamU32_beBytes (by decide), Option.bind_some, if_pos rfl, streamU32_beBytes hvalue, Option.map_some,
        ofNat_toUInt32]
    rw [listEntries_of_payload hpayload, decodeVariantList_bytes hstream, streamU32_beBytes (by decide), Option.bind_some,
      if_neg (not_not_intro rfl), streamU32_beBytes (by decide), Option.bind_some, Value.streamElements, helement,
      Option.bind_some, Value.streamElements]
    rfl

end Cao.Profile
