import Cao.Ini.Codec

/-!
# Written values are read back

What a settings file keeps of a value (`cao_profiles::ini`).

* `Value.Scalar`, `Value.Written`: the values that a file can hold; **`written_readValue`**: what is read is one;
* `Value.kept`, **`readValue_writeValue`**: what is read of a written value;
* **`sameReadings_kept`**: no getter tells it from the value itself.
-/

namespace Cao.Ini

/-! ## Written values -/

namespace Value

/-- Text that is read as one of Qt's encodings. -/
def IsEncoding (raw : Text) : Prop := raw.getLast? = some ')' ∧ encodings.any (·.isPrefixOf raw) = true

/-- A scalar that a file can hold. -/
inductive Scalar : Value → Prop
  | invalid : Scalar .invalid
  | string (text : Text) : Scalar (.string text)
  | encoded {raw : Text} : IsEncoding raw → Scalar (.encoded raw)

/-- A value that a file can hold: a list has two elements at least, none of them a list. -/
inductive Written : Value → Prop
  | scalar {v : Value} : Scalar v → Written v
  | list {elements : List Value} : 2 ≤ elements.length → (∀ v ∈ elements, Scalar v) → Written (.list elements)

/-- What text that holds NUL is kept as. -/
def nulText (text : Text) : Text := stringOpening ++ text ++ [')']

/-- What a file keeps of a scalar. -/
def keptScalar : Value → Value
  | string text => if '\x00' ∈ text then encoded (nulText text) else string text
  | v => v

/-- **What a file keeps of a value**: text that holds NUL comes back as a `@String(…)`. -/
def kept : Value → Value
  | list elements => list (elements.map keptScalar)
  | v => v.keptScalar

theorem kept_of_scalar {v : Value} (h : Scalar v) : v.kept = v.keptScalar := by
  cases h <;> rfl

theorem opening_nulText (text : Text) : stringOpening.isPrefixOf (nulText text) = true := by
  rw [List.isPrefixOf_iff_prefix]
  unfold nulText
  rw [List.append_assoc]
  exact List.prefix_append _ _

theorem isEncoding_nulText (text : Text) : IsEncoding (nulText text) := by
  refine ⟨?_, List.any_eq_true.mpr ⟨stringOpening, by simp [encodings], opening_nulText text⟩⟩
  unfold nulText
  rw [List.getLast?_concat]

theorem encodings_shape {opening : Text} (h : opening ∈ encodings) :
    ∃ c rest, opening = '@' :: c :: rest ∧ c ≠ '@' ∧ c ≠ 'I' := by
  simp only [encodings, List.mem_cons, List.not_mem_nil, or_false] at h
  obtain rfl | rfl | rfl | rfl | rfl | rfl | rfl := h <;> exact ⟨_, _, rfl, by decide, by decide⟩

/-- What an encoding begins with. -/
theorem IsEncoding.head {raw : Text} (h : IsEncoding raw) :
    raw.head? = some '@' ∧ raw.tail.head? ≠ some '@' ∧ raw.tail.head? ≠ some 'I' := by
  obtain ⟨opening, hopening, hstarts⟩ := List.any_eq_true.mp h.2
  obtain ⟨rest, rfl⟩ := List.isPrefixOf_iff_prefix.mp hstarts
  obtain ⟨c, more, rfl, hat, hletter⟩ := encodings_shape hopening
  exact ⟨rfl, fun h => hat (Option.some.inj h), fun h => hletter (Option.some.inj h)⟩

theorem stringToValue_encoding {raw : Text} (h : IsEncoding raw) : stringToValue raw = .encoded raw := by
  obtain ⟨hhead, -, hinvalid⟩ := h.head
  obtain ⟨hlast, hany⟩ := h
  have hne : raw ≠ "@Invalid()".toList := by
    rintro rfl
    exact hinvalid rfl
  unfold stringToValue
  rw [if_pos hhead, if_neg fun h => hne h.2, if_pos ⟨hlast, hany⟩]

/-- **A written scalar is read back as what it is kept as.** -/
theorem stringToValue_variantToString {v : Value} (h : Scalar v) : stringToValue (variantToString v) = v.keptScalar := by
  cases h with
  | invalid => rfl
  | encoded hencoding => exact stringToValue_encoding hencoding
  | string text =>
    unfold variantToString keptScalar
    dsimp only
    by_cases hnul : '\x00' ∈ text
    · rw [if_pos hnul, if_pos hnul]
      exact stringToValue_encoding (isEncoding_nulText text)
    · rw [if_neg hnul, if_neg hnul]
      by_cases hat : text.head? = some '@'
      · have hinvalid : '@' :: text ≠ "@Invalid()".toList := by
          intro heq
          rw [(List.cons.inj heq).2] at hat
          exact absurd hat (by decide)
        have hencoding : encodings.any (·.isPrefixOf ('@' :: text)) ≠ true := by
          intro hany
          obtain ⟨opening, hopening, hstarts⟩ := List.any_eq_true.mp hany
          obtain ⟨rest, hrest⟩ := List.isPrefixOf_iff_prefix.mp hstarts
          obtain ⟨c, more, rfl, hne, -⟩ := encodings_shape hopening
          rw [← (List.cons.inj hrest).2] at hat
          exact hne (Option.some.inj hat)
        rw [if_pos hat]
        unfold stringToValue
        rw [if_pos (by rfl), if_neg fun h => hinvalid h.2, if_neg fun h => hencoding h.2, List.tail_cons, if_pos hat]
      · rw [if_neg hat]
        unfold stringToValue
        rw [if_neg hat]

theorem writeValue_scalar {v : Value} (h : Scalar v) : writeValue v = Unescape.writtenElements [variantToString v] := by
  rw [Unescape.writtenElements_singleton]
  cases h <;> rfl

end Value

/-- **A written value is read back as what it is kept as.** -/
theorem readValue_writeValue {v : Value} (h : v.Written) (utf8 : Bool) : readValue (writeValue v) utf8 = v.kept := by
  unfold readValue
  cases h with
  | scalar hscalar =>
    rw [Value.writeValue_scalar hscalar, unescapeValue_written, if_pos rfl, Value.kept_of_scalar hscalar]
    dsimp only
    rw [fromUtf16Lossy_encodeUtf16, Value.stringToValue_variantToString hscalar]
  | list htwo hscalars =>
    rename_i elements
    obtain ⟨first, second, elements, rfl⟩ : ∃ first second more, elements = first :: second :: more := by
      rcases elements with _ | ⟨first, _ | ⟨second, more⟩⟩
      · exact absurd htwo (by simp)
      · exact absurd htwo (by simp)
      · exact ⟨first, second, more, rfl⟩
    have hwritten : writeValue (.list (first :: second :: elements)) =
        Unescape.writtenElements (variantToString first :: (second :: elements).map variantToString) := by
      unfold Unescape.writtenElements
      simp [writeValue, List.map_map, Function.comp_def]
    rw [hwritten, unescapeValue_written, if_neg (by simp), Value.kept]
    dsimp only
    rw [← List.map_cons (f := variantToString), List.map_map, List.map_map]
    refine congrArg Value.list (List.map_congr_left fun v hv => ?_)
    show stringToValue (fromUtf16Lossy (encodeUtf16 (variantToString v))) = _
    rw [fromUtf16Lossy_encodeUtf16, Value.stringToValue_variantToString (hscalars v hv)]

/-! ## Readings of what is kept -/

namespace Value

theorem asStr_nulText (text : Text) : (encoded (nulText text)).asStr = some text := by
  show (stripStart stringOpening (nulText text)).bind (stripEnd [')']) = some text
  unfold stripStart
  rw [if_pos (opening_nulText text)]
  unfold nulText stripEnd
  rw [List.append_assoc, List.drop_left, Option.bind_some, if_pos (List.isSuffixOf_iff_suffix.mpr (List.suffix_append _ _))]
  simp

theorem variantPayload_nulText (text : Text) : (encoded (nulText text)).variantPayload = none := by
  unfold variantPayload stripStart
  refine if_neg fun h => ?_
  obtain ⟨rest, hrest⟩ := List.isPrefixOf_iff_prefix.mp h
  have hhead : some 'V' = some 'S' := congrArg (fun text : Text => text.tail.head?) hrest
  exact absurd hhead (by decide)

theorem toIntList_of_text {v : Value} {text : Text} (htext : v.asStr = some text) (hpayload : v.variantPayload = none) :
    v.toIntList = if trim text ≠ [] then [v.toI32] else [] := by
  cases v with
  | invalid => cases htext
  | list elements => cases htext
  | string | encoded =>
    unfold toIntList
    dsimp only
    rw [hpayload, htext]

theorem listEntries_of_text {v : Value} {text : Text} (htext : v.asStr = some text) (hpayload : v.variantPayload = none) :
    v.listEntries = if trim text = [] then some [] else some [v] := by
  cases v with
  | invalid => cases htext
  | list elements => cases htext
  | string | encoded =>
    unfold listEntries
    dsimp only
    rw [hpayload, htext]

theorem toI64_of_text {v w : Value} (h : v.asStr = w.asStr) : v.toI64 = w.toI64 := by
  unfold toI64
  rw [h]

theorem toI32_of_text {v w : Value} (h : v.asStr = w.asStr) : v.toI32 = w.toI32 := by
  unfold toI32
  rw [toI64_of_text h]

/-- **No getter tells a scalar from what a file keeps of it.** -/
theorem sameReadings_keptScalar (v : Value) : SameReadings v v.keptScalar := by
  cases v with
  | string text =>
    by_cases hnul : '\x00' ∈ text
    · rw [show (string text).keptScalar = encoded (nulText text) from if_pos hnul]
      have htext : (string text).asStr = some text := rfl
      have hnumber : (string text).toI32 = (encoded (nulText text)).toI32 :=
        toI32_of_text (htext.trans (asStr_nulText text).symm)
      have hsame : (string text).readings = (encoded (nulText text)).readings := by
        unfold readings
        rw [asStr_nulText, toIntList_of_text htext rfl, toIntList_of_text (asStr_nulText text) (variantPayload_nulText text),
          hnumber, htext]
      refine ⟨hsame, ?_, by simp⟩
      rw [listEntries_of_text htext rfl, listEntries_of_text (asStr_nulText text) (variantPayload_nulText text)]
      split_ifs
      · rfl
      · simp [hsame]
    · rw [show (string text).keptScalar = string text from if_neg hnul]
      exact .refl _
  | _ => exact .refl _

/-- **No getter tells a value from what a file keeps of it.** -/
theorem sameReadings_kept (v : Value) : SameReadings v v.kept := by
  cases v with
  | list elements =>
    have hsame : ∀ v ∈ elements, v.readings = v.keptScalar.readings := fun v _ => (sameReadings_keptScalar v).readings
    refine ⟨?_, ?_, by simp [kept]⟩
    · show (none, elements.map toI32) = (none, (elements.map keptScalar).map toI32)
      rw [List.map_map]
      refine congrArg _ (List.map_congr_left fun v _ => ?_)
      exact (sameReadings_keptScalar v).toI32
    · show some (elements.map readings) = some ((elements.map keptScalar).map readings)
      rw [List.map_map]
      exact congrArg some (List.map_congr_left hsame)
  | string text => exact sameReadings_keptScalar (string text)
  | _ => exact .refl _

end Value

/-! ## What is read can be written -/

theorem scalar_stringToValue (text : Text) : (stringToValue text).Scalar := by
  unfold stringToValue
  split_ifs with hat hinvalid hencoding hliteral
  · exact .invalid
  · exact .encoded hencoding
  · exact .string _
  · exact .string _
  · exact .string _

namespace Unescape

variable {utf8 : Bool} {s s' : Unescape}

/-- A pass that ends no element. -/
def Stays (s : Unescape) : Pass Unescape Unescape → Prop
  | .next s' | .done s' => s'.isList = s.isList ∧ s'.list = s.list

theorem stays_greedy (s : Unescape) (escaped radix : Nat) (rest : Bytes) : s.Stays (s.greedy escaped radix rest) := by
  unfold greedy
  dsimp only
  split_ifs <;> exact ⟨rfl, rfl⟩

theorem stays_escape (s : Unescape) (c : UInt8) (rest : Bytes) : s.Stays (s.escape c rest) := by
  unfold escape dropped
  split
  · exact ⟨rfl, rfl⟩
  · split_ifs
    · split
      · exact ⟨rfl, rfl⟩
      · split_ifs
        · exact stays_greedy _ _ _ _
        · exact ⟨rfl, rfl⟩
    · exact stays_greedy _ _ _ _
    · split
      · split_ifs <;> exact ⟨rfl, rfl⟩
      · exact ⟨rfl, rfl⟩

theorem chop_fields (s : Unescape) : s.chop.isList = s.isList ∧ s.chop.list = s.list := by
  unfold chop
  split_ifs <;> exact ⟨rfl, rfl⟩

/-- **A pass ends no element, or an unquoted comma does.** -/
theorem stays_step (utf8 : Bool) (s : Unescape) : s.Stays (s.step utf8) ∨ ∃ rest, s.step utf8 = .next (s.comma rest) := by
  unfold step
  cases s.rest with
  | nil => exact .inl s.chop_fields
  | cons c rest =>
    dsimp only
    split_ifs with hescape hquote hcomma
    · cases rest with
      | nil => exact .inl ⟨rfl, rfl⟩
      | cons e rest => exact .inl (stays_escape _ _ _)
    · unfold quote
      split_ifs <;> exact .inl ⟨rfl, rfl⟩
    · exact .inr ⟨rest, rfl⟩
    · exact .inl ⟨rfl, rfl⟩

/-- A list is being read where an element of it was ended. -/
def Listed (s : Unescape) : Prop := s.isList = true → s.list ≠ []

theorem Stays.listed {pass : Pass Unescape Unescape} (h : s.Stays pass) (hs : s.Listed) (hpass : pass = .next s' ∨ pass = .done s') :
    s'.Listed := by
  have hfields : s'.isList = s.isList ∧ s'.list = s.list := by
    obtain rfl | rfl := hpass <;> exact h
  unfold Listed
  rw [hfields.1, hfields.2]
  exact hs

theorem listed_run (utf8 : Bool) (hs : s.Listed) : ((loop utf8).run s).Listed := by
  refine @Loop.run_invariant _ _ (loop utf8) Listed Listed (fun t t' ht hnext => ?_) (fun t r ht hdone => ?_) s hs
  · have hnext : t.step utf8 = .next t' := hnext
    obtain hstays | ⟨rest, hcomma⟩ := t.stays_step utf8
    · exact hstays.listed ht (.inl hnext)
    · rw [hnext] at hcomma
      cases hcomma
      exact fun _ => List.append_ne_nil_of_right_ne_nil _ (List.cons_ne_nil _ _)
  · have hdone : t.step utf8 = .done r := hdone
    obtain hstays | ⟨rest, hcomma⟩ := t.stays_step utf8
    · exact hstays.listed ht (.inr hdone)
    · rw [hdone] at hcomma
      cases hcomma

end Unescape

/-- **What is read of a file can be written.** -/
theorem written_readValue (b : Bytes) (utf8 : Bool) : (readValue b utf8).Written := by
  have hlisted := Unescape.listed_run utf8 (s := Unescape.start b) fun h => by cases h
  unfold readValue unescapeValue
  dsimp only
  split_ifs with hlist
  · refine .list ?_ fun v hv => ?_
    · have := List.length_pos_iff.mpr (hlisted hlist)
      simp only [List.length_map, List.length_append, List.length_singleton]
      omega
    · obtain ⟨units, -, rfl⟩ := List.mem_map.mp hv
      exact scalar_stringToValue _
  · exact .scalar (scalar_stringToValue _)

end Cao.Ini
