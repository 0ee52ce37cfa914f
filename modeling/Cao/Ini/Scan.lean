import Cao.Ini.Codec
import Cao.Ini.Read

/-!
# Written lines are read whole

What the reader of lines and the reader of keys make of what a save writes (`cao_profiles::ini`).

* **`unescapeKey_escapeKey`**: a written key is read back, a unit at a time by `run_escapeKeyUnit`;
* `KeyByte`: the bytes of a key; `endRun`, **`endRun_escapeKey`**: a written key ends in as many `\` as the key in `/`;
* `LineScan.Scans`, **`scans_escapeString`**, **`scans_writeValue`**: a line goes on over a written value;
* `opened`, **`run_key`**: it goes on over a written key, and over the `=` where the key ends in an odd number of `\`.
-/

namespace Cao.Ini

/-! ## Keys -/

/-- A digit of `upperHex`. -/
theorem toDigit_upper : ∀ d < 16, toDigit 16 (if d < 10 then UInt8.ofNat (0x30 + d) else UInt8.ofNat (0x37 + d)) = some d := by
  decide

theorem length_upperHex (digits n : Nat) : (upperHex digits n).length = digits := by
  induction digits generalizing n with
  | zero => rfl
  | succ digits ih => rw [upperHex, List.length_append, ih, List.length_singleton]

theorem mem_upperHex {digits n : Nat} {b : UInt8} (h : b ∈ upperHex digits n) : isAsciiHexdigit b = true := by
  induction digits generalizing n with
  | zero => cases h
  | succ digits ih =>
    rw [upperHex, List.mem_append, List.mem_singleton] at h
    refine h.elim ih ?_
    rintro rfl
    unfold isAsciiHexdigit
    rw [toDigit_upper (n % 16) (Nat.mod_lt _ (by decide))]
    rfl

theorem hexValue_upperHex (digits n : Nat) : hexValue (upperHex digits n) = n % 16 ^ digits := by
  induction digits generalizing n with
  | zero => simp [upperHex, hexValue, Nat.mod_one]
  | succ digits ih =>
    have hih := ih (n / 16)
    unfold hexValue at hih ⊢
    rw [upperHex, List.foldl_append, hih, List.foldl_cons, List.foldl_nil, toDigit_upper (n % 16) (Nat.mod_lt _ (by decide)),
      Option.getD_some, Nat.pow_succ, Nat.mul_comm (16 ^ digits), Nat.mod_mul]
    omega

namespace KeyScan

theorem hexDigits_two (n : Nat) (rest : Bytes) : hexDigits (upperHex 2 n ++ rest) = some (upperHex 2 n, 2) := by
  have hdigits : ∀ b ∈ upperHex 2 n, isAsciiHexdigit b = true := fun _ => mem_upperHex
  have hhead : (upperHex 2 n ++ rest).head? ≠ some (byte 'U') := by
    intro h
    have hmem : byte 'U' ∈ upperHex 2 n := by
      rw [List.head?_append_of_ne_nil _ (by rw [← List.length_pos_iff, length_upperHex]; decide)] at h
      exact List.mem_of_mem_head? h
    exact absurd (hdigits _ hmem) (by decide)
  unfold hexDigits
  simp only [if_neg hhead, List.drop_zero]
  have htake : (upperHex 2 n ++ rest).take 2 = upperHex 2 n := by
    rw [List.take_append_of_le_length (by rw [length_upperHex]), List.take_of_length_le (by rw [length_upperHex])]
  rw [htake, if_pos ⟨length_upperHex 2 n, List.all_eq_true.mpr hdigits⟩]

theorem hexDigits_four (n : Nat) (rest : Bytes) :
    hexDigits (byte 'U' :: (upperHex 4 n ++ rest)) = some (upperHex 4 n, 5) := by
  have hdigits : ∀ b ∈ upperHex 4 n, isAsciiHexdigit b = true := fun _ => mem_upperHex
  unfold hexDigits
  simp only [List.head?_cons, if_true, List.drop_succ_cons, List.drop_zero]
  have htake : (upperHex 4 n ++ rest).take 4 = upperHex 4 n := by
    rw [List.take_append_of_le_length (by rw [length_upperHex]), List.take_of_length_le (by rw [length_upperHex])]
  rw [htake, if_pos ⟨length_upperHex 4 n, List.all_eq_true.mpr hdigits⟩]

theorem run_percent {units : List Nat} {escape hex rest : Bytes} {length : Nat} (hne : escape ≠ [])
    (hhex : hexDigits (escape ++ rest) = some (hex, length)) (hlength : escape.length = length) :
    loop.run ⟨units, byte '%' :: (escape ++ rest)⟩ = loop.run ⟨units ++ [hexValue hex], rest⟩ := by
  have hstep : step ⟨units, byte '%' :: (escape ++ rest)⟩ = .next ⟨units ++ [hexValue hex], rest⟩ := by
    unfold step
    dsimp only
    rw [if_neg (by decide), if_neg (by simp [hne]), hhex]
    simp [← hlength]
  exact @Loop.run_next _ _ loop _ _ hstep

/-- **A key's unit is read back.** -/
theorem run_escapeKeyUnit {unit : Nat} (hunit : unit < 0x10000) (units : List Nat) (rest : Bytes) :
    loop.run ⟨units, escapeKeyUnit unit ++ rest⟩ = loop.run ⟨units ++ [unit], rest⟩ := by
  unfold escapeKeyUnit
  split_ifs with hslash hplain hlatin
  · subst hslash
    exact @Loop.run_next _ _ loop _ _ rfl
  · have hlt : unit < 0x100 := by
      unfold isPlainUnit at hplain
      simp only [Bool.and_eq_true, decide_eq_true_eq] at hplain
      exact hplain.1
    have hnat : (UInt8.ofNat unit).toNat = unit := by
      rw [UInt8.toNat_ofNat']
      omega
    have hne : ∀ c : Char, isPlainUnit (byte c).toNat = false → UInt8.ofNat unit ≠ byte c := by
      intro c hc heq
      rw [← hnat, heq, hc] at hplain
      cases hplain
    have hstep : step ⟨units, [UInt8.ofNat unit] ++ rest⟩ = .next ⟨units ++ [unit], rest⟩ := by
      unfold step
      simp only [List.singleton_append]
      rw [if_neg (hne '\\' (by decide)), if_pos (.inl (hne '%' (by decide))), hnat]
    exact @Loop.run_next _ _ loop _ _ hstep
  · have hne : upperHex 2 unit ≠ [] := by
      rw [← List.length_pos_iff, length_upperHex]
      decide
    refine (run_percent hne (hexDigits_two unit rest) (length_upperHex 2 unit)).trans ?_
    rw [hexValue_upperHex, Nat.mod_eq_of_lt (by omega)]
  · refine (run_percent (List.cons_ne_nil _ _) (hexDigits_four unit rest)
      (by rw [List.length_cons, length_upperHex])).trans ?_
    rw [hexValue_upperHex, Nat.mod_eq_of_lt (by omega)]

end KeyScan

/-- **A written key is read back.** -/
theorem unescapeKey_escapeKey (key : Text) : unescapeKey (escapeKey key) = key := by
  have hrun : ∀ (units before : List Nat), (∀ unit ∈ units, unit < 0x10000) →
      KeyScan.loop.run ⟨before, units.flatMap escapeKeyUnit⟩ = before ++ units := by
    intro units
    induction units with
    | nil =>
      intro before _
      rw [List.append_nil]
      exact @Loop.run_done _ _ KeyScan.loop _ _ rfl
    | cons unit units ih =>
      intro before hlt
      rw [List.flatMap_cons, KeyScan.run_escapeKeyUnit (hlt unit List.mem_cons_self),
        ih _ fun u hu => hlt u (List.mem_cons_of_mem _ hu), List.append_assoc]
      rfl
  unfold unescapeKey escapeKey
  rw [hrun _ _ fun _ => encodeUtf16_lt, List.nil_append, fromUtf16Lossy_encodeUtf16]

/-! ## The bytes of a key -/

/-- A byte that keys are written with. -/
def isKeyByte (b : UInt8) : Bool := isAsciiAlphanumeric b || (bytes ['_', '-', '.', '%', '\\']).contains b

/-- What the bytes of a key are not. -/
structure KeyByte (b : UInt8) : Prop where
  noSpace : isSpace b = false
  noBlank : isBlank b = false
  noHash : b ≠ byte '#'
  noOpening : b ≠ byte '['
  noClosing : b ≠ byte ']'
  noSemicolon : b ≠ byte ';'
  special : isSpecial b = true → b = byte '\\'
  whitespace : isAsciiWhitespace b = false

/-- **How the classes of bytes lie to each other**, of every byte at once. -/
theorem byteClasses :
    (∀ b, isKeyByte b = true → isSpace b = false ∧ isBlank b = false ∧ b ≠ byte '#' ∧ b ≠ byte '[' ∧ b ≠ byte ']' ∧
      b ≠ byte ';' ∧ (isSpecial b = true → b = byte '\\') ∧ isAsciiWhitespace b = false) ∧
    (∀ b, (isAsciiAlphanumeric b || (bytes ['_', '-', '.']).contains b) = true →
      b < 0x80 ∧ isKeyByte b = true ∧ b ≠ byte '\\') ∧
    (∀ b, isAsciiHexdigit b = true → isKeyByte b = true ∧ b ≠ byte '\\' ∧ isSpecial b = false) ∧
    ∀ b, 0x20 ≤ b → isNewline b = false ∧
      (isSpecial b = true → b = byte '"' ∨ b = byte '\\' ∨ b = byte ';' ∨ b = byte '=') :=
  ⟨forall_byte (by decide +kernel), forall_byte (by decide +kernel), forall_byte (by decide +kernel),
    forall_byte (by decide +kernel)⟩

theorem keyByte_of_isKeyByte {b : UInt8} (h : isKeyByte b = true) : KeyByte b := by
  obtain ⟨h₁, h₂, h₃, h₄, h₅, h₆, h₇, h₈⟩ := byteClasses.1 _ h
  exact ⟨h₁, h₂, h₃, h₄, h₅, h₆, h₇, h₈⟩

theorem isKeyByte_hexdigit {b : UInt8} (h : isAsciiHexdigit b = true) : isKeyByte b = true ∧ b ≠ byte '\\' :=
  ⟨(byteClasses.2.2.1 b h).1, (byteClasses.2.2.1 b h).2.1⟩

/-- The bytes of a unit, where it is no `/`. -/
theorem mem_escapeKeyUnit {unit : Nat} {b : UInt8} (h : b ∈ escapeKeyUnit unit) :
    isKeyByte b = true ∧ (unit ≠ 0x2F → b ≠ byte '\\') := by
  unfold escapeKeyUnit at h
  split_ifs at h with hslash hplain hlatin
  · obtain rfl := List.mem_singleton.mp h
    exact ⟨by decide, fun hne => absurd hslash hne⟩
  · obtain rfl := List.mem_singleton.mp h
    unfold isPlainUnit at hplain
    rw [Bool.and_eq_true] at hplain
    have hkey := (byteClasses.2.1 _ hplain.2).2
    exact ⟨hkey.1, fun _ => hkey.2⟩
  · rw [List.mem_cons] at h
    obtain rfl | h := h
    · exact ⟨by decide, fun _ => by decide⟩
    · exact ⟨(isKeyByte_hexdigit (mem_upperHex h)).1, fun _ => (isKeyByte_hexdigit (mem_upperHex h)).2⟩
  · rw [List.mem_cons, List.mem_cons] at h
    obtain rfl | rfl | h := h
    · exact ⟨by decide, fun _ => by decide⟩
    · exact ⟨by decide, fun _ => by decide⟩
    · exact ⟨(isKeyByte_hexdigit (mem_upperHex h)).1, fun _ => (isKeyByte_hexdigit (mem_upperHex h)).2⟩

theorem escapeKeyUnit_ne_nil (unit : Nat) : escapeKeyUnit unit ≠ [] := by
  unfold escapeKeyUnit
  split_ifs <;> exact List.cons_ne_nil _ _

theorem mem_escapeKey {key : Text} {b : UInt8} (h : b ∈ escapeKey key) : KeyByte b := by
  obtain ⟨unit, -, hb⟩ := List.mem_flatMap.mp h
  exact keyByte_of_isKeyByte (mem_escapeKeyUnit hb).1

theorem escapeKey_append (a b : Text) : escapeKey (a ++ b) = escapeKey a ++ escapeKey b := by
  unfold escapeKey
  rw [encodeUtf16_append, List.flatMap_append]

/-! ## What a text ends in -/

section EndRun

variable {α : Type} [DecidableEq α]

/-- How many of one element a list ends in. -/
def endRun (c : α) (l : List α) : Nat := (l.reverse.takeWhile (· == c)).length

theorem endRun_le (c : α) (l : List α) : endRun c l ≤ l.length := by
  have := (List.takeWhile_prefix (l := l.reverse) (· == c)).length_le
  rwa [List.length_reverse] at this

theorem endRun_cons (c a : α) (l : List α) :
    endRun c (a :: l) = if endRun c l = l.length then l.length + (if a = c then 1 else 0) else endRun c l := by
  unfold endRun
  rw [List.reverse_cons, List.takeWhile_append, List.length_reverse]
  split_ifs with hall hac
  · simp [hac]
  · simp [hac]
  · rfl

theorem endRun_concat (c a : α) (l : List α) : endRun c (l ++ [a]) = if a = c then endRun c l + 1 else 0 := by
  unfold endRun
  rw [List.reverse_append, List.reverse_singleton, List.singleton_append, List.takeWhile_cons]
  by_cases hac : a = c <;> simp [hac]

theorem endRun_append_of_notMem {c : α} {m : List α} (l : List α) (hne : m ≠ []) (hm : c ∉ m) : endRun c (l ++ m) = 0 := by
  obtain ⟨m, a, rfl⟩ := List.eq_nil_or_concat m |>.resolve_left hne
  rw [List.concat_eq_append, ← List.append_assoc, endRun_concat, if_neg]
  rintro rfl
  exact hm (by simp)

end EndRun

/-- **A written key ends in as many `\` as the key in `/`.** -/
theorem endRun_escapeKey (key : Text) : endRun (byte '\\') (escapeKey key) = endRun '/' key := by
  induction key using List.reverseRecOn with
  | nil => rfl
  | append_singleton key c ih =>
    rw [escapeKey_append, endRun_concat]
    by_cases hslash : c = '/'
    · subst hslash
      rw [if_pos rfl, ← ih]
      exact (endRun_concat _ _ _).trans (if_pos rfl)
    · rw [if_neg hslash]
      refine endRun_append_of_notMem _ ?_ fun hmem => ?_
      · obtain ⟨unit, units, hunits⟩ := List.exists_cons_of_ne_nil (units_ne_nil (.char c))
        unfold escapeKey
        rw [encodeUtf16_cons, hunits]
        exact List.append_ne_nil_of_left_ne_nil (escapeKeyUnit_ne_nil unit) _
      · obtain ⟨unit, hunit, hb⟩ := List.mem_flatMap.mp hmem
        refine (mem_escapeKeyUnit hb).2 ?_ rfl
        rintro rfl
        have := (mem_encodeUtf16_ascii (s := [c]) (c := '/') (by decide)).mp hunit
        exact hslash (List.mem_singleton.mp this).symm

theorem noEscape_of_noSlash {key : Text} (h : '/' ∉ key) : byte '\\' ∉ escapeKey key := by
  intro hmem
  obtain ⟨unit, hunit, hb⟩ := List.mem_flatMap.mp hmem
  refine (mem_escapeKeyUnit hb).2 ?_ rfl
  rintro rfl
  exact h ((mem_encodeUtf16_ascii (s := key) (c := '/') (by decide)).mp hunit)

/-! ## One line -/

namespace LineScan

variable {s : LineScan} {c : UInt8} {rest : Bytes}

/-- A byte that means nothing to the reader of lines. -/
theorem run_plain (hs : s.rest = c :: rest) (hspecial : isSpecial c = false) (hhash : s.text = [] → c ≠ byte '#') :
    loop.run s = loop.run { s with text := s.text ++ [c], rest } := by
  have hstep : step s = .next { s with text := s.text ++ [c], rest } := by
    unfold step take
    rw [hs]
    dsimp only
    rw [if_neg fun h => hhash h.1 h.2, hspecial]
    rfl
  exact @Loop.run_next _ _ loop _ _ hstep

/-- A `\` and the byte it escapes. -/
theorem run_escaped {e : UInt8} (hs : s.rest = byte '\\' :: e :: rest) (he : isNewline e = false) :
    loop.run s = loop.run { s with text := s.text ++ [byte '\\', e], rest } := by
  have hlength : escapedLength (e :: rest) = 1 := by
    cases rest with
    | nil => rfl
    | cons b rest =>
      exact if_neg fun h => absurd (he.symm.trans h.1) Bool.false_ne_true
  have hstep : step s = .next { s with text := s.text ++ [byte '\\', e], rest } := by
    unfold step take
    rw [hs]
    dsimp only
    rw [if_neg fun h => absurd h.2 (by decide), if_neg (by decide), if_neg (by decide), if_neg (by decide), if_pos rfl, hlength]
    rfl
  exact @Loop.run_next _ _ loop _ _ hstep

theorem run_equals (hs : s.rest = byte '=' :: rest) :
    loop.run s = loop.run { s with text := s.text ++ [byte '='], rest, equals := s.marked } := by
  have hstep : step s = .next { s with text := s.text ++ [byte '='], rest, equals := s.marked } := by
    unfold step take
    rw [hs]
    dsimp only
    rw [if_neg fun h => absurd h.2 (by decide), if_neg (by decide), if_pos rfl]
    rfl
  exact @Loop.run_next _ _ loop _ _ hstep

theorem run_quote (hs : s.rest = byte '"' :: rest) :
    loop.run s = loop.run { s with text := s.text ++ [byte '"'], rest, inQuotes := !s.inQuotes } := by
  have hstep : step s = .next { s with text := s.text ++ [byte '"'], rest, inQuotes := !s.inQuotes } := by
    unfold step take
    rw [hs]
    dsimp only
    rw [if_neg fun h => absurd h.2 (by decide), if_neg (by decide), if_neg (by decide), if_neg (by decide),
      if_neg (by decide), if_pos rfl]
    rfl
  exact @Loop.run_next _ _ loop _ _ hstep

/-- A quoted `;` opens no comment. -/
theorem run_semicolon (hs : s.rest = byte ';' :: rest) (htext : s.text ≠ []) (hquotes : s.inQuotes = true) :
    loop.run s = loop.run { s with text := s.text ++ [byte ';'], rest } := by
  have hstep : step s = .next { s with text := s.text ++ [byte ';'], rest } := by
    unfold step take
    rw [hs]
    dsimp only
    rw [if_neg fun h => htext h.1, if_neg (by decide), if_neg (by decide), if_neg (by decide),
      if_neg (by decide), if_neg (by decide), if_neg htext, hquotes]
    rfl
  exact @Loop.run_next _ _ loop _ _ hstep

/-- The end of a line. -/
theorem run_newline (hs : s.rest = crlf ++ rest) (htext : s.text ≠ []) (hquotes : s.inQuotes = false) : loop.run s = s := by
  have hstep : step s = .done s := by
    unfold step
    rw [hs]
    show (if s.text = [] ∧ byte '\r' = byte '#' then _ else _) = _
    rw [if_neg fun h => htext h.1, if_neg (by decide), if_neg (by decide), if_pos (by decide), if_neg htext, hquotes]
    rfl
  exact @Loop.run_done _ _ loop _ _ hstep

/-- Bytes that a line goes on over, from inside or outside quotes on. -/
def Scans (quoted : Bool) (w : Bytes) (quoted' : Bool) : Prop := ∀ text equals rest, text ≠ [] →
  loop.run ⟨text, equals, quoted, w ++ rest⟩ = loop.run ⟨text ++ w, equals, quoted', rest⟩

theorem scans_nil (quoted : Bool) : Scans quoted [] quoted := fun text _ _ _ => by
  rw [List.append_nil, List.nil_append]

theorem Scans.append {q q' q'' : Bool} {w w' : Bytes} (h : Scans q w q') (h' : Scans q' w' q'') : Scans q (w ++ w') q'' := by
  intro text equals rest htext
  rw [List.append_assoc, h text equals _ htext, h' _ equals rest (List.append_ne_nil_of_left_ne_nil htext w),
    List.append_assoc]

theorem scans_plain {quoted : Bool} {w : Bytes} (h : ∀ b ∈ w, isSpecial b = false) : Scans quoted w quoted := by
  induction w with
  | nil => exact scans_nil quoted
  | cons b w ih =>
    have hone : Scans quoted [b] quoted := fun text equals rest htext =>
      run_plain rfl (h b List.mem_cons_self) fun hnil => absurd hnil htext
    exact hone.append (ih fun b hb => h b (List.mem_cons_of_mem _ hb))

theorem scans_escaped {quoted : Bool} {e : UInt8} (he : isNewline e = false) : Scans quoted [byte '\\', e] quoted :=
  fun _ _ _ _ => run_escaped rfl he

theorem scans_quote (quoted : Bool) : Scans quoted [byte '"'] !quoted := fun _ _ _ _ => run_quote rfl

theorem special_printable {b : UInt8} (hlow : 0x20 ≤ b) (hspecial : isSpecial b = true) :
    b = byte '"' ∨ b = byte '\\' ∨ b = byte ';' ∨ b = byte '=' :=
  (byteClasses.2.2.2 b hlow).2 hspecial

theorem not_newline_printable {b : UInt8} (hlow : 0x20 ≤ b) : isNewline b = false := (byteClasses.2.2.2 b hlow).1

theorem not_special_hexdigit {b : UInt8} (h : isAsciiHexdigit b = true) : isSpecial b = false :=
  (byteClasses.2.2.1 b h).2.2

/-- **A line goes on over a written unit.** -/
theorem scans_writtenUnit {quoted escapeNext next : Bool} {unit : Nat} {written : Bytes}
    (h : WrittenUnit unit escapeNext written next) (hsafe : quoted = true ∨ isSeparatorUnit unit = false) :
    Scans quoted written quoted := by
  cases h with
  | hex => exact (scans_escaped (by decide)).append (scans_plain fun b hb => not_special_hexdigit (mem_lowerHex hb))
  | nul => exact scans_escaped (by decide)
  | named hname => exact scans_escaped (not_newline_printable (namedEscape_eq_some hname).2.1)
  | shown hshown _ =>
    by_cases hspecial : isSpecial (UInt8.ofNat unit) = true
    · have hquoted : ∀ c : Char, UInt8.ofNat unit = byte c → isSeparatorUnit (byte c).toNat = true → quoted = true := by
        intro c heq hseparator
        rw [← heq, hshown.toNat] at hseparator
        exact hsafe.resolve_right (by rw [hseparator]; decide)
      obtain heq | heq | heq | heq := special_printable hshown.printable.1 hspecial
      · exact absurd heq (byte_ne hshown hshown.noQuote)
      · exact absurd heq (byte_ne hshown hshown.noEscape)
      · rw [heq]
        obtain rfl := hquoted ';' heq (by decide)
        exact fun text equals rest htext => run_semicolon rfl htext rfl
      · rw [heq]
        obtain rfl := hquoted '=' heq (by decide)
        exact fun text equals rest htext => run_equals rfl
    · refine scans_plain fun b hb => ?_
      obtain rfl := List.mem_singleton.mp hb
      simpa using hspecial

theorem scans_escapeUnits {quoted escapeNext : Bool} {units : List Nat}
    (hsafe : quoted = true ∨ units.any isSeparatorUnit = false) : Scans quoted (escapeUnits escapeNext units) quoted := by
  induction units generalizing escapeNext with
  | nil => exact scans_nil quoted
  | cons unit units ih =>
    rw [List.any_cons, Bool.or_eq_false_iff] at hsafe
    obtain ⟨written, next, hunit, heq⟩ := escapeUnits_cons escapeNext unit units
    rw [heq]
    exact (scans_writtenUnit hunit (hsafe.imp_right And.left)).append (ih (hsafe.imp_right And.right))

theorem scans_escapeString (text : Text) : Scans false (escapeString text) false := by
  unfold escapeString
  dsimp only
  split_ifs with hquotes
  · exact ((scans_quote false).append (scans_escapeUnits (.inl rfl))).append (scans_quote true)
  · rw [not_or] at hquotes
    exact scans_escapeUnits (.inr (by simpa using hquotes.1))

theorem scans_writtenElements (texts : List Text) : Scans false (Unescape.writtenElements texts) false := by
  induction texts with
  | nil => exact scans_nil false
  | cons text texts ih =>
    cases texts with
    | nil =>
      rw [Unescape.writtenElements_singleton]
      exact scans_escapeString text
    | cons next texts =>
      rw [Unescape.writtenElements_cons]
      have hcomma : Scans false [byte ',', byte ' '] false := scans_plain (forall_of_all (by decide))
      exact (scans_escapeString text).append (hcomma.append ih)

/-- **A line goes on over a written value.** -/
theorem scans_writeValue (v : Value) : Scans false (writeValue v) false := by
  cases v with
  | list elements =>
    cases elements with
    | nil => exact scans_plain (forall_of_all (by decide))
    | cons first elements =>
      have := scans_writtenElements ((first :: elements).map variantToString)
      unfold Unescape.writtenElements at this
      rwa [List.map_map] at this
  | invalid => exact scans_escapeString invalidText
  | string text => exact scans_escapeString (variantToString (.string text))
  | encoded raw => exact scans_escapeString raw

/-! ## A key's end -/

/-- Whether a key's bytes end in a `\` that escapes what follows. -/
def opened : Bytes → Bool
  | [] => false
  | [c] => c == byte '\\'
  | c :: d :: w => if c = byte '\\' then opened w else opened (d :: w)

/-- **A key's end is open where it ends in an odd number of `\`.** -/
theorem opened_iff (w : Bytes) : opened w = true ↔ endRun (byte '\\') w % 2 = 1 := by
  fun_induction opened w with
  | case1 => simp [endRun]
  | case2 c =>
    rw [endRun_cons]
    by_cases hc : c = byte '\\' <;> simp [endRun, hc]
  | case3 d w ih =>
    have hle := endRun_le (byte '\\') w
    rw [ih, endRun_cons, endRun_cons, List.length_cons]
    simp only [if_true]
    split_ifs <;> omega
  | case4 c d w hc ih =>
    have hle := endRun_le (byte '\\') (d :: w)
    rw [ih, endRun_cons _ c, if_neg hc]
    split_ifs <;> omega

/-- **A line goes on over a written key**, and over the `=` as well where its end is open. -/
theorem run_key {w : Bytes} (hw : ∀ b ∈ w, KeyByte b) (text : Bytes) (equals : Option Nat) (rest : Bytes) :
    loop.run ⟨text, equals, false, w ++ byte '=' :: rest⟩ =
      if opened w then loop.run ⟨text ++ w ++ [byte '='], equals, false, rest⟩
      else loop.run ⟨text ++ w, equals, false, byte '=' :: rest⟩ := by
  have hplain : ∀ {c : UInt8}, KeyByte c → c ≠ byte '\\' → ∀ text rest,
      loop.run ⟨text, equals, false, c :: rest⟩ = loop.run ⟨text ++ [c], equals, false, rest⟩ := by
    intro c hc hne text rest
    exact run_plain rfl (by simpa using fun h => hne (hc.special h)) fun _ => hc.noHash
  fun_induction opened w generalizing text with
  | case1 => simp
  | case2 c =>
    have hc := hw c List.mem_cons_self
    by_cases hopen : c = byte '\\'
    · subst hopen
      rw [if_pos (by decide)]
      refine (run_escaped (e := byte '=') rfl (by decide)).trans ?_
      simp
    · rw [if_neg (by simpa using hopen)]
      exact hplain hc hopen text _
  | case3 d w ih =>
    have hd := hw d (by simp)
    have hnewline : isNewline d = false := by
      have := hd.noSpace
      unfold isSpace at this
      unfold isNewline
      simp only [Bool.or_eq_false_iff] at this ⊢
      exact ⟨this.1.1.2, this.1.2⟩
    refine (run_escaped rfl hnewline).trans
      ((ih (fun b hb => hw b (by simp [hb])) (text ++ [byte '\\', d])).trans ?_)
    simp
  | case4 c d w hc ih =>
    refine (hplain (hw c List.mem_cons_self) hc text _).trans
      ((ih (fun b hb => hw b (List.mem_cons_of_mem _ hb)) (text ++ [c])).trans ?_)
    simp

end LineScan

end Cao.Ini
