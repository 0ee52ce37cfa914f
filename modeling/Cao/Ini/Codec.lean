import Cao.Ini.Unescape
import Cao.Ini.Write

/-!
# Written text is read back

What the reader of values makes of text as the writer spells it (`cao_profiles::ini`).

* `Unescape.reads`: what is read from a state on; `reads_plain`, `reads_named`, `reads_hex`: one unit of it;
* `WrittenUnit`: how a unit is written; **`reads_escapeUnits`**: written units are read back;
* **`reads_escapeString`**: so is text, whatever it is quoted for;
* **`reads_elements`**, **`unescapeValue_written`**: so are the texts of a list.
-/

namespace Cao.Ini

/-! ## Hexadecimal digits -/

theorem toDigit_digitChar : ∀ d < 16, toDigit 16 (byte (Nat.digitChar d)) = some d := by decide

theorem lowerHex_ne_nil (n : Nat) : lowerHex n ≠ [] := by
  unfold lowerHex bytes
  rw [Ne, List.map_eq_nil_iff]
  exact Nat.toDigits_ne_nil

theorem mem_lowerHex {n : Nat} {b : UInt8} (h : b ∈ lowerHex n) : isAsciiHexdigit b = true := by
  induction n using Nat.strong_induction_on with
  | _ n ih =>
    unfold lowerHex at h
    rw [Nat.toDigits_eq_if (by decide)] at h
    split_ifs at h with hlt
    · obtain rfl := List.mem_singleton.mp h
      unfold isAsciiHexdigit
      rw [toDigit_digitChar n hlt]
      rfl
    · rw [bytes_append, List.mem_append] at h
      refine h.elim (fun h => ih (n / 16) (by omega) h) fun h => ?_
      obtain rfl := List.mem_singleton.mp h
      unfold isAsciiHexdigit
      rw [toDigit_digitChar (n % 16) (by omega)]
      rfl

/-- Bytes that a greedy escape does not go on with. -/
def Halts (rest : Bytes) : Prop := ∀ b ∈ rest.head?, toDigit 16 b = none

theorem halts_nil : Halts [] := fun _ h => by cases h

theorem halts_cons {b : UInt8} {rest : Bytes} : Halts (b :: rest) ↔ toDigit 16 b = none := by
  simp [Halts]

theorem greedyDigits_halts {radix escaped : Nat} {rest : Bytes} (hradix : radix ≤ 16) (h : Halts rest) :
    greedyDigits radix escaped rest = (escaped, rest) := by
  cases rest with
  | nil => rfl
  | cons b rest =>
    have hnone : toDigit radix b = none := by
      have hsixteen := halts_cons.mp h
      unfold toDigit at hsixteen ⊢
      rw [Option.filter_eq_none_iff] at hsixteen ⊢
      intro digit hdigit hlt
      exact hsixteen digit hdigit (by simpa using Nat.lt_of_lt_of_le (by simpa using hlt) hradix)
    unfold greedyDigits
    rw [hnone]

/-- A written number is read whole. -/
theorem greedyDigits_lowerHex {n : Nat} (hn : n < 0x10000) (rest : Bytes) :
    greedyDigits 16 0 (lowerHex n ++ rest) = greedyDigits 16 n rest := by
  induction n using Nat.strong_induction_on generalizing rest with
  | _ n ih =>
    unfold lowerHex
    rw [Nat.toDigits_eq_if (by decide)]
    split_ifs with hlt
    · show greedyDigits 16 0 (byte n.digitChar :: rest) = _
      rw [greedyDigits, toDigit_digitChar n hlt]
      simp only [Nat.zero_mul, Nat.zero_mod, Nat.zero_add]
    · have hih := ih (n / 16) (by omega) (by omega) (byte (n % 16).digitChar :: rest)
      unfold lowerHex at hih
      rw [bytes_append, List.append_assoc]
      refine hih.trans ?_
      rw [greedyDigits, toDigit_digitChar (n % 16) (by omega)]
      simp only
      congr 1
      omega

/-! ## From a state on -/

namespace Unescape

variable {utf8 : Bool} {s : Unescape} {rest : Bytes}

/-- What a value comes to. -/
def outcome (s : Unescape) : Unescaped := if s.isList then .list (s.list ++ [s.result]) else .single s.result

/-- What is read from a state on. -/
def reads (utf8 : Bool) (s : Unescape) : Unescaped := outcome ((loop utf8).run s)

theorem reads_next {s' : Unescape} (h : s.step utf8 = .next s') : reads utf8 s = reads utf8 s' := by
  unfold reads
  rw [@Loop.run_next _ _ (loop utf8) _ _ h]

theorem reads_done {s' : Unescape} (h : s.step utf8 = .done s') : reads utf8 s = s'.outcome := by
  unfold reads
  rw [@Loop.run_done _ _ (loop utf8) _ _ h]

theorem reads_end (hs : s.rest = []) : reads utf8 s = s.chop.outcome := by
  refine reads_done ?_
  unfold step
  rw [hs]

theorem chop_limit (h : s.chopLimit = s.result.length) : s.chop = s := by
  unfold chop chopTrailingSpaces
  split_ifs
  · rfl
  · obtain ⟨_, _, _, _, _, result, limit⟩ := s
    obtain rfl : limit = result.length := h
    simp

/-- A byte that is a character of its own. -/
structure Plain (inQuoted : Bool) (c : UInt8) : Prop where
  ascii : c < 0x80
  noEscape : c ≠ byte '\\'
  noQuote : c ≠ byte '"'
  noComma : ¬(c = byte ',' ∧ ¬inQuoted)

variable (utf8) in
theorem step_chunk {c : UInt8} (hs : s.rest = c :: rest) (h : c ≠ byte '\\') (h' : c ≠ byte '"')
    (h'' : ¬(c = byte ',' ∧ ¬s.inQuoted)) : s.step utf8 = .next { s with
      rest := rest.dropWhile fun b => !isStop b
      result := s.result ++ chunkUnits utf8 (c :: rest.takeWhile fun b => !isStop b) } := by
  unfold step
  rw [hs]
  dsimp only
  rw [if_neg h, if_neg h', if_neg h'']

theorem chunkUnits_cons {c : UInt8} (h : c < 0x80) (chunk : Bytes) :
    chunkUnits utf8 (c :: chunk) = c.toNat :: chunkUnits utf8 chunk := by
  unfold chunkUnits
  cases utf8
  · rfl
  · exact encodeUtf16_fromUtf8Lossy_cons h chunk

/-- **A plain byte is read on its own**, though a chunk holds more of them. -/
theorem reads_plain {c : UInt8} (hs : s.rest = c :: rest) (hc : Plain s.inQuoted c) :
    reads utf8 s = reads utf8 { s with rest, result := s.result ++ [c.toNat] } := by
  have hstep := step_chunk utf8 hs hc.noEscape hc.noQuote hc.noComma
  rw [chunkUnits_cons hc.ascii] at hstep
  rw [reads_next hstep]
  have hnil : chunkUnits utf8 [] = [] := by cases utf8 <;> rfl
  cases rest with
  | nil => simp only [List.takeWhile_nil, List.dropWhile_nil, hnil]
  | cons d rest =>
    by_cases hd : isStop d = true
    · rw [List.takeWhile_cons_of_neg (by simpa using hd), List.dropWhile_cons_of_neg (by simpa using hd), hnil]
    · have hplain : d ≠ byte '\\' ∧ d ≠ byte '"' ∧ d ≠ byte ',' := by
        refine ⟨?_, ?_, ?_⟩ <;>
          · rintro rfl
            exact hd (by decide)
      have hlater : step utf8 { s with rest := d :: rest, result := s.result ++ [c.toNat] } = .next _ :=
        step_chunk utf8 rfl hplain.1 hplain.2.1 fun h => hplain.2.2 h.1
      rw [reads_next hlater, List.takeWhile_cons_of_pos (by simpa using hd), List.dropWhile_cons_of_pos (by simpa using hd)]
      simp only [List.append_assoc, List.singleton_append]

variable (utf8) in
theorem step_escape {e : UInt8} (hs : s.rest = byte '\\' :: e :: rest) : s.step utf8 = s.escape e rest := by
  unfold step
  rw [hs]
  rfl

/-- The state after an escape. -/
def escaped (s : Unescape) (unit : Nat) (rest : Bytes) : Unescape :=
  { s with rest, result := s.result ++ [unit], chopLimit := (s.result ++ [unit]).length }

theorem reads_named {e : UInt8} {unit : Nat} (hs : s.rest = byte '\\' :: e :: rest) (he : simpleEscape e = some unit) :
    reads utf8 s = reads utf8 (s.escaped unit rest) := by
  refine reads_next ((step_escape utf8 hs).trans ?_)
  unfold escape
  rw [he]
  rfl

/-- A greedy escape that halts, also at the end of a value. -/
theorem reads_greedy {e : UInt8} {unit start radix : Nat} {more : Bytes} (hs : s.rest = byte '\\' :: e :: more)
    (hescape : s.escape e more = s.greedy start radix more) (hread : greedyDigits radix start more = (unit, rest)) :
    reads utf8 s = reads utf8 (s.escaped unit rest) := by
  have hstep := (step_escape utf8 hs).trans hescape
  unfold greedy at hstep
  simp only [hread] at hstep
  split_ifs at hstep with hempty
  · subst hempty
    rw [reads_done hstep, reads_end rfl, chop_limit rfl]
    rfl
  · rw [reads_next hstep]
    rfl

/-- **A hexadecimal escape is read as its unit.** -/
theorem reads_hex {unit : Nat} (hs : s.rest = hexEscape unit ++ rest) (hunit : unit < 0x10000) (hrest : Halts rest) :
    reads utf8 s = reads utf8 (s.escaped unit rest) := by
  have hdigits : greedyDigits 16 0 (lowerHex unit ++ rest) = (unit, rest) :=
    (greedyDigits_lowerHex hunit rest).trans (greedyDigits_halts (by decide) hrest)
  refine reads_greedy hs ?_ hdigits
  obtain ⟨d, more, hmore⟩ := List.exists_cons_of_ne_nil (lowerHex_ne_nil unit)
  have hd : isAsciiHexdigit d = true := mem_lowerHex (hmore ▸ List.mem_cons_self)
  show s.escape (byte 'x') (lowerHex unit ++ rest) = s.greedy 0 16 (lowerHex unit ++ rest)
  rw [hmore, List.cons_append]
  unfold escape
  rw [show simpleEscape (byte 'x') = none by decide]
  dsimp only
  rw [if_pos rfl, if_pos hd]

theorem reads_nul (hs : s.rest = byte '\\' :: byte '0' :: rest) (hrest : Halts rest) :
    reads utf8 s = reads utf8 (s.escaped 0 rest) := by
  refine reads_greedy hs ?_ (@greedyDigits_halts 8 _ rest (by decide) hrest)
  unfold escape
  rw [show simpleEscape (byte '0') = none by decide]
  dsimp only
  rw [if_neg (by decide), if_pos (by decide)]
  rfl

end Unescape

/-! ## Written text -/

theorem namedEscape_eq_some {unit : Nat} {name : UInt8} (h : namedEscape unit = some name) :
    simpleEscape name = some unit ∧ 0x20 ≤ name ∧ name < 0x7F := by
  unfold namedEscape at h
  split_ifs at h with h₁ h₂ h₃ h₄ h₅ h₆ h₇ h₈
  all_goals cases h
  all_goals try (subst unit; decide)
  obtain rfl | rfl := h₈ <;> decide

theorem namedEscape_eq_none {unit : Nat} (h : namedEscape unit = none) : unit ≠ 0x22 ∧ unit ≠ 0x5C ∧ unit ≠ 0x09 := by
  unfold namedEscape at h
  split_ifs at h
  omega

/-- A unit that is written as it is. -/
structure Shown (unit : Nat) : Prop where
  low : 0x20 ≤ unit
  high : unit < 0x7F
  noQuote : unit ≠ 0x22
  noEscape : unit ≠ 0x5C

theorem shown_of_none {unit : Nat} (h : namedEscape unit = none) (hrange : ¬(unit < 0x20 ∨ 0x7F ≤ unit)) : Shown unit := by
  obtain ⟨hquote, hescape, -⟩ := namedEscape_eq_none h
  exact ⟨by omega, by omega, hquote, hescape⟩

theorem Shown.toNat {unit : Nat} (h : Shown unit) : (UInt8.ofNat unit).toNat = unit := by
  have := h.high
  rw [UInt8.toNat_ofNat']
  omega

theorem byte_ne {unit : Nat} {c : Char} (h : Shown unit) (hne : unit ≠ (byte c).toNat) : UInt8.ofNat unit ≠ byte c := by
  intro heq
  exact hne (h.toNat.symm.trans (congrArg UInt8.toNat heq))

theorem Shown.printable {unit : Nat} (h : Shown unit) : 0x20 ≤ UInt8.ofNat unit ∧ UInt8.ofNat unit < 0x7F := by
  have := h.low
  have := h.high
  rw [UInt8.le_iff_toNat_le, UInt8.lt_iff_toNat_lt, h.toNat]
  exact ⟨by assumption, by assumption⟩

/-- How a unit is written, and what is written after it. -/
inductive WrittenUnit (unit : Nat) : (escapeNext : Bool) → (written : Bytes) → (next : Bool) → Prop
  | hex {escapeNext : Bool} : WrittenUnit unit escapeNext (hexEscape unit) true
  | nul {escapeNext : Bool} : unit = 0 → WrittenUnit unit escapeNext [byte '\\', byte '0'] true
  | named {escapeNext : Bool} {name : UInt8} : namedEscape unit = some name → WrittenUnit unit escapeNext [byte '\\', name] false
  | shown {escapeNext : Bool} : Shown unit → (escapeNext = true → isHexUnit unit = false) →
    WrittenUnit unit escapeNext [UInt8.ofNat unit] false

theorem escapeUnits_cons (escapeNext : Bool) (unit : Nat) (units : List Nat) : ∃ written next,
    WrittenUnit unit escapeNext written next ∧ escapeUnits escapeNext (unit :: units) = written ++ escapeUnits next units := by
  rw [escapeUnits]
  by_cases hhex : escapeNext = true ∧ isHexUnit unit = true
  · rw [if_pos hhex]
    exact ⟨_, _, .hex, rfl⟩
  · rw [if_neg hhex]
    by_cases hzero : unit = 0
    · rw [if_pos hzero]
      exact ⟨_, _, .nul hzero, rfl⟩
    · rw [if_neg hzero]
      cases hname : namedEscape unit with
      | some name => exact ⟨_, _, .named hname, rfl⟩
      | none =>
        dsimp only
        by_cases hrange : unit < 0x20 ∨ 0x7F ≤ unit
        · rw [if_pos hrange]
          exact ⟨_, _, .hex, rfl⟩
        · rw [if_neg hrange]
          exact ⟨_, _, .shown (shown_of_none hname hrange) fun h => by simpa using fun h' => hhex ⟨h, h'⟩, rfl⟩

theorem printable_hexdigit {b : UInt8} (h : isAsciiHexdigit b = true) : 0x20 ≤ b ∧ b < 0x7F := by
  revert h
  exact @forall_byte (fun b => isAsciiHexdigit b = true → 0x20 ≤ b ∧ b < 0x7F) (by decide +kernel) b

theorem WrittenUnit.printable {unit : Nat} {escapeNext next : Bool} {written : Bytes}
    (h : WrittenUnit unit escapeNext written next) : ∀ b ∈ written, 0x20 ≤ b ∧ b < 0x7F := by
  intro b hb
  cases h with
  | hex =>
    unfold hexEscape at hb
    rw [List.mem_cons, List.mem_cons] at hb
    obtain rfl | rfl | hb := hb
    · decide
    · decide
    · exact printable_hexdigit (mem_lowerHex hb)
  | nul =>
    rw [List.mem_cons, List.mem_singleton] at hb
    obtain rfl | rfl := hb <;> decide
  | named hname =>
    rw [List.mem_cons, List.mem_singleton] at hb
    obtain rfl | rfl := hb
    · decide
    · exact (namedEscape_eq_some hname).2
  | shown hshown _ =>
    obtain rfl := List.mem_singleton.mp hb
    exact hshown.printable

theorem printable_escapeUnits {escapeNext : Bool} {units : List Nat} :
    ∀ b ∈ escapeUnits escapeNext units, 0x20 ≤ b ∧ b < 0x7F := by
  induction units generalizing escapeNext with
  | nil =>
    intro b hb
    cases hb
  | cons unit units ih =>
    obtain ⟨written, next, hunit, heq⟩ := escapeUnits_cons escapeNext unit units
    intro b hb
    rw [heq, List.mem_append] at hb
    exact hb.elim (hunit.printable b) (ih b)

theorem WrittenUnit.ne_nil {unit : Nat} {escapeNext next : Bool} {written : Bytes}
    (h : WrittenUnit unit escapeNext written next) : written ≠ [] := by
  cases h <;> exact List.cons_ne_nil _ _

/-- What a unit is written as does not go on a hexadecimal escape. -/
theorem WrittenUnit.halts {unit : Nat} {next : Bool} {written : Bytes} (h : WrittenUnit unit true written next)
    (rest : Bytes) : Halts (written ++ rest) := by
  have hescape : ∀ more, Halts (byte '\\' :: more) := fun more => halts_cons.mpr (by decide)
  cases h with
  | hex => exact hescape _
  | nul => exact hescape _
  | named => exact hescape _
  | shown hshown hhex =>
    refine halts_cons.mpr ?_
    have hhigh := hshown.high
    have hnot := hhex rfl
    unfold isHexUnit isAsciiHexdigit at hnot
    rw [decide_eq_true (by omega : unit < 0x100), Bool.true_and] at hnot
    simpa using hnot

theorem halts_escapeUnits {units : List Nat} {tail : Bytes} (h : Halts tail) : Halts (escapeUnits true units ++ tail) := by
  cases units with
  | nil => exact h
  | cons unit units =>
    obtain ⟨written, next, hunit, heq⟩ := escapeUnits_cons true unit units
    rw [heq, List.append_assoc]
    exact hunit.halts _

namespace Unescape

variable {utf8 : Bool} {s : Unescape} {tail : Bytes}

variable (utf8) in
/-- **A unit is read back from what it is written as.** Only a space of its own can be chopped after it. -/
theorem reads_unit {unit : Nat} {escapeNext next : Bool} {written : Bytes} {units : List Nat}
    (hunit : WrittenUnit unit escapeNext written next) (hs : s.rest = written ++ (escapeUnits next units ++ tail))
    (hlt : unit < 0x10000) (hcomma : s.inQuoted = false → unit ≠ 0x2C) (htail : Halts tail) :
    ∃ limit, reads utf8 s = reads utf8 { s with
        rest := escapeUnits next units ++ tail, result := s.result ++ [unit], chopLimit := limit } ∧
      (isBlank (UInt8.ofNat unit) = true → unit < 0x100 → limit = (s.result ++ [unit]).length ∨ written = [byte ' ']) := by
  cases hunit with
  | hex => exact ⟨_, reads_hex hs hlt (halts_escapeUnits htail), fun _ _ => .inl rfl⟩
  | nul hzero =>
    subst hzero
    exact ⟨_, reads_nul hs (halts_escapeUnits htail), fun _ _ => .inl rfl⟩
  | named hname => exact ⟨_, reads_named hs (namedEscape_eq_some hname).1, fun _ _ => .inl rfl⟩
  | shown hshown _ =>
    have hplain : Plain s.inQuoted (UInt8.ofNat unit) := by
      refine ⟨?_, byte_ne hshown hshown.noEscape, byte_ne hshown hshown.noQuote, ?_⟩
      · exact UInt8.lt_trans hshown.printable.2 (by decide)
      · rintro ⟨heq, hquoted⟩
        exact byte_ne (c := ',') hshown (hcomma (by simpa using hquoted)) heq
    refine ⟨s.chopLimit, ?_, fun hblank _ => .inr ?_⟩
    · rw [reads_plain hs hplain, hshown.toNat]
      rfl
    · unfold isBlank at hblank
      have hne : UInt8.ofNat unit ≠ 0x09 := by
        intro heq
        have := hshown.low
        have := hshown.toNat.symm.trans (congrArg UInt8.toNat heq)
        simp at this
        omega
      rw [Bool.or_eq_true, beq_iff_eq, beq_iff_eq] at hblank
      rw [hblank.resolve_right hne]
      rfl

variable (utf8) in
/-- **Written units are read back.** What is chopped of them where they end is a space that ends what is written. -/
theorem reads_escapeUnits {units : List Nat} {escapeNext : Bool} (hs : s.rest = escapeUnits escapeNext units ++ tail)
    (hlt : ∀ unit ∈ units, unit < 0x10000) (hcomma : s.inQuoted = false → 0x2C ∉ units) (htail : Halts tail) :
    ∃ limit, reads utf8 s = reads utf8 { s with rest := tail, result := s.result ++ units, chopLimit := limit } ∧
      (units = [] → limit = s.chopLimit) ∧
      ∀ unit, units.getLast? = some unit → isBlank (UInt8.ofNat unit) = true → unit < 0x100 →
        limit = (s.result ++ units).length ∨ (escapeUnits escapeNext units).getLast? = some (byte ' ') := by
  induction units generalizing s escapeNext with
  | nil =>
    refine ⟨s.chopLimit, ?_, fun _ => rfl, fun unit h => by cases h⟩
    rw [List.append_nil]
    obtain rfl : s.rest = tail := hs
    rfl
  | cons unit units ih =>
    obtain ⟨written, next, hunit, heq⟩ := escapeUnits_cons escapeNext unit units
    rw [heq, List.append_assoc] at hs
    obtain ⟨first, hfirst, hblank⟩ := reads_unit utf8 hunit hs (hlt unit List.mem_cons_self)
      (fun h heq => hcomma h (heq ▸ List.mem_cons_self)) htail
    obtain ⟨limit, hlater, hempty, hlast⟩ := ih (s := { s with
      rest := escapeUnits next units ++ tail, result := s.result ++ [unit], chopLimit := first }) rfl
      (fun u hu => hlt u (List.mem_cons_of_mem _ hu)) fun h hm => hcomma h (List.mem_cons_of_mem _ hm)
    have hresult : s.result ++ [unit] ++ units = s.result ++ unit :: units := by simp
    rw [hresult] at hlater hlast
    refine ⟨limit, hfirst.trans hlater, fun h => absurd h (List.cons_ne_nil unit units), fun u hu hu' hu'' => ?_⟩
    rw [heq]
    cases units with
    | nil =>
      obtain rfl := hempty rfl
      obtain rfl : unit = u := Option.some.inj hu
      refine (hblank hu' hu'').imp_right fun h => ?_
      rw [h]
      rfl
    | cons v units =>
      rw [List.getLast?_cons_cons] at hu
      refine (hlast u hu hu' hu'').imp_right fun h => ?_
      rw [List.getLast?_append, h, Option.some_or]

/-- Nothing is chopped of text that ends in no blank, nor of what an escape ends. -/
theorem chop_eq_self (h : ∀ unit, (s.result.drop s.chopLimit).getLast? = some unit → ¬(unit = 0x20 ∨ unit = 0x09)) :
    s.chop = s := by
  unfold chop chopTrailingSpaces
  split_ifs
  · rfl
  · have hkeep : (s.result.drop s.chopLimit).rdropWhile (fun u => u == 0x20 || u == 0x09) = s.result.drop s.chopLimit := by
      rw [List.rdropWhile_eq_self_iff]
      intro hne hblank
      refine h _ (List.getLast?_eq_some_getLast hne) ?_
      simpa using hblank
    rw [hkeep, List.take_append_drop]

variable (utf8) in
theorem step_quote (hs : s.rest = byte '"' :: tail) : s.step utf8 = .next (s.quote tail) := by
  unfold step
  rw [hs]
  dsimp only
  rw [if_neg (by decide), if_pos rfl]

variable (utf8) in
theorem step_comma (hs : s.rest = byte ',' :: tail) (hquoted : s.inQuoted = false) :
    s.step utf8 = .next (s.comma tail) := by
  unfold step
  rw [hs]
  dsimp only
  rw [if_neg (by decide), if_neg (by decide), if_pos ⟨rfl, by rw [hquoted]; exact Bool.false_ne_true⟩]

/-- What follows an element: nothing, or the next one. -/
def Ends (tail : Bytes) : Prop := ∀ b ∈ tail.head?, b = byte ','

theorem Ends.halts (h : Ends tail) : Halts tail := by
  intro b hb
  rw [h b hb]
  decide

theorem Ends.skip (h : Ends tail) : tail.dropWhile isBlank = tail := by
  cases tail with
  | nil => rfl
  | cons b tail =>
    obtain rfl := h b rfl
    rfl

/-- A state that an element of the value is read from. -/
structure Fresh (s : Unescape) : Prop where
  inQuoted : s.inQuoted = false
  currentQuoted : s.currentQuoted = false
  result : s.result = []
  chopLimit : s.chopLimit = 0

/-- Before the units of an element are ended. -/
structure Element (s : Unescape) (units : List Nat) (tail : Bytes) (s' : Unescape) : Prop where
  rest : s'.rest = tail
  isList : s'.isList = s.isList
  list : s'.list = s.list
  inQuoted : s'.inQuoted = false
  result : s'.result = units
  chop : s'.chop = s'

theorem no_comma {units : List Nat} (h : units.any isSeparatorUnit = false) : 0x2C ∉ units := by
  intro hm
  exact List.any_eq_false.mp h _ hm (by decide)

variable (utf8) in
/-- **Written text is read back**, whatever it needs to be quoted for. -/
theorem reads_escapeString {text : Text} (hs : s.rest = escapeString text ++ tail) (hfresh : Fresh s) (htail : Ends tail) :
    ∃ s', reads utf8 s = reads utf8 s' ∧ Element s (encodeUtf16 text) tail s' := by
  have hlt : ∀ unit ∈ encodeUtf16 text, unit < 0x10000 := fun _ => encodeUtf16_lt
  unfold escapeString at hs
  dsimp only at hs
  split_ifs at hs with hquotes
  · -- The quotes are read around the units, and what they hold is not chopped.
    have hopened : s.rest = byte '"' :: (escapeUnits false (encodeUtf16 text) ++ (byte '"' :: tail)) := by
      rw [hs]
      simp
    have hquote : s.quote (escapeUnits false (encodeUtf16 text) ++ (byte '"' :: tail)) =
        { s with
          rest := escapeUnits false (encodeUtf16 text) ++ (byte '"' :: tail), currentQuoted := true, inQuoted := true } := by
      unfold quote
      rw [hfresh.inQuoted]
      rfl
    have hopen := step_quote utf8 hopened
    rw [hquote] at hopen
    have hhalts : Halts (byte '"' :: tail) := halts_cons.mpr (by decide)
    obtain ⟨limit, hunits, -⟩ := reads_escapeUnits utf8
      (s := { s with
        rest := escapeUnits false (encodeUtf16 text) ++ (byte '"' :: tail), currentQuoted := true, inQuoted := true })
      rfl hlt (fun h => by cases h) hhalts
    refine ⟨_, ((reads_next hopen).trans hunits).trans (reads_next (step_quote utf8 rfl)), ?_, rfl, rfl, rfl, ?_, rfl⟩
    · exact htail.skip
    · show s.result ++ encodeUtf16 text = _
      rw [hfresh.result, List.nil_append]
  · rw [not_or, not_or] at hquotes
    obtain ⟨hsafe, -, hends⟩ := hquotes
    have hcomma : 0x2C ∉ encodeUtf16 text := no_comma (by simpa using hsafe)
    obtain ⟨limit, hunits, hempty, hlast⟩ := reads_escapeUnits utf8 hs hlt (fun _ => hcomma) htail.halts
    rw [hfresh.result, List.nil_append] at hunits hlast
    refine ⟨_, hunits, rfl, rfl, rfl, hfresh.inQuoted, rfl, chop_eq_self fun unit hunit hblank => ?_⟩
    dsimp only at hunit
    have hshort : limit < (encodeUtf16 text).length := by
      by_contra hlong
      rw [List.drop_eq_nil_of_le (by omega)] at hunit
      cases hunit
    have hunit : (encodeUtf16 text).getLast? = some unit := by
      rw [← hunit, List.getLast?_drop, if_neg (by omega)]
    have := hlast unit hunit (by obtain rfl | rfl := hblank <;> decide) (by omega)
    exact this.elim (fun h => absurd h (by omega)) hends

/-! ## Written lists -/

/-- What is written of an element begins with no blank. -/
theorem skip_escapeString (text : Text) (htail : Ends tail) :
    (escapeString text ++ tail).dropWhile isBlank = escapeString text ++ tail := by
  have hkeep : ∀ b more, isBlank b = false → (b :: more).dropWhile isBlank = b :: more := fun b more h =>
    List.dropWhile_cons_of_neg (by rw [h]; exact Bool.false_ne_true)
  unfold escapeString
  dsimp only
  split_ifs with hquotes
  · exact hkeep _ _ (by decide)
  · rw [not_or, not_or] at hquotes
    cases hwritten : escapeUnits false (encodeUtf16 text) with
    | nil => exact htail.skip
    | cons b written =>
      refine hkeep _ _ ?_
      have hspace : b ≠ byte ' ' := by
        rintro rfl
        exact hquotes.2.1 (by rw [hwritten]; rfl)
      have htab : b ≠ 0x09 := by
        rintro rfl
        exact absurd (printable_escapeUnits 0x09 (by rw [hwritten]; exact List.mem_cons_self)).1 (by decide)
      unfold isBlank
      rw [Bool.or_eq_false_iff, beq_eq_false_iff_ne, beq_eq_false_iff_ne]
      exact ⟨hspace, htab⟩

/-- What is written of the elements of a list. -/
def writtenElements (texts : List Text) : Bytes := (bytes [',', ' ']).intercalate (texts.map escapeString)

theorem writtenElements_singleton (text : Text) : writtenElements [text] = escapeString text := by
  simp [writtenElements]

theorem writtenElements_cons (text next : Text) (texts : List Text) :
    writtenElements (text :: next :: texts) = escapeString text ++ (byte ',' :: byte ' ' :: writtenElements (next :: texts)) := by
  simp [writtenElements, bytes, List.intercalate]

theorem skip_writtenElements (text : Text) (texts : List Text) :
    (writtenElements (text :: texts)).dropWhile isBlank = writtenElements (text :: texts) := by
  cases texts with
  | nil =>
    have hends : Ends [] := fun b h => by cases h
    have := skip_escapeString text hends
    rwa [List.append_nil, ← writtenElements_singleton] at this
  | cons next texts =>
    rw [writtenElements_cons]
    exact skip_escapeString text fun b h => (Option.some.inj h).symm

variable (utf8) in
/-- **The elements of a written list are read back.** -/
theorem reads_elements {text : Text} {texts : List Text} (hs : s.rest = writtenElements (text :: texts)) (hfresh : Fresh s) :
    reads utf8 s = if s.isList ∨ texts ≠ [] then .list (s.list ++ (text :: texts).map encodeUtf16)
      else .single (encodeUtf16 text) := by
  induction texts generalizing s text with
  | nil =>
    rw [writtenElements_singleton, ← List.append_nil (escapeString text)] at hs
    obtain ⟨s', hreads, helement⟩ := reads_escapeString utf8 hs hfresh fun b h => by cases h
    rw [hreads, reads_end helement.rest, helement.chop]
    unfold outcome
    rw [helement.isList, helement.list, helement.result]
    simp
  | cons next texts ih =>
    rw [writtenElements_cons] at hs
    obtain ⟨s', hreads, helement⟩ := reads_escapeString utf8 hs hfresh fun b h => (Option.some.inj h).symm
    have hstep := step_comma utf8 helement.rest helement.inQuoted
    have hcomma : (s'.comma (byte ' ' :: writtenElements (next :: texts))).rest = writtenElements (next :: texts) := by
      show (byte ' ' :: writtenElements (next :: texts)).dropWhile isBlank = _
      rw [List.dropWhile_cons_of_pos (by decide), skip_writtenElements]
    have hlist : (s'.comma (byte ' ' :: writtenElements (next :: texts))).list = s.list ++ [encodeUtf16 text] := by
      show s'.list ++ [s'.chop.result] = _
      rw [helement.chop, helement.list, helement.result]
    have hquoted : (s'.comma (byte ' ' :: writtenElements (next :: texts))).inQuoted = false := by
      show s'.chop.inQuoted = false
      rw [helement.chop, helement.inQuoted]
    rw [hreads, reads_next hstep, ih hcomma ⟨hquoted, rfl, rfl, rfl⟩, if_pos (.inl rfl), hlist, if_pos (.inr (by simp))]
    simp

end Unescape

/-- A value's text is read back from what it is written as, and so are the texts of a list. -/
theorem unescapeValue_written (text : Text) (texts : List Text) (utf8 : Bool) :
    unescapeValue (Unescape.writtenElements (text :: texts)) utf8 =
      if texts = [] then .single (encodeUtf16 text) else .list ((text :: texts).map encodeUtf16) := by
  have hstart : (Unescape.start (Unescape.writtenElements (text :: texts))).rest = Unescape.writtenElements (text :: texts) :=
    Unescape.skip_writtenElements text texts
  refine (Unescape.reads_elements utf8 hstart ⟨rfl, rfl, rfl, rfl⟩).trans ?_
  by_cases hone : texts = []
  · rw [if_pos hone, if_neg]
    rintro (h | h)
    · cases h
    · exact h hone
  · rw [if_neg hone, if_pos (.inr hone)]
    rfl

end Cao.Ini
