import Cao.Ini.Kept
import Cao.Ini.Scan

/-!
# A written file is read back

What the reader records of the lines that a save writes (`cao_profiles::ini`).

* `OpenName`, `keptKey`: what the lines of a key lose; **`readLine_entryLine`**, **`readLine_sectionHeader`**: the lines found;
* `PrefixOf`, **`sectionPrefix_sectionHeader`**, **`merged_spec`**: the prefix that a section gives its keys back;
* `ReadBack`, `recorded`, **`recorded_entryLine`**, **`recorded_sectionBytes`**: what a line, and a section, record;
* `grouped`, **`records_serialize`**: a save writes each entry once, and each is read back once, in the order of its section.
-/

namespace Cao.Ini

variable {tables : CaseTables}

/-! ## Keys and their sections -/

theorem splitOnce_eq_none {c : Char} {s : Text} : splitOnce c s = none ↔ c ∉ s := by
  induction s with
  | nil => simp [splitOnce]
  | cons x s ih =>
    unfold splitOnce
    by_cases hx : x = c
    · simp [hx]
    · rw [if_neg hx, Option.map_eq_none_iff, ih, List.mem_cons, not_or]
      exact ⟨fun h => ⟨Ne.symm hx, h⟩, And.right⟩

theorem splitOnce_eq_some {c : Char} {s before after : Text} (h : splitOnce c s = some (before, after)) :
    s = before ++ c :: after ∧ c ∉ before := by
  induction s generalizing before with
  | nil => cases h
  | cons x s ih =>
    unfold splitOnce at h
    by_cases hx : x = c
    · rw [if_pos hx] at h
      cases h
      exact ⟨by rw [hx]; rfl, List.not_mem_nil⟩
    · rw [if_neg hx] at h
      obtain ⟨⟨before', after'⟩, hsplit, heq⟩ := Option.map_eq_some_iff.mp h
      cases heq
      obtain ⟨rfl, hnot⟩ := ih hsplit
      refine ⟨rfl, ?_⟩
      rw [List.mem_cons, not_or]
      exact ⟨Ne.symm hx, hnot⟩

/-- How a key divides into its section and its name. -/
theorem key_divides (key : Text) : '/' ∉ sectionOf key ∧
    (sectionOf key = [] ∧ nameOf key = key ∧ '/' ∉ key ∨ key = sectionOf key ++ '/' :: nameOf key) := by
  unfold sectionOf nameOf
  cases hsplit : splitOnce '/' key with
  | none => exact ⟨List.not_mem_nil, .inl ⟨rfl, rfl, splitOnce_eq_none.mp hsplit⟩⟩
  | some p =>
    obtain ⟨hkey, hnot⟩ := splitOnce_eq_some hsplit
    exact ⟨hnot, .inr hkey⟩

/-- A key's name that ends its line's key in a `\` that escapes the `=`. -/
def OpenName (name : Text) : Prop := endRun '/' name % 2 = 1

instance (name : Text) : Decidable (OpenName name) := inferInstanceAs (Decidable (_ = _))

/-- The key that is read back: a `/` that a key begins with is not written. -/
def keptKey (key : Text) : Text := if key.head? = some '/' then key.tail else key

/-! ## A line -/

theorem readLine_of_run {data text rest : Bytes} {equals : Option Nat} (hspace : data.dropWhile isSpace = data)
    (hrun : LineScan.loop.run ⟨[], none, false, data⟩ = ⟨text, equals, false, rest⟩) (hne : text ≠ []) :
    readLine data = (some ⟨text, equals⟩, rest) := by
  unfold readLine
  rw [hspace, hrun]
  dsimp only
  rw [if_neg hne]

theorem readLine_nil : readLine [] = (none, []) := rfl

theorem readLine_crlf (data : Bytes) : readLine (crlf ++ data) = readLine data := by
  unfold readLine
  rw [show (crlf ++ data).dropWhile isSpace = data.dropWhile isSpace from rfl]

/-- **The line of an entry is found**, with its `=` unless the key's end escapes it. -/
theorem readLine_entryLine (entry : Entry) (rest : Bytes) : readLine (entryLine entry ++ (crlf ++ rest)) =
    (some ⟨entryLine entry, if OpenName (nameOf entry.key) then none else some (escapeKey (nameOf entry.key)).length⟩,
      crlf ++ rest) := by
  have hkey : ∀ b ∈ escapeKey (nameOf entry.key), KeyByte b := fun _ => mem_escapeKey
  have hopen : LineScan.opened (escapeKey (nameOf entry.key)) = true ↔ OpenName (nameOf entry.key) := by
    rw [LineScan.opened_iff, endRun_escapeKey]
    rfl
  have hline : entryLine entry ++ (crlf ++ rest) =
      escapeKey (nameOf entry.key) ++ byte '=' :: (writeValue entry.value ++ (crlf ++ rest)) := by
    unfold entryLine
    simp
  have htext : escapeKey (nameOf entry.key) ++ [byte '='] ++ writeValue entry.value = entryLine entry := by
    unfold entryLine
    simp
  have hne : entryLine entry ≠ [] := by
    unfold entryLine
    exact List.append_ne_nil_of_right_ne_nil _ (List.cons_ne_nil _ _)
  have hvalue : ∀ equals, LineScan.loop.run ⟨escapeKey (nameOf entry.key) ++ [byte '='], equals, false,
      writeValue entry.value ++ (crlf ++ rest)⟩ = ⟨entryLine entry, equals, false, crlf ++ rest⟩ := by
    intro equals
    rw [LineScan.scans_writeValue entry.value _ equals _ (List.append_ne_nil_of_right_ne_nil _ (List.cons_ne_nil _ _)), htext]
    exact LineScan.run_newline rfl hne rfl
  refine readLine_of_run ?_ ?_ hne
  · rw [hline]
    cases hwritten : escapeKey (nameOf entry.key) with
    | nil => rfl
    | cons b w =>
      rw [hwritten] at hkey
      exact List.dropWhile_cons_of_neg (by rw [(hkey b List.mem_cons_self).noSpace]; exact Bool.false_ne_true)
  · rw [hline, LineScan.run_key hkey]
    by_cases hname : OpenName (nameOf entry.key)
    · rw [if_pos (hopen.mpr hname), if_pos hname]
      exact hvalue none
    · rw [if_neg fun h => hname (hopen.mp h), if_neg hname]
      exact (LineScan.run_equals rfl).trans (hvalue _)

/-- A header that opens and closes, and holds nothing else that ends a line. -/
theorem sectionHeader_shape {group : Text} (h : '/' ∉ group) : ∃ name : Bytes,
    sectionHeader group = byte '[' :: name ++ [byte ']'] ∧ (∀ b ∈ name, KeyByte b ∧ isSpecial b = false) := by
  have hplain : ∀ b ∈ escapeKey group, KeyByte b ∧ isSpecial b = false := by
    intro b hb
    refine ⟨mem_escapeKey hb, ?_⟩
    have hne : b ≠ byte '\\' := fun heq => noEscape_of_noSlash h (heq ▸ hb)
    simpa using fun hspecial => hne ((mem_escapeKey hb).special hspecial)
  have hletters : ∀ b : UInt8, isKeyByte b = true → isSpecial b = false → KeyByte b ∧ isSpecial b = false :=
    fun b hkey hspecial => ⟨keyByte_of_isKeyByte hkey, hspecial⟩
  unfold sectionHeader
  dsimp only
  split_ifs
  · refine ⟨bytes "General".toList, rfl, fun b hb => ?_⟩
    exact hletters b (forall_of_all (P := fun b => isKeyByte b = true) (by decide) b hb)
      (forall_of_all (P := fun b => isSpecial b = false) (by decide) b hb)
  · refine ⟨bytes "%General".toList, rfl, fun b hb => ?_⟩
    exact hletters b (forall_of_all (P := fun b => isKeyByte b = true) (by decide) b hb)
      (forall_of_all (P := fun b => isSpecial b = false) (by decide) b hb)
  · exact ⟨escapeKey group, rfl, hplain⟩

/-- **The line of a section's header is found.** -/
theorem readLine_sectionHeader {group : Text} (h : '/' ∉ group) (rest : Bytes) :
    readLine (sectionHeader group ++ (crlf ++ rest)) = (some ⟨sectionHeader group, none⟩, crlf ++ rest) := by
  obtain ⟨name, hheader, hname⟩ := sectionHeader_shape h
  have hscan : LineScan.Scans false (name ++ [byte ']']) false := by
    refine LineScan.scans_plain fun b hb => ?_
    rw [List.mem_append, List.mem_singleton] at hb
    obtain hb | rfl := hb
    · exact (hname b hb).2
    · decide
  rw [hheader]
  refine readLine_of_run rfl ?_ (List.cons_ne_nil _ _)
  refine (LineScan.run_plain (c := byte '[') rfl (by decide) fun _ => by decide).trans ?_
  have hrun := hscan [byte '['] none (crlf ++ rest) (List.cons_ne_nil _ _)
  refine Eq.trans ?_ (hrun.trans (LineScan.run_newline rfl (List.cons_ne_nil _ _) rfl))
  simp

/-! ## Sections -/

/-- A `general` in any case is written as its ASCII. -/
theorem bytes_of_escapeKey {key : Text} (h : ∀ b ∈ escapeKey key, b ≠ byte '%' ∧ b ≠ byte '\\') :
    escapeKey key = bytes key ∧ ∀ c ∈ key, c.toNat < 0x80 := by
  induction key with
  | nil => exact ⟨rfl, fun c hc => by cases hc⟩
  | cons c key ih =>
    have hcons : escapeKey (c :: key) = (CodePoint.char c).units.flatMap escapeKeyUnit ++ escapeKey key := by
      unfold escapeKey
      rw [encodeUtf16_cons, List.flatMap_append]
    rw [hcons] at h ⊢
    obtain ⟨unit, units, hunits⟩ := List.exists_cons_of_ne_nil (units_ne_nil (.char c))
    have hbytes : ∀ b ∈ escapeKeyUnit unit, b ≠ byte '%' ∧ b ≠ byte '\\' := by
      intro b hb
      refine h b (List.mem_append_left _ ?_)
      rw [hunits, List.flatMap_cons]
      exact List.mem_append_left _ hb
    have hplain : unit < 0x80 ∧ escapeKeyUnit unit = [UInt8.ofNat unit] := by
      unfold escapeKeyUnit at hbytes ⊢
      split_ifs at hbytes ⊢ with hslash hplain hlatin
      · exact absurd rfl (hbytes _ List.mem_cons_self).2
      · refine ⟨?_, rfl⟩
        unfold isPlainUnit at hplain
        simp only [Bool.and_eq_true, decide_eq_true_eq] at hplain
        have hlow := (byteClasses.2.1 _ hplain.2).1
        rw [UInt8.lt_iff_toNat_lt, UInt8.toNat_ofNat', Nat.mod_eq_of_lt (by omega)] at hlow
        exact hlow
      · exact absurd rfl (hbytes _ List.mem_cons_self).1
      · exact absurd rfl (hbytes _ List.mem_cons_self).1
    obtain ⟨hc, hone⟩ := units_eq_of_ascii hplain.1 (hunits ▸ List.mem_cons_self)
    obtain ⟨hrest, hlow⟩ := ih fun b hb => h b (List.mem_append_right _ hb)
    rw [hone, List.flatMap_cons, List.flatMap_nil, List.append_nil, hplain.2, hrest]
    refine ⟨by rw [← hc]; rfl, fun d hd => ?_⟩
    obtain rfl | hd := List.mem_cons.mp hd
    · exact hc ▸ hplain.1
    · exact hlow d hd

/-- `[u8]::eq_ignore_ascii_case`'s lowercase. -/
def lowerByte (x : UInt8) : UInt8 := if 0x41 ≤ x ∧ x ≤ 0x5A then x + 0x20 else x

theorem eqIgnoreAsciiCase_iff (a b : Bytes) : eqIgnoreAsciiCase a b = true ↔ a.map lowerByte = b.map lowerByte := beq_iff_eq

theorem lowerByte_byte : ∀ n < 0x80, (lowerByte (byte (Char.ofNat n))).toNat = (Char.ofNat n).toLower.toNat := by
  decide

/-- **A section that is written as `General` is one in any case.** -/
theorem lower_general {group : Text} (h : eqIgnoreAsciiCase (escapeKey group) (bytes generalName) = true) :
    toLowercase tables group = toLowercase tables "General".toList := by
  rw [eqIgnoreAsciiCase_iff] at h
  have hletters : ∀ b ∈ escapeKey group, b ≠ byte '%' ∧ b ≠ byte '\\' := by
    intro b hb
    have hmem : lowerByte b ∈ (bytes generalName).map lowerByte := h ▸ List.mem_map_of_mem hb
    constructor <;>
      · rintro rfl
        exact absurd hmem (by decide)
  obtain ⟨hbytes, hlow⟩ := bytes_of_escapeKey hletters
  have hlower : group.map Char.toLower = generalName := by
    have hnat : ∀ (s t : Text), (∀ c ∈ s, c.toNat < 0x80) → (∀ c ∈ t, c.toNat < 0x80) →
        (bytes s).map lowerByte = (bytes t).map lowerByte → s.map Char.toLower = t.map Char.toLower := by
      intro s t hs ht heq
      have hof : ∀ s : Text, (∀ c ∈ s, c.toNat < 0x80) →
          ((bytes s).map lowerByte).map UInt8.toNat = (s.map Char.toLower).map Char.toNat := by
        intro s hs
        unfold bytes
        rw [List.map_map, List.map_map, List.map_map]
        refine List.map_congr_left fun c hc => ?_
        have := lowerByte_byte c.toNat (hs c hc)
        rwa [Char.ofNat_toNat] at this
      have hmap := congrArg (List.map UInt8.toNat) heq
      rw [hof s hs, hof t ht] at hmap
      exact List.map_injective_iff.mpr (fun c d h => Char.toNat_inj.mp h) hmap
    rw [hbytes] at h
    exact hnat group generalName hlow (forall_of_all (by decide)) h
  rw [toLowercase_ascii hlow, hlower, toLowercase_ascii (forall_of_all (by decide))]
  decide

theorem escapeKey_eq_nil {key : Text} : escapeKey key = [] ↔ key = [] := by
  constructor
  · intro h
    have := congrArg unescapeKey h
    rwa [unescapeKey_escapeKey] at this
  · rintro rfl
    rfl

/-- No written name is taken for that of `[%General]`. -/
theorem not_percentGeneral (key : Text) : eqIgnoreAsciiCase (escapeKey key) (bytes "%general".toList) = false := by
  have hhead : ∀ b, lowerByte b = byte '%' → b = byte '%' :=
    @forall_byte (fun b => lowerByte b = byte '%' → b = byte '%') (by decide +kernel)
  have hsecond : ∀ b, lowerByte b = byte 'g' → isAsciiHexdigit b = false :=
    @forall_byte (fun b => lowerByte b = byte 'g' → isAsciiHexdigit b = false) (by decide +kernel)
  have hright : (bytes "%general".toList).map lowerByte = byte '%' :: byte 'g' :: bytes "eneral".toList := by decide
  rw [Bool.eq_false_iff, Ne, eqIgnoreAsciiCase_iff, hright]
  intro h
  unfold escapeKey at h
  cases hunits : encodeUtf16 key with
  | nil =>
    rw [hunits] at h
    cases h
  | cons unit units =>
    rw [hunits, List.flatMap_cons] at h
    unfold escapeKeyUnit at h
    split_ifs at h with hslash hplain hlatin
    · rw [List.singleton_append, List.map_cons, List.cons.injEq] at h
      exact absurd h.1 (by decide)
    · rw [List.singleton_append, List.map_cons, List.cons.injEq] at h
      unfold isPlainUnit at hplain
      rw [hhead _ h.1, Bool.and_eq_true] at hplain
      exact absurd hplain.2 (by decide)
    · obtain ⟨b, w, hw⟩ := List.exists_cons_of_length_eq_add_one (length_upperHex 2 unit)
      rw [hw, List.cons_append, List.cons_append, List.map_cons, List.map_cons, List.cons.injEq, List.cons.injEq] at h
      have hb : isAsciiHexdigit b = true := mem_upperHex (hw ▸ List.mem_cons_self)
      rw [hsecond b h.2.1] at hb
      cases hb
    · rw [List.cons_append, List.cons_append, List.map_cons, List.map_cons, List.cons.injEq, List.cons.injEq] at h
      exact absurd h.2.1 (by decide)

/-- A prefix that keys of a section are read back under. -/
def PrefixOf (tables : CaseTables) (group p : Text) : Prop :=
  if group = [] then p = [] else ∃ name, p = name ++ ['/'] ∧ toLowercase tables name = toLowercase tables group

theorem trimAscii_eq_self {b : Bytes} (h : ∀ x ∈ b, isAsciiWhitespace x = false) : trimAscii b = b := by
  unfold trimAscii
  have hdrop : b.dropWhile isAsciiWhitespace = b := by
    cases b with
    | nil => rfl
    | cons x b => exact List.dropWhile_cons_of_neg (by rw [h x List.mem_cons_self]; exact Bool.false_ne_true)
  rw [hdrop, List.rdropWhile_eq_self_iff]
  intro hne
  rw [h _ (List.getLast_mem hne)]
  exact Bool.false_ne_true

/-- **A written section gives its keys their prefix back.** -/
theorem sectionPrefix_sectionHeader (tables : CaseTables) {group : Text} (h : '/' ∉ group) :
    PrefixOf tables group (sectionPrefix (sectionName (sectionHeader group))) := by
  unfold PrefixOf
  by_cases hempty : group = []
  · subst hempty
    rw [if_pos rfl]
    decide +kernel
  · have hwritten : escapeKey group ≠ [] := fun heq => hempty (escapeKey_eq_nil.mp heq)
    rw [if_neg hempty]
    unfold sectionHeader
    dsimp only
    rw [if_neg hwritten]
    by_cases hgeneral : eqIgnoreAsciiCase (escapeKey group) (bytes generalName) = true
    · rw [if_pos hgeneral]
      exact ⟨"General".toList, by decide +kernel, (lower_general hgeneral).symm⟩
    · rw [if_neg hgeneral]
      have hname : sectionName (byte '[' :: escapeKey group ++ [byte ']']) = escapeKey group := by
        have hkeep : ∀ b ∈ escapeKey group, (b != byte ']') = true := fun b hb => by
          simpa using (mem_escapeKey hb).noClosing
        unfold sectionName
        rw [List.cons_append, List.drop_succ_cons, List.drop_zero, List.takeWhile_append_of_pos hkeep]
        simp
      have htrim : trimAscii (escapeKey group) = escapeKey group := trimAscii_eq_self fun b hb => (mem_escapeKey hb).whitespace
      rw [hname]
      have hother : ¬eqIgnoreAsciiCase (escapeKey group) (bytes "general".toList) = true := hgeneral
      unfold sectionPrefix
      dsimp only
      rw [htrim, if_neg hother, not_percentGeneral, if_neg Bool.false_ne_true, unescapeKey_escapeKey]
      exact ⟨group, rfl, rfl⟩

/-- A prefix of keys: none, or one that a `/` ends. -/
def IsPrefix (p : Text) : Prop := p = [] ∨ ∃ name, p = name ++ ['/']

theorem PrefixOf.isPrefix {group p : Text} (h : PrefixOf tables group p) : IsPrefix p := by
  unfold PrefixOf at h
  split_ifs at h
  · exact .inl h
  · obtain ⟨name, hname, -⟩ := h
    exact .inr ⟨name, hname⟩

theorem PrefixOf.congr {group p seen : Text} (h : PrefixOf tables group p) (hseen : IsPrefix seen)
    (hlower : toLowercase tables seen = toLowercase tables p) : PrefixOf tables group seen := by
  have hends : ∀ name, toLowercase tables (name ++ ['/']) = toLowercase tables name ++ ['/'] := fun name =>
    toLowercase_slash name []
  have hne : ∀ name, toLowercase tables (name ++ ['/']) ≠ toLowercase tables [] := fun name heq => by
    rw [hends] at heq
    exact List.append_ne_nil_of_right_ne_nil _ (List.cons_ne_nil _ _) heq
  unfold PrefixOf at h ⊢
  split_ifs at h ⊢ with hgroup
  · subst h
    obtain rfl | ⟨name, rfl⟩ := hseen
    · rfl
    · exact absurd hlower (hne name)
  · obtain ⟨name, rfl, hname⟩ := h
    obtain rfl | ⟨name', rfl⟩ := hseen
    · exact absurd hlower.symm (hne name)
    · rw [hends, hends, List.append_left_inj] at hlower
      exact ⟨name', rfl, hlower.trans hname⟩

/-- **A section's first spelling is still its prefix.** -/
theorem merged_spec {spellings : List Text} {group p : Text} (hspellings : ∀ seen ∈ spellings, IsPrefix seen)
    (hp : PrefixOf tables group p) : PrefixOf tables group (merged tables spellings p).1 ∧
      ∀ seen ∈ (merged tables spellings p).2, IsPrefix seen := by
  unfold merged
  cases hfind : spellings.find? fun seen => toLowercase tables seen == toLowercase tables p with
  | none =>
    refine ⟨hp, fun seen hseen => ?_⟩
    rw [List.mem_append, List.mem_singleton] at hseen
    obtain hseen | rfl := hseen
    · exact hspellings seen hseen
    · exact hp.isPrefix
  | some seen =>
    have hlower := List.find?_some hfind
    rw [beq_iff_eq] at hlower
    exact ⟨hp.congr (hspellings seen (List.mem_of_find?_eq_some hfind)) hlower, hspellings⟩

/-- **A key is read back under its section's prefix.** -/
theorem lower_prefixed {key p : Text} (hp : PrefixOf tables (sectionOf key) p) :
    toLowercase tables (p ++ nameOf key) = toLowercase tables (keptKey key) := by
  obtain ⟨hsection, hdivides⟩ := key_divides key
  unfold PrefixOf at hp
  unfold keptKey
  obtain ⟨hempty, hname, hslash⟩ | hkey := hdivides
  · rw [if_pos hempty] at hp
    have hhead : key.head? ≠ some '/' := fun h => hslash (List.mem_of_mem_head? h)
    rw [hp, hname, if_neg hhead, List.nil_append]
  · by_cases hempty : sectionOf key = []
    · rw [if_pos hempty] at hp
      rw [hempty, List.nil_append] at hkey
      rw [hp, hkey, List.nil_append, List.head?_cons, if_pos rfl, List.tail_cons, ← hkey]
    · rw [if_neg hempty] at hp
      obtain ⟨name, rfl, hlower⟩ := hp
      have hhead : key.head? ≠ some '/' := by
        intro h
        rw [hkey, List.head?_append_of_ne_nil _ hempty] at h
        exact hsection (List.mem_of_mem_head? h)
      rw [if_neg hhead, List.append_assoc, List.singleton_append, toLowercase_slash, hlower, ← toLowercase_slash, ← hkey]

/-! ## The records of a written file -/

/-- What an entry's line records where it is read back. -/
inductive ReadBack (tables : CaseTables) (entry : Entry) : Record → Prop
  | assign {key : Text} {v : Value} : ¬OpenName (nameOf entry.key) →
    toLowercase tables key = toLowercase tables (keptKey entry.key) → (entry.value.Written → v = entry.value.kept) →
    ReadBack tables entry (.assign key v)
  | error {line : Nat} : OpenName (nameOf entry.key) → ReadBack tables entry (.error line .missingEquals)

section Runs

variable {data : Bytes} {utf8 : Bool} {s : Reader (List Record)} {p : Text} {spellings : List Text} {out : List Record}
  {rest : Bytes}

variable (tables data utf8) in
/-- What is recorded from a state on. -/
def recorded (s : Reader (List Record)) : List Record :=
  (Reader.loop tables (fun out record => out ++ [record]) data utf8).run s

variable (tables data utf8 s) in
theorem recorded_next {line : Line} (h : readLine s.rest = (some line, rest)) : recorded tables data utf8 s =
    recorded tables data utf8 (s.readLine tables (fun out record => out ++ [record]) data utf8 line rest) := by
  have hstep : s.step tables (fun out record => out ++ [record]) data utf8 =
      .next (s.readLine tables (fun out record => out ++ [record]) data utf8 line rest) := by
    unfold Reader.step
    rw [h]
  exact @Loop.run_next _ _ (Reader.loop tables (fun out record => out ++ [record]) data utf8) _ _ hstep

theorem recorded_done (h : readLine s.rest = (none, rest)) : recorded tables data utf8 s = s.out := by
  have hstep : s.step tables (fun out record => out ++ [record]) data utf8 = .done s.out := by
    unfold Reader.step
    rw [h]
  exact @Loop.run_done _ _ (Reader.loop tables (fun out record => out ++ [record]) data utf8) _ _ hstep

theorem recorded_crlf : recorded tables data utf8 ⟨crlf ++ rest, p, spellings, out⟩ =
    recorded tables data utf8 ⟨rest, p, spellings, out⟩ := by
  cases hline : readLine rest with
  | mk line after =>
    cases line with
    | none => rw [recorded_done ((readLine_crlf rest).trans hline), recorded_done hline]
    | some line =>
      exact (recorded_next tables data utf8 ⟨crlf ++ rest, p, spellings, out⟩ ((readLine_crlf rest).trans hline)).trans
        (recorded_next tables data utf8 ⟨rest, p, spellings, out⟩ hline).symm

theorem head_entryLine (entry : Entry) {b : UInt8} (h : (entryLine entry).head? = some b) :
    b ≠ byte '[' ∧ b ≠ byte ';' := by
  unfold entryLine at h
  cases hkey : escapeKey (nameOf entry.key) with
  | nil =>
    rw [hkey] at h
    obtain rfl := Option.some.inj h
    decide
  | cons c w =>
    rw [hkey] at h
    obtain rfl := Option.some.inj h
    have hc : KeyByte c := mem_escapeKey (hkey ▸ List.mem_cons_self)
    exact ⟨hc.noOpening, hc.noSemicolon⟩

variable (data utf8 spellings out rest) in
/-- **An entry's line is read back.** -/
theorem recorded_entryLine {entry : Entry} (hp : PrefixOf tables (sectionOf entry.key) p) :
    ∃ record, ReadBack tables entry record ∧
      recorded tables data utf8 ⟨entryLine entry ++ (crlf ++ rest), p, spellings, out⟩ =
        recorded tables data utf8 ⟨rest, p, spellings, out ++ [record]⟩ := by
  have hhead : (entryLine entry).head? ≠ some (byte '[') := fun h => (head_entryLine entry h).1 rfl
  have hcomment : (entryLine entry).head? ≠ some (byte ';') := fun h => (head_entryLine entry h).2 rfl
  have hnext := recorded_next tables data utf8 ⟨entryLine entry ++ (crlf ++ rest), p, spellings, out⟩ (readLine_entryLine entry rest)
  unfold Reader.readLine at hnext
  rw [if_neg hhead] at hnext
  by_cases hopen : OpenName (nameOf entry.key)
  · rw [if_pos hopen] at hnext
    dsimp only at hnext
    rw [if_neg hcomment, recorded_crlf] at hnext
    exact ⟨_, .error hopen, hnext⟩
  · rw [if_neg hopen] at hnext
    dsimp only at hnext
    have hkey : keyBytes (entryLine entry) (escapeKey (nameOf entry.key)).length = escapeKey (nameOf entry.key) := by
      unfold keyBytes entryLine
      rw [List.take_left, List.rdropWhile_eq_self_iff]
      intro hne
      rw [(mem_escapeKey (List.getLast_mem hne)).noBlank]
      exact Bool.false_ne_true
    have hvalue : (entryLine entry).drop ((escapeKey (nameOf entry.key)).length + 1) = writeValue entry.value := by
      unfold entryLine
      rw [List.drop_length_add_append]
      rfl
    rw [hkey, hvalue, unescapeKey_escapeKey, recorded_crlf] at hnext
    exact ⟨_, .assign hopen (lower_prefixed hp) fun hwritten => readValue_writeValue hwritten utf8, hnext⟩

variable (data utf8 spellings out rest) in
/-- What is read of a section's entries. -/
theorem recorded_entryLines {group : Text} {entries : List Entry}
    (hsection : ∀ entry ∈ entries, sectionOf entry.key = group) (hp : PrefixOf tables group p) :
    ∃ records, List.Forall₂ (ReadBack tables) entries records ∧
      recorded tables data utf8 ⟨(entries.map entryLine).flatMap (· ++ crlf) ++ rest, p, spellings, out⟩ =
        recorded tables data utf8 ⟨rest, p, spellings, out ++ records⟩ := by
  induction entries generalizing out with
  | nil => exact ⟨[], .nil, by rw [List.append_nil]; rfl⟩
  | cons entry entries ih =>
    have hentry : PrefixOf tables (sectionOf entry.key) p := (hsection entry List.mem_cons_self).symm ▸ hp
    obtain ⟨record, hback, hread⟩ := recorded_entryLine data utf8 spellings out
      ((entries.map entryLine).flatMap (· ++ crlf) ++ rest) hentry
    obtain ⟨records, hbacks, hreads⟩ := ih (out ++ [record]) fun e he => hsection e (List.mem_cons_of_mem _ he)
    refine ⟨record :: records, .cons hback hbacks, ?_⟩
    rw [List.map_cons, List.flatMap_cons, List.append_assoc, List.append_assoc, hread, hreads, List.append_assoc]
    rfl

variable (data utf8 p out rest) in
/-- **What is read of a section.** -/
theorem recorded_sectionBytes {group : Text × List Entry} (hslash : '/' ∉ group.1) (hsection : ∀ entry ∈ group.2, sectionOf entry.key = group.1)
    (hspellings : ∀ seen ∈ spellings, IsPrefix seen) :
    ∃ records p' spellings', List.Forall₂ (ReadBack tables) group.2 records ∧ (∀ seen ∈ spellings', IsPrefix seen) ∧
      recorded tables data utf8 ⟨sectionBytes group ++ rest, p, spellings, out⟩ =
        recorded tables data utf8 ⟨rest, p', spellings', out ++ records⟩ := by
  have hbytes : sectionBytes group ++ rest =
      sectionHeader group.1 ++ (crlf ++ ((group.2.map entryLine).flatMap (· ++ crlf) ++ rest)) := by
    unfold sectionBytes sectionLines
    simp
  obtain ⟨name, hheader, -⟩ := sectionHeader_shape hslash
  have hhead : (sectionHeader group.1).head? = some (byte '[') := by rw [hheader]; rfl
  have hclosed : byte ']' ∈ sectionHeader group.1 := by rw [hheader]; simp
  obtain ⟨hp, hmerged⟩ := merged_spec hspellings (sectionPrefix_sectionHeader tables hslash)
  have hnext := recorded_next tables data utf8
    (⟨sectionHeader group.1 ++ (crlf ++ ((group.2.map entryLine).flatMap (· ++ crlf) ++ rest)), p, spellings, out⟩)
    (readLine_sectionHeader hslash _)
  unfold Reader.readLine at hnext
  dsimp only at hnext
  rw [if_pos hhead, if_pos hclosed, recorded_crlf] at hnext
  obtain ⟨records, hbacks, hreads⟩ := recorded_entryLines data utf8
    (merged tables spellings (sectionPrefix (sectionName (sectionHeader group.1)))).2 out rest hsection hp
  refine ⟨records, _, _, hbacks, hmerged, Eq.trans ?_ (hnext.trans hreads)⟩
  rw [hbytes]

variable (data utf8 p out) in
/-- What is read of sections, a blank line between them. -/
theorem recorded_sections {groups : List (Text × List Entry)}
    (hgroups : ∀ group ∈ groups, '/' ∉ group.1 ∧ ∀ entry ∈ group.2, sectionOf entry.key = group.1)
    (hspellings : ∀ seen ∈ spellings, IsPrefix seen) :
    ∃ records, List.Forall₂ (ReadBack tables) (groups.flatMap Prod.snd) records ∧
      recorded tables data utf8 ⟨crlf.intercalate (groups.map sectionBytes), p, spellings, out⟩ = out ++ records := by
  induction groups generalizing p spellings out with
  | nil => exact ⟨[], .nil, (recorded_done (readLine_nil)).trans (List.append_nil out).symm⟩
  | cons group groups ih =>
    have hgroup := hgroups group List.mem_cons_self
    have hrest : ∃ rest : Bytes, crlf.intercalate ((group :: groups).map sectionBytes) = sectionBytes group ++ rest ∧
        ∀ p spellings out, recorded tables data utf8 ⟨rest, p, spellings, out⟩ =
          recorded tables data utf8 ⟨crlf.intercalate (groups.map sectionBytes), p, spellings, out⟩ := by
      cases groups with
      | nil => exact ⟨[], by simp, fun _ _ _ => rfl⟩
      | cons next groups =>
        exact ⟨crlf ++ crlf.intercalate ((next :: groups).map sectionBytes), by simp, fun _ _ _ => recorded_crlf⟩
    obtain ⟨rest, hbytes, hskip⟩ := hrest
    obtain ⟨records, p', spellings', hbacks, hspellings', hread⟩ := recorded_sectionBytes data utf8 p out rest
      hgroup.1 hgroup.2 hspellings
    obtain ⟨records', hbacks', hread'⟩ := ih p' (out ++ records)
      (fun group hm => hgroups group (List.mem_cons_of_mem _ hm)) hspellings'
    refine ⟨records ++ records', ?_, ?_⟩
    · rw [List.flatMap_cons]
      exact List.rel_append hbacks hbacks'
    · rw [hbytes, hread, hskip, hread', List.append_assoc]

end Runs

/-! ## The sections of a file -/

/-- Entries in the order that a save writes them in. -/
def grouped (entries : List Entry) : List Entry := (sections entries).flatMap Prod.snd

theorem addToSection_perm (group : Text) (entry : Entry) (found : List (Text × List Entry)) :
    ((addToSection group entry found).flatMap Prod.snd).Perm (found.flatMap Prod.snd ++ [entry]) := by
  induction found with
  | nil => exact .refl _
  | cons head found ih =>
    obtain ⟨name, entries⟩ := head
    unfold addToSection
    split_ifs
    · simp only [List.flatMap_cons, List.append_assoc]
      exact (List.perm_append_comm).append_left entries
    · simp only [List.flatMap_cons, List.append_assoc]
      exact ih.append_left entries

theorem mem_addToSection {group : Text} {entry : Entry} {found : List (Text × List Entry)} {head : Text × List Entry}
    (h : head ∈ addToSection group entry found) :
    (head.1 = group ∨ ∃ head' ∈ found, head'.1 = head.1) ∧
      ∀ e ∈ head.2, e = entry ∧ head.1 = group ∨ ∃ head' ∈ found, head'.1 = head.1 ∧ e ∈ head'.2 := by
  induction found with
  | nil =>
    obtain rfl := List.mem_singleton.mp h
    exact ⟨.inl rfl, fun e he => .inl ⟨List.mem_singleton.mp he, rfl⟩⟩
  | cons first found ih =>
    obtain ⟨name, entries⟩ := first
    unfold addToSection at h
    split_ifs at h with hname
    · obtain rfl | h := List.mem_cons.mp h
      · refine ⟨.inl hname, fun e he => ?_⟩
        rw [List.mem_append, List.mem_singleton] at he
        obtain he | rfl := he
        · exact .inr ⟨_, List.mem_cons_self, rfl, he⟩
        · exact .inl ⟨rfl, hname⟩
      · exact ⟨.inr ⟨head, List.mem_cons_of_mem _ h, rfl⟩, fun e he => .inr ⟨head, List.mem_cons_of_mem _ h, rfl, he⟩⟩
    · obtain rfl | h := List.mem_cons.mp h
      · exact ⟨.inr ⟨_, List.mem_cons_self, rfl⟩, fun e he => .inr ⟨_, List.mem_cons_self, rfl, he⟩⟩
      · obtain ⟨hgroup, hentries⟩ := ih h
        refine ⟨hgroup.imp_right ?_, fun e he => (hentries e he).imp_right ?_⟩
        · rintro ⟨head', hm, heq⟩
          exact ⟨head', List.mem_cons_of_mem _ hm, heq⟩
        · rintro ⟨head', hm, heq⟩
          exact ⟨head', List.mem_cons_of_mem _ hm, heq⟩

theorem sections_concat (entries : List Entry) (entry : Entry) :
    sections (entries ++ [entry]) = addToSection (sectionOf entry.key) entry (sections entries) := by
  unfold sections
  rw [List.foldl_append]
  rfl

/-- **A save writes every entry once.** -/
theorem grouped_perm (entries : List Entry) : (grouped entries).Perm entries := by
  induction entries using List.reverseRecOn with
  | nil => exact .refl _
  | append_singleton entries entry ih =>
    unfold grouped at ih ⊢
    rw [sections_concat]
    exact (addToSection_perm _ _ _).trans (ih.append_right [entry])

/-- A section's name has no `/`, and its entries' keys are in it. -/
theorem mem_sections {entries : List Entry} {group : Text × List Entry} (h : group ∈ sections entries) :
    '/' ∉ group.1 ∧ ∀ entry ∈ group.2, sectionOf entry.key = group.1 := by
  induction entries using List.reverseRecOn generalizing group with
  | nil => cases h
  | append_singleton entries entry ih =>
    rw [sections_concat] at h
    obtain ⟨hname, hentries⟩ := mem_addToSection h
    constructor
    · obtain hname | ⟨head', hm, heq⟩ := hname
      · rw [hname]
        exact (key_divides entry.key).1
      · rw [← heq]
        exact (ih hm).1
    · intro e he
      obtain ⟨rfl, hgroup⟩ | ⟨head', hm, heq, he'⟩ := hentries e he
      · exact hgroup.symm
      · rw [← heq]
        exact (ih hm).2 e he'

/-! ## A written file -/

/-- **What the lines of a written file record**: each entry once, in the order of its section. -/
theorem records_serialize (ini : IniFile tables) :
    List.Forall₂ (ReadBack tables) (grouped ini.entries) (records tables (serialize ini)) := by
  have hgroups : ∀ group ∈ sections ini.entries, '/' ∉ group.1 ∧ ∀ entry ∈ group.2, sectionOf entry.key = group.1 :=
    fun group => mem_sections
  have hbom : utf8Bom.isPrefixOf (serialize ini) = false := by
    unfold serialize
    cases hsections : sections ini.entries with
    | nil => rfl
    | cons group groups =>
      have hslash := (hgroups group (hsections ▸ List.mem_cons_self)).1
      obtain ⟨name, hheader, -⟩ := sectionHeader_shape hslash
      have hhead : ∃ w, crlf.intercalate ((group :: groups).map sectionBytes) = byte '[' :: w := by
        have hsection : ∃ w, sectionBytes group = byte '[' :: w := by
          unfold sectionBytes sectionLines
          rw [hheader]
          exact ⟨_, rfl⟩
        obtain ⟨w, hw⟩ := hsection
        cases groups with
        | nil => exact ⟨w, by simp [hw]⟩
        | cons next groups => exact ⟨_, by rw [List.map_cons, List.map_cons, List.intercalate_cons_cons, hw]; rfl⟩
      obtain ⟨w, hw⟩ := hhead
      rw [hw]
      rfl
  have hnone : ∀ seen ∈ ([] : List Text), IsPrefix seen := fun _ h => by cases h
  obtain ⟨read, hbacks, hread⟩ := recorded_sections (serialize ini) (isUtf8 (serialize ini)) [] []
    hgroups hnone
  have hrecords : records tables (serialize ini) = read := by
    unfold records readWith
    rw [hbom, if_neg Bool.false_ne_true]
    exact hread
  rw [hrecords]
  exact hbacks

end Cao.Ini