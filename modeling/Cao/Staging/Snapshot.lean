import Cao.Staging.Confine

/-!
# The reader undoes the writer

On a list the reader admits, `parse_manifest` reads back what `publish_manifest` formats.

* `escapeByte`, **`quotedField_quoted`**: a quoted field, for any text;
* **`number_decimal`**: a count;
* `parseHeader_snapshot`, `parseRecords_snapshot`: the two halves of a snapshot;
* **`parse_snapshot`**, **`published_none_iff`**: the round trip and the common limits.
-/

namespace Cao

/-! ## Quoted fields -/

/-- A byte inside a quoted field. -/
def escapeByte (b : UInt8) : Bytes := if b = 34 ∨ b = 92 then [92, b] else [b]

theorem escapeByte_high {b : UInt8} (h : 128 ≤ b.toNat) : escapeByte b = [b] := by
  unfold escapeByte
  rw [if_neg]
  rintro (rfl | rfl) <;> exact absurd h (by decide)

/-- Escaping characters escapes their bytes. -/
theorem utf8_escapeChar (c : Char) : utf8 (escapeChar c) = (String.utf8EncodeChar c).flatMap escapeByte := by
  by_cases hc : c.val.toNat < 128
  · have hval : ∀ d : Char, UInt8.ofNat c.val.toNat = UInt8.ofNat d.val.toNat → d.val.toNat < 128 →
        c = d := fun d he hd => by
      have h : (UInt8.ofNat c.val.toNat).toNat = (UInt8.ofNat d.val.toNat).toNat := by rw [he]
      simp only [UInt8.toNat_ofNat'] at h
      exact Char.ext (UInt32.toNat_inj.mp (by omega))
    rw [utf8EncodeChar_ascii hc, List.flatMap_singleton]
    unfold escapeChar escapeByte
    by_cases hs : c = '"' ∨ c = '\\'
    · rcases hs with rfl | rfl <;> decide
    · rw [if_neg hs, if_neg fun h => hs ?_]
      · rw [utf8_cons, utf8_nil, List.append_nil, utf8EncodeChar_ascii hc]
      · exact h.imp (fun h => hval '"' h (by decide)) fun h => hval '\\' h (by decide)
  · have hs : ¬ (c = '"' ∨ c = '\\') := by rintro (rfl | rfl) <;> exact hc (by decide)
    have hflat : ∀ l : Bytes, (∀ b ∈ l, 128 ≤ b.toNat) → l.flatMap escapeByte = l := by
      intro l hl
      induction l with
      | nil => rfl
      | cons b l ih =>
        rw [List.flatMap_cons, escapeByte_high (hl b List.mem_cons_self),
          ih fun b hb => hl b (List.mem_cons_of_mem _ hb)]
        rfl
    rw [hflat _ (utf8EncodeChar_high (by omega)), escapeChar, if_neg hs]
    simp

theorem utf8_flatMap_escape (t : Text) : utf8 (t.flatMap escapeChar) = (utf8 t).flatMap escapeByte := by
  induction t with
  | nil => rfl
  | cons c t ih => rw [List.flatMap_cons, utf8_append, ih, utf8_escapeChar, utf8_cons, List.flatMap_append]

theorem utf8_quoted (t : Text) : utf8 (quoted t) = 34 :: ((utf8 t).flatMap escapeByte ++ [34]) := by
  unfold quoted
  rw [utf8_cons, utf8_append, utf8_flatMap_escape]
  rfl

/-- The reader's loop takes back the escapes. -/
theorem quotedRest_escape (bytes rest : Bytes) :
    Fields.quotedRest (bytes.flatMap escapeByte ++ 34 :: rest) = some (bytes, rest) := by
  induction bytes with
  | nil => exact Fields.quotedRest_quote rest
  | cons b bytes ih =>
    rw [List.flatMap_cons, List.append_assoc]
    by_cases hb : b = 34 ∨ b = 92
    · rw [show escapeByte b = [92, b] from if_pos hb, List.cons_append, List.cons_append,
        List.nil_append, Fields.quotedRest_backslash, ih]
      rfl
    · rw [show escapeByte b = [b] from if_neg hb, List.cons_append, List.nil_append]
      rw [not_or] at hb
      rw [Fields.quotedRest_plain hb.1 hb.2, ih]
      rfl

theorem skipWhitespace_cons {b : UInt8} (h : Fields.isCSpace b = true) (rest : Bytes) :
    Fields.skipWhitespace (b :: rest) = Fields.skipWhitespace rest := by
  simp [Fields.skipWhitespace, h]

theorem skipWhitespace_of_not {b : UInt8} (h : Fields.isCSpace b = false) (rest : Bytes) :
    Fields.skipWhitespace (b :: rest) = b :: rest := by
  simp [Fields.skipWhitespace, h]

/-- **A quoted field reads back as the text's bytes**, after one separator. -/
theorem quotedField_quoted {b : UInt8} (h : Fields.isCSpace b = true) (t : Text) (rest : Bytes) :
    Fields.quotedField (b :: (utf8 (quoted t) ++ rest)) = some (utf8 t, rest) := by
  unfold Fields.quotedField
  rw [skipWhitespace_cons h, utf8_quoted, List.cons_append, skipWhitespace_of_not (by decide),
    List.append_assoc, List.singleton_append]
  exact quotedRest_escape _ _

/-! ## Numbers -/

theorem ofDigitChars_ge (ds : Text) (value : Nat) : value ≤ Nat.ofDigitChars 10 ds value := by
  induction ds generalizing value with
  | nil => simp
  | cons c ds ih =>
    rw [Nat.ofDigitChars_cons]
    exact Nat.le_trans (by omega) (ih _)

theorem isDigit_byte {c : Char} (h : c.isDigit = true) : ∃ b : UInt8, String.utf8EncodeChar c = [b] ∧
    Fields.isDigit b = true ∧ b.toNat - 48 = c.toNat - '0'.toNat := by
  have hc : 48 ≤ c.val.toNat ∧ c.val.toNat ≤ 57 := by
    simp only [Char.isDigit, Bool.and_eq_true, decide_eq_true_eq, UInt32.le_iff_toNat_le] at h
    exact h
  refine ⟨_, utf8EncodeChar_ascii (by omega), ?_, ?_⟩
  · simp only [Fields.isDigit, Bool.and_eq_true, decide_eq_true_eq, UInt8.le_iff_toNat_le,
      UInt8.toNat_ofNat']
    have h48 : (48 : UInt8).toNat = 48 := rfl
    have h57 : (57 : UInt8).toNat = 57 := rfl
    omega
  · have h0 : '0'.toNat = 48 := rfl
    have hn : c.toNat = c.val.toNat := rfl
    rw [UInt8.toNat_ofNat', h0, hn]
    omega

/-- The digits the reader takes, from `value`: the number they write, unless it overflows. -/
theorem digits_append {ds : Text} (hd : ∀ c ∈ ds, c.isDigit = true) {b : UInt8}
    (hb : Fields.isDigit b = false) (rest : Bytes) {value : Nat} (hv : value < 2 ^ 64) :
    Fields.digits (utf8 ds ++ b :: rest) value =
      if Nat.ofDigitChars 10 ds value < 2 ^ 64 then some (Nat.ofDigitChars 10 ds value, b :: rest)
      else none := by
  induction ds generalizing value with
  | nil =>
    rw [Nat.ofDigitChars_nil, if_pos hv]
    simp [Fields.digits, hb]
  | cons c ds ih =>
    obtain ⟨d, hc, hdig, hval⟩ := isDigit_byte (hd c List.mem_cons_self)
    have hge := ofDigitChars_ge ds (10 * value + (c.toNat - '0'.toNat))
    rw [utf8_cons, hc, List.cons_append, List.nil_append, List.cons_append, Fields.digits,
      if_pos hdig, Nat.ofDigitChars_cons, hval]
    simp only [Fields.checkedU64]
    by_cases h10 : value * 10 < 2 ^ 64
    · simp only [if_pos h10, Option.bind_eq_bind, Option.bind_some]
      by_cases hsum : value * 10 + (c.toNat - '0'.toNat) < 2 ^ 64
      · simp only [if_pos hsum, Option.bind_some]
        rw [Nat.mul_comm value 10] at hsum ⊢
        exact ih (fun c hc => hd c (List.mem_cons_of_mem _ hc)) hsum
      · rw [if_neg hsum, if_neg (by omega)]
        rfl
    · rw [if_neg h10, if_neg (by omega)]
      rfl

/-- **A count reads back**, unless it overflows. -/
theorem number_decimal {b : UInt8} (hs : Fields.isCSpace b = true) {e : UInt8}
    (he : Fields.isDigit e = false) (n : Nat) (rest : Bytes) :
    Fields.number (b :: (utf8 (decimal n) ++ e :: rest)) =
      if n < 2 ^ 64 then some (n, e :: rest) else none := by
  have hdigits : ∀ c ∈ decimal n, c.isDigit = true := fun c hc =>
    Nat.isDigit_of_mem_toDigits (by decide) (by decide) hc
  have hof : Nat.ofDigitChars 10 (decimal n) 0 = n := Nat.ofDigitChars_ten_toDigits
  obtain ⟨c, ds, hds⟩ := List.exists_cons_of_ne_nil (show decimal n ≠ [] from Nat.toDigits_ne_nil)
  obtain ⟨d, hc, hdig, -⟩ := isDigit_byte (hdigits c (by simp [hds]))
  have hfirst : utf8 (decimal n) = d :: utf8 ds := by rw [hds, utf8_cons, hc]; rfl
  have hspace : Fields.isCSpace d = false ∧ d ≠ 43 := by
    simp only [Fields.isDigit, Bool.and_eq_true, decide_eq_true_eq, UInt8.le_iff_toNat_le] at hdig
    have h48 : (48 : UInt8).toNat = 48 := rfl
    have hne : ∀ k : UInt8, k.toNat < 48 → d ≠ k := by rintro k hk rfl; omega
    simp only [Fields.isCSpace, Bool.or_eq_false_iff, beq_eq_false_iff_ne]
    exact ⟨⟨⟨⟨⟨⟨hne _ (by decide), hne _ (by decide)⟩, hne _ (by decide)⟩, hne _ (by decide)⟩,
      hne _ (by decide)⟩, hne _ (by decide)⟩, hne _ (by decide)⟩
  have hskip : Fields.skipWhitespace (b :: (utf8 (decimal n) ++ e :: rest)) =
      utf8 (decimal n) ++ e :: rest := by
    rw [skipWhitespace_cons hs, hfirst, List.cons_append, skipWhitespace_of_not hspace.1]
  have hhead : (utf8 (decimal n) ++ e :: rest).head? = some d := by rw [hfirst]; rfl
  unfold Fields.number
  simp only [hskip, hhead, Option.some.injEq, if_neg hspace.2, Option.any_some, hdig, if_true]
  rw [digits_append hdigits he rest (by decide), hof]

/-! ## Snapshots -/

variable {root runId child : Text} {l : List Artifact} {header : Header}

theorem utf8_recordText (a : Artifact) : utf8 (recordText a) =
    UInt8.ofNat (recordKind a).toNat :: 32 :: (utf8 (quoted a.relative) ++ [10]) := by
  have hkind : ∀ c ∈ ['S', 'D', 'F'], String.utf8EncodeChar c = [UInt8.ofNat c.toNat] :=
    forall_of_all (by decide)
  have hmem : recordKind a ∈ ['S', 'D', 'F'] := by
    unfold recordKind
    split_ifs <;> simp
  unfold recordText
  rw [utf8_cons, utf8_cons, utf8_append, hkind _ hmem]
  rfl

/-- A record's letter reads back. -/
theorem byte_recordKind (a : Artifact) (rest : Bytes) :
    Fields.byte (10 :: UInt8.ofNat (recordKind a).toNat :: rest) =
      (some (UInt8.ofNat (recordKind a).toNat), rest) := by
  unfold Fields.byte
  have hspace : Fields.isCSpace (UInt8.ofNat (recordKind a).toNat) = false := by
    unfold recordKind
    split_ifs <;> decide
  rw [skipWhitespace_cons (by decide), skipWhitespace_of_not hspace]

/-- **The record loop reads back admitted records**, from the newline before them to the last. -/
theorem parseRecords_snapshot {index : Nat} {records : Records} (h : AdmittedFrom header index records l) :
    parseRecords header (fun _ => false) l.length index records (10 :: utf8 (l.flatMap recordText)) =
      .ok (records.pushAll l, [10]) := by
  induction l generalizing index records with
  | nil => rfl
  | cons a l ih =>
    have hrec : parseRecord header index records (10 :: utf8 ((a :: l).flatMap recordText)) =
        .ok (records.push a, 10 :: utf8 (l.flatMap recordText)) := by
      refine parseRecord_iff.mpr ⟨a, 32 :: (utf8 (quoted a.relative) ++
        10 :: utf8 (l.flatMap recordText)), ?_, quotedField_quoted (by decide) _ _, h.1, rfl⟩
      rw [List.flatMap_cons, utf8_append, utf8_recordText, List.cons_append, List.cons_append,
        List.append_assoc, List.singleton_append]
      exact byte_recordKind a _
    rw [List.length_cons, parseRecords]
    exact parse_bind_ok.mpr ⟨(), require_eq_ok.mpr rfl, parse_bind_ok.mpr ⟨_, hrec, ih h.2⟩⟩

theorem token_signature (rest : Bytes) : Fields.token (utf8 "CAO-STAGING".toList ++ 32 :: rest) =
    some (utf8 "CAO-STAGING".toList, 32 :: rest) := by
  have hbytes : utf8 "CAO-STAGING".toList = [67, 65, 79, 45, 83, 84, 65, 71, 73, 78, 71] := by decide
  rw [hbytes]
  rfl

/-- What stands before the count of a snapshot. -/
theorem parseHeader_snapshot (hc : IsRunChild runId child) (n : Nat) (rest : Bytes) :
    parseHeader (utf8 ("CAO-STAGING 3\n".toList ++ quoted root ++ ['\n'] ++ quoted runId ++ [' '] ++
      quoted child ++ ['\n'] ++ decimal n ++ ['\n']) ++ rest) root =
      if 1 ≤ n ∧ n ≤ registrationLimit then .ok (⟨3, runId, child, n⟩, 10 :: rest)
      else .error invalidCount := by
  have htext : utf8 ("CAO-STAGING 3\n".toList ++ quoted root ++ ['\n'] ++ quoted runId ++ [' '] ++
      quoted child ++ ['\n'] ++ decimal n ++ ['\n']) ++ rest = utf8 "CAO-STAGING".toList ++ 32 ::
        ([51] ++ 10 :: (utf8 (quoted root) ++ 10 :: (utf8 (quoted runId) ++
          32 :: (utf8 (quoted child) ++ 10 :: (utf8 (decimal n) ++ 10 :: rest))))) := by
    simp only [utf8_append, List.append_assoc]
    rfl
  have hversion : ∀ rest : Bytes, Fields.number (32 :: ([51] ++ 10 :: rest)) = some (3, 10 :: rest) := by
    intro rest
    rfl
  have hmatch : matchesRunId runId child = true := matchesRunId_iff.mpr hc.2
  rw [htext, parseHeader, token_signature]
  simp only [okOr, require, hversion, quotedField_quoted (show Fields.isCSpace 10 = true by decide),
    quotedField_quoted (show Fields.isCSpace 32 = true by decide), hc.1, fromUtf8_utf8, hmatch,
    number_decimal (show Fields.isCSpace 10 = true by decide) (show Fields.isDigit 10 = false by decide),
    bind, Except.bind, pure, Except.pure]
  simp only [if_true, Nat.le_refl, and_self, show 1 ≤ 3 from by decide]
  -- past the limit the reader refuses the count, whether or not it overflows
  by_cases hn : n < 2 ^ 64
  · simp only [if_pos hn]
    split_ifs <;> rfl
  · have hbig : ¬ (1 ≤ n ∧ n ≤ registrationLimit) := by
      unfold registrationLimit
      omega
    rw [if_neg hn, if_neg hbig]

/-- A snapshot, as its header and its records. -/
theorem manifestBytes_eq (root runId child : Text) (l : List Artifact) :
    manifestBytes root runId child l = utf8 ("CAO-STAGING 3\n".toList ++ quoted root ++ ['\n'] ++
      quoted runId ++ [' '] ++ quoted child ++ ['\n'] ++ decimal l.length ++ ['\n']) ++
        utf8 (l.flatMap recordText) := utf8_append _ _

/-- The refusal of the reader's own limits: the byte limit of `read_manifest` and the entry limit of
`parse_manifest`. -/
def LimitRefused (root : Text) (bytes : Bytes) : Prop :=
  bytes.length > manifestByteLimit ∨
    parseManifest bytes root (fun _ => false) = .error invalidCount

/-- The lists a run may register: the run child first, and every record admitted after those before
it. -/
def WellFormed (runId child : Text) (l : List Artifact) : Prop :=
  IsRunChild runId child ∧ l ≠ [] ∧ AdmittedFrom ⟨3, runId, child, l.length⟩ 0 ⟨[], [], []⟩ l

/-- **The round trip**: within the entry limit the reader returns the list the writer was given. -/
theorem parse_snapshot (h : WellFormed runId child l) (hl : l.length ≤ registrationLimit) :
    parseManifest (manifestBytes root runId child l) root (fun _ => false) = .ok ⟨3, l⟩ := by
  obtain ⟨hc, hne, had⟩ := h
  have hpos := List.length_pos_iff.mpr hne
  rw [manifestBytes_eq]
  refine parse_bind_ok.mpr ⟨(⟨3, runId, child, l.length⟩, 10 :: utf8 (l.flatMap recordText)), ?_,
    parse_bind_ok.mpr ⟨(Records.pushAll ⟨[], [], []⟩ l, [10]), parseRecords_snapshot had,
      parse_bind_ok.mpr ⟨(), require_eq_ok.mpr (by decide), ?_⟩⟩⟩
  · rw [parseHeader_snapshot hc, if_pos ⟨hpos, hl⟩]
  · simp [pure, Except.pure]

/-- Past the entry limit the reader refuses the count. -/
theorem parse_snapshot_limit (hc : IsRunChild runId child) (hl : registrationLimit < l.length) :
    parseManifest (manifestBytes root runId child l) root (fun _ => false) = .error invalidCount := by
  rw [manifestBytes_eq, parseManifest, parseHeader_snapshot hc, if_neg (by omega)]
  rfl

/-- **The writer refuses what the reader's limits would refuse.** -/
theorem published_none_iff (h : WellFormed runId child l) :
    publishedBytes root runId child l = none ↔ LimitRefused root (manifestBytes root runId child l) := by
  unfold publishedBytes LimitRefused
  by_cases hl : l.length ≤ registrationLimit
  · have hok : parseManifest (manifestBytes root runId child l) root (fun _ => false) = .ok ⟨3, l⟩ :=
      parse_snapshot h hl
    simp only [hok, reduceCtorEq, or_false, not_lt.mpr hl, gt_iff_lt]
    split_ifs <;> simp [*]
  · have herr : parseManifest (manifestBytes root runId child l) root (fun _ => false) =
        .error invalidCount := parse_snapshot_limit h.1 (not_le.mp hl)
    simp [herr, not_le.mp hl]

theorem published_some (h : WellFormed runId child l) {bytes : Bytes}
    (hp : publishedBytes root runId child l = some bytes) :
    bytes = manifestBytes root runId child l ∧ bytes.length ≤ manifestByteLimit ∧
      parseManifest bytes root (fun _ => false) = .ok ⟨3, l⟩ := by
  unfold publishedBytes at hp
  simp only at hp
  split_ifs at hp with hlimit
  cases hp
  rw [not_or, not_lt, not_lt] at hlimit
  exact ⟨rfl, hlimit.1, parse_snapshot h hlimit.2⟩

/-! ## What a snapshot can be read as -/

/-- A sibling record is no directory. -/
def FileSiblings (l : List Artifact) : Prop := ∀ a ∈ l, a.rootRelative = true → a.directory = false

/-- A record's letter gives its flags. -/
theorem recordKind_injOn {a b : Artifact} (ha : a.rootRelative = true → a.directory = false)
    (hb : b.rootRelative = true → b.directory = false)
    (h : UInt8.ofNat (recordKind a).toNat = UInt8.ofNat (recordKind b).toNat) :
    a.directory = b.directory ∧ a.rootRelative = b.rootRelative := by
  obtain ⟨_, da, ra⟩ := a
  obtain ⟨_, db, rb⟩ := b
  have hall : ∀ da ra db rb : Bool, (ra = true → da = false) → (rb = true → db = false) →
      UInt8.ofNat (if ra then 'S' else if da then 'D' else 'F').toNat =
        UInt8.ofNat (if rb then 'S' else if db then 'D' else 'F').toNat → da = db ∧ ra = rb := by decide
  exact hall da ra db rb ha hb h

/-- The record loop reads back no other records. -/
theorem parseRecords_reads {stop : Nat → Bool} {index : Nat} {records records' : Records} {rest : Bytes}
    (hf : FileSiblings l) (h : parseRecords header stop l.length index records
      (10 :: utf8 (l.flatMap recordText)) = .ok (records', rest)) : records' = records.pushAll l := by
  induction l generalizing index records with
  | nil =>
    cases h
    rfl
  | cons a l ih =>
    simp only [List.length_cons, parseRecords, parse_bind_ok, Prod.exists] at h
    obtain ⟨-, -, mid, input, hrec, h⟩ := h
    obtain ⟨b, input', hbyte, hquoted, ⟨-, had⟩, rfl⟩ := parseRecord_iff.mp hrec
    rw [List.flatMap_cons, utf8_append, utf8_recordText, List.cons_append, List.cons_append,
      List.append_assoc, List.singleton_append, byte_recordKind, Prod.mk.injEq, Option.some.injEq] at hbyte
    obtain ⟨hkind, rfl⟩ := hbyte
    rw [quotedField_quoted (by decide), Option.some.injEq, Prod.mk.injEq] at hquoted
    obtain ⟨hname, rfl⟩ := hquoted
    have hb : b.rootRelative = true → b.directory = false := by
      intro hr
      rw [if_pos hr] at had
      exact had.2.1
    obtain ⟨hd, hr⟩ := recordKind_injOn (hf a List.mem_cons_self) hb hkind
    obtain rfl : a = b := by
      obtain ⟨na, da, ra⟩ := a
      obtain ⟨nb, db, rb⟩ := b
      simp only [Artifact.mk.injEq]
      exact ⟨utf8_injective hname, hd, hr⟩
    exact ih (fun c hc => hf c (List.mem_cons_of_mem _ hc)) h

/-- **A snapshot reads as the list it was written from**, if the reader accepts it. -/
theorem parse_snapshot_eq {stop : Nat → Bool} {manifest : Manifest} (hc : IsRunChild runId child)
    (hf : FileSiblings l)
    (h : parseManifest (manifestBytes root runId child l) root stop = .ok manifest) :
    manifest = ⟨3, l⟩ := by
  rw [manifestBytes_eq] at h
  simp only [parseManifest, parse_bind_ok, Prod.exists] at h
  obtain ⟨header, input, hh, records, rest, hr, -, -, h⟩ := h
  rw [parseHeader_snapshot hc] at hh
  split_ifs at hh
  cases hh
  cases parseRecords_reads hf hr
  cases h
  simp

/-- Quoted text ends where it ends. -/
theorem quoted_append_inj {a b s t : Text} (h : quoted a ++ s = quoted b ++ t) : a = b ∧ s = t := by
  have hbytes := congrArg (fun text => Fields.quotedField (32 :: utf8 text)) h
  simp only [utf8_append, quotedField_quoted (show Fields.isCSpace 32 = true by decide),
    Option.some.injEq, Prod.mk.injEq] at hbytes
  exact ⟨utf8_injective hbytes.1, utf8_injective hbytes.2⟩

theorem recordKind_sibling {a : Artifact} : recordKind a = 'S' ↔ a.rootRelative = true := by
  unfold recordKind
  split_ifs <;> simp [*]

theorem recordPaths_inj {l l' : List Artifact} (h : l.flatMap recordText = l'.flatMap recordText) :
    l.map artifactPath = l'.map artifactPath := by
  induction l generalizing l' with
  | nil =>
    cases l' with
    | nil => rfl
    | cons b l' => simp [recordText] at h
  | cons a l ih =>
    cases l' with
    | nil => simp [recordText] at h
    | cons b l' =>
      simp only [List.flatMap_cons, recordText, List.cons_append, List.cons.injEq, true_and,
        List.append_assoc] at h
      obtain ⟨hkind, h⟩ := h
      obtain ⟨hname, h⟩ := quoted_append_inj h
      have hr : a.rootRelative = b.rootRelative := by
        rw [Bool.eq_iff_iff, ← recordKind_sibling, ← recordKind_sibling, hkind]
      rw [List.map_cons, List.map_cons, ih (List.cons.inj h).2]
      simp only [artifactPath, hname, hr]

/-- **A snapshot names the entries of one list only.** -/
theorem manifestBytes_paths {child' : Text} {l' : List Artifact}
    (h : manifestBytes root runId child l = manifestBytes root runId child' l') :
    l.map artifactPath = l'.map artifactPath := by
  have htext := utf8_injective h
  unfold manifestText at htext
  simp only [List.append_assoc] at htext
  have hchild := List.append_cancel_left (List.append_cancel_left (List.append_cancel_left
    (List.append_cancel_left (List.append_cancel_left htext))))
  obtain ⟨-, hcount⟩ := quoted_append_inj hchild
  have hdigits : ∀ n, ∀ c ∈ decimal n, c.isDigit = true := fun n c hc =>
    Nat.isDigit_of_mem_toDigits (by decide) (by decide) hc
  have hdrop := congrArg (List.dropWhile Char.isDigit) (List.append_cancel_left hcount)
  rw [List.dropWhile_append_of_pos (hdigits _), List.dropWhile_append_of_pos (hdigits _)] at hdrop
  exact recordPaths_inj (List.cons.inj hdrop).2

end Cao
