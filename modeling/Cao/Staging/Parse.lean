import Cao.Staging.Manifest

/-!
# The manifest reader

`parse_manifest` of `run/staging/recovery.rs`, over the bytes not yet read.

* `Fields`: C++ stream extraction (`token`, `number`, `byte`, `quotedField`, `atEnd`);
* `parseHeader`, `parseRecord`, `parseRecords`, `parseManifest`: the grammar and its rejections;
* **`parseHeader_ok`**, **`parseRecord_iff`**: what an accepted header satisfies, and exactly which
  bytes read as a record;
* `Admitted`, `AdmittedFrom`, **`parseManifest_sound`**: every record of an accepted manifest was
  admitted after the records before it.
-/

namespace Cao

/-! ## Stream extraction -/

namespace Fields

/-- `is_c_space`. -/
def isCSpace (b : UInt8) : Bool :=
  b == 0x20 || b == 0x09 || b == 0x0A || b == 0x0B || b == 0x0C || b == 0x0D

/-- `skip_whitespace`. -/
def skipWhitespace (input : Bytes) : Bytes := input.dropWhile isCSpace

/-- `token`: the next run of non-whitespace bytes. -/
def token (input : Bytes) : Option (Bytes × Bytes) :=
  let input := skipWhitespace input
  let word := input.takeWhile fun b => !isCSpace b
  if word = [] then none else some (word, input.dropWhile fun b => !isCSpace b)

/-- `u8::is_ascii_digit`. -/
def isDigit (b : UInt8) : Bool := 48 ≤ b && b ≤ 57

/-- A `u64` operation's result, when it fits. -/
def checkedU64 (n : Nat) : Option Nat := if n < 2 ^ 64 then some n else none

/-- The digit loop of `number`. -/
def digits : Bytes → Nat → Option (Nat × Bytes)
  | [], value => some (value, [])
  | b :: rest, value =>
    if isDigit b then do
      let tenfold ← checkedU64 (value * 10)
      let value ← checkedU64 (tenfold + (b.toNat - 48))
      digits rest value
    else some (value, b :: rest)

/-- `number`: an optional `+` and decimal digits, failing on overflow. -/
def number (input : Bytes) : Option (Nat × Bytes) :=
  let input := skipWhitespace input
  let input := if input.head? = some 43 then input.tail else input
  if (input.head?).any isDigit then digits input 0 else none

/-- `byte`: the next non-whitespace byte. -/
def byte (input : Bytes) : Option UInt8 × Bytes :=
  match skipWhitespace input with
  | [] => (none, [])
  | b :: rest => (some b, rest)

/-- The loop of `quoted`, after the opening quote. -/
def quotedRest : Bytes → Option (Bytes × Bytes)
  | [] => none
  | b :: rest =>
    if b = 34 then some ([], rest)
    else if b = 92 then
      match rest with
      | [] => none
      | e :: rest => (quotedRest rest).map fun (value, rest) => (e :: value, rest)
    else (quotedRest rest).map fun (value, rest) => (b :: value, rest)

theorem quotedRest_quote (rest : Bytes) : quotedRest (34 :: rest) = some ([], rest) := by
  rw [quotedRest.eq_def]
  rfl

theorem quotedRest_backslash (e : UInt8) (rest : Bytes) : quotedRest (92 :: e :: rest) =
    (quotedRest rest).map fun (value, rest) => (e :: value, rest) := by
  rw [quotedRest.eq_def]
  rfl

theorem quotedRest_plain {b : UInt8} (hq : b ≠ 34) (hs : b ≠ 92) (rest : Bytes) :
    quotedRest (b :: rest) = (quotedRest rest).map fun (value, rest) => (b :: value, rest) := by
  rw [quotedRest.eq_def]
  simp only [if_neg hq, if_neg hs]

/-- `quoted`: a mandatory `std::quoted` field. -/
def quotedField (input : Bytes) : Option (Bytes × Bytes) :=
  match skipWhitespace input with
  | [] => none
  | b :: rest => if b = 34 then quotedRest rest else none

/-- `at_end`. -/
def atEnd (input : Bytes) : Bool := (skipWhitespace input).isEmpty

end Fields

/-! ## The grammar -/

/-- `Manifest`. -/
structure Manifest where
  version : Nat
  artifacts : List Artifact
  deriving DecidableEq, Repr

/-- `Rejection`. -/
inductive Rejection
  | cancelled
  | invalid (detail : String)
  deriving DecidableEq, Repr

/-- `BAD_SIGNATURE`. -/
def badSignature : Rejection :=
  .invalid "The CAO ownership manifest signature or version is invalid."

/-- `INVALID_QUOTED`. -/
def invalidQuoted : Rejection :=
  .invalid "The ownership manifest contains an invalid quoted field."

/-- `MISMATCHED_CHILD`. -/
def mismatchedChild : Rejection :=
  .invalid "The staging child does not match its Run ID and nonce."

/-- `UNSAFE_RECORD`. -/
def unsafeRecord : Rejection :=
  .invalid "The ownership manifest contains an unsafe artifact record."

/-- The rejection of a manifest of another Mod Root. -/
def differentRoot : Rejection :=
  .invalid "The ownership manifest belongs to a different Mod Root."

/-- The rejection of a count of 0 or past the limit. -/
def invalidCount : Rejection :=
  .invalid "The ownership manifest has an invalid artifact count."

/-- The rejection of an `S` record. -/
def unsafeSibling : Rejection :=
  .invalid "A sibling Asset record is unsafe or duplicates owned output."

/-- The rejection of a `D` or `F` record outside the run child. -/
def uncontained : Rejection :=
  .invalid "Artifact ownership is not contained beneath the recorded run child."

/-- The rejection of a second record of one control path. -/
def duplicatePath : Rejection :=
  .invalid "The ownership manifest contains duplicate artifact paths."

/-- The rejection of bytes after the last record. -/
def trailingData : Rejection :=
  .invalid "The ownership manifest has trailing or unreadable data."

/-- `Option::ok_or`. -/
def okOr {α : Type} (o : Option α) (rejection : Rejection) : Except Rejection α :=
  match o with
  | some a => .ok a
  | none => .error rejection

/-- Reject unless `p` holds. -/
def require (p : Prop) [Decidable p] (rejection : Rejection) : Except Rejection Unit :=
  if p then .ok () else .error rejection

/-- What stands before the records. -/
structure Header where
  version : Nat
  runId : Text
  child : Text
  count : Nat
  deriving DecidableEq, Repr

/-- Whether `child` is `run-<Run ID>-<nonce>`. -/
def matchesRunId (runId child : Text) : Bool :=
  (stripPrefix ("run-".toList ++ runId ++ ['-']) child).any fun nonce => isLowercaseNonce (utf8 nonce)

/-- The part of `parse_manifest` before its record loop. -/
def parseHeader (input : Bytes) (root : Text) : Except Rejection (Header × Bytes) := do
  let (signature, input) ← okOr (Fields.token input) badSignature
  require (signature = utf8 "CAO-STAGING".toList) badSignature
  let (version, input) ← okOr (Fields.number input) badSignature
  require (1 ≤ version ∧ version ≤ 3) badSignature
  let (recorded, input) ← okOr (Fields.quotedField input) invalidQuoted
  require (recorded = utf8 root) differentRoot
  let (runId, input) ← okOr (Fields.quotedField input) invalidQuoted
  let (child, input) ← okOr (Fields.quotedField input) invalidQuoted
  let runId ← okOr (validRunId runId) mismatchedChild
  let child ← okOr (fromUtf8 child) mismatchedChild
  require (matchesRunId runId child = true) mismatchedChild
  let (count, input) ← okOr (Fields.number input) invalidCount
  require (1 ≤ count ∧ count ≤ registrationLimit) invalidCount
  return (⟨version, runId, child, count⟩, input)

/-- The loop state: the records in registration order, each control record and whether it is a
directory, and the sibling names. -/
structure Records where
  artifacts : List Artifact
  owned : List (Text × Bool)
  siblings : List Text
  deriving DecidableEq, Repr

/-- Accept a record. -/
def Records.push (records : Records) (artifact : Artifact) : Records where
  artifacts := records.artifacts ++ [artifact]
  owned := if artifact.rootRelative then records.owned
    else (artifact.relative, artifact.directory) :: records.owned
  siblings := if artifact.rootRelative then artifact.relative :: records.siblings
    else records.siblings

/-- One record of the loop. -/
def parseRecord (header : Header) (index : Nat) (records : Records) (input : Bytes) :
    Except Rejection (Records × Bytes) := do
  let (kind, input) := Fields.byte input
  let (name, input) ← okOr (Fields.quotedField input) invalidQuoted
  let name ← okOr (fromUtf8 name) unsafeRecord
  let rootRelative := kind == some 83
  let known := kind == some 68 || kind == some 70 || (header.version == 3 && rootRelative)
  require (known && safeRelativeName name) unsafeRecord
  let directory := kind == some 68
  if rootRelative then
    require (index ≠ 0 ∧ safeSiblingAssetName name header.runId = true ∧
      hasStagingComponent (components (parentName name)) = false ∧ name ∉ records.siblings)
      unsafeSibling
  else
    require (if index = 0 then name = header.child ∧ directory = true
      else (header.child ++ ['/']).isPrefixOf name = true ∧
        ((rsplitOnce '/' name).any fun (parent, _) => records.owned.lookup parent == some true) = true)
      uncontained
    require ((records.owned.lookup name).isNone = true) duplicatePath
  return (records.push ⟨name, directory, rootRelative⟩, input)

/-- The record loop; `stop` is what each poll of the token answers. -/
def parseRecords (header : Header) (stop : Nat → Bool) :
    Nat → Nat → Records → Bytes → Except Rejection (Records × Bytes)
  | 0, _, records, input => .ok (records, input)
  | todo + 1, index, records, input => do
    require (stop index = false) .cancelled
    let (records, input) ← parseRecord header index records input
    parseRecords header stop todo (index + 1) records input

/-- `parse_manifest`. -/
def parseManifest (bytes : Bytes) (root : Text) (stop : Nat → Bool) : Except Rejection Manifest := do
  let (header, input) ← parseHeader bytes root
  let (records, input) ← parseRecords header stop header.count 0 ⟨[], [], []⟩ input
  require (Fields.atEnd input = true) trailingData
  return ⟨header.version, records.artifacts⟩

/-! ## What an accepted header and record satisfy -/

@[simp] theorem okOr_eq_ok {α : Type} {o : Option α} {r : Rejection} {a : α} :
    okOr o r = .ok a ↔ o = some a := by
  cases o <;> simp [okOr]

@[simp] theorem require_eq_ok {p : Prop} [Decidable p] {r : Rejection} {u : Unit} :
    require p r = .ok u ↔ p := by
  unfold require
  split_ifs <;> simp [*]

theorem parse_bind_ok {α β : Type} {x : Except Rejection α} {f : α → Except Rejection β} {b : β} :
    (x >>= f) = .ok b ↔ ∃ a, x = .ok a ∧ f a = .ok b := by
  cases x <;> simp [bind, Except.bind]

/-- A run child's name: `run-`, the Run ID and a nonce. -/
def IsRunChild (runId child : Text) : Prop :=
  validRunId (utf8 runId) = some runId ∧
    ∃ nonce, isLowercaseNonce (utf8 nonce) = true ∧ child = "run-".toList ++ runId ++ ['-'] ++ nonce

theorem matchesRunId_iff {runId child : Text} : matchesRunId runId child = true ↔
    ∃ nonce, isLowercaseNonce (utf8 nonce) = true ∧
      child = "run-".toList ++ runId ++ ['-'] ++ nonce := by
  unfold matchesRunId
  rw [Option.any_eq_true]
  constructor
  · rintro ⟨nonce, h, hn⟩
    exact ⟨nonce, hn, stripPrefix_eq_some.mp h⟩
  · rintro ⟨nonce, hn, h⟩
    exact ⟨nonce, stripPrefix_eq_some.mpr h, hn⟩

theorem validRunId_utf8 {bytes : Bytes} {runId : Text} (h : validRunId bytes = some runId) :
    validRunId (utf8 runId) = some runId := by
  unfold validRunId at h ⊢
  split_ifs at h with hv
  rw [utf8_of_fromUtf8 h, if_pos hv, h]

/-- **An accepted header**: version 1 to 3, a run child of its Run ID, and a count within the
limit. -/
theorem parseHeader_ok {input rest : Bytes} {root : Text} {header : Header}
    (h : parseHeader input root = .ok (header, rest)) :
    1 ≤ header.version ∧ header.version ≤ 3 ∧ IsRunChild header.runId header.child ∧
      1 ≤ header.count ∧ header.count ≤ registrationLimit := by
  simp only [parseHeader, parse_bind_ok, Prod.exists, okOr_eq_ok, require_eq_ok] at h
  obtain ⟨_, _, -, -, -, version, _, -, -, hv, _, _, -, -, -, _, _, -, _, _, -, runId, hr, child, -, -,
    hc, count, _, -, -, hn, h⟩ := h
  cases h
  exact ⟨hv.1, hv.2, ⟨validRunId_utf8 hr, matchesRunId_iff.mp hc⟩, hn.1, hn.2⟩

/-- What `parse_manifest` admits as record `index`, after the records in `records`. -/
def Admitted (header : Header) (index : Nat) (records : Records) (artifact : Artifact) : Prop :=
  safeRelativeName artifact.relative = true ∧
    if artifact.rootRelative then
      header.version = 3 ∧ artifact.directory = false ∧ index ≠ 0 ∧
        safeSiblingAssetName artifact.relative header.runId = true ∧
        hasStagingComponent (components (parentName artifact.relative)) = false ∧
        artifact.relative ∉ records.siblings
    else
      (if index = 0 then artifact.relative = header.child ∧ artifact.directory = true
        else header.child ++ ['/'] <+: artifact.relative ∧
          ∃ parent file, rsplitOnce '/' artifact.relative = some (parent, file) ∧
            records.owned.lookup parent = some true) ∧
      records.owned.lookup artifact.relative = none

/-- **The record loop accepts exactly the admitted records**, read as their letter and quoted
name. -/
theorem parseRecord_iff {header : Header} {index : Nat} {records records' : Records}
    {input rest : Bytes} :
    parseRecord header index records input = .ok (records', rest) ↔
      ∃ artifact input', Fields.byte input = (some (UInt8.ofNat (recordKind artifact).toNat), input') ∧
        Fields.quotedField input' = some (utf8 artifact.relative, rest) ∧
        Admitted header index records artifact ∧ records' = records.push artifact := by
  obtain ⟨⟨kind, input'⟩, hb⟩ : ∃ p, Fields.byte input = p := ⟨_, rfl⟩
  simp only [parseRecord, hb, parse_bind_ok, Prod.exists, okOr_eq_ok, require_eq_ok]
  constructor
  · rintro ⟨bytes, rest', hq, name, hn, -, hk, h⟩
    obtain rfl := utf8_of_fromUtf8 hn
    simp only [Bool.and_eq_true, Bool.or_eq_true, beq_iff_eq] at hk
    obtain ⟨hk, hs⟩ := hk
    by_cases hS : kind = some 83
    · subst hS
      simp only [beq_self_eq_true, if_true, parse_bind_ok, require_eq_ok] at h
      obtain ⟨-, ⟨hi, ha, hc, hm⟩, h⟩ := h
      cases h
      have hv : header.version = 3 := by simpa using hk
      refine ⟨⟨name, false, true⟩, input', rfl, hq, ⟨hs, ?_⟩, rfl⟩
      simp only [if_true]
      exact ⟨hv, trivial, hi, ha, hc, hm⟩
    · have hkind : kind = some 68 ∨ kind = some 70 := by simpa [hS] using hk
      have hf : (kind == some 83) = false := by simpa using hS
      simp only [hf, Bool.false_eq_true, if_false, parse_bind_ok, require_eq_ok] at h
      obtain ⟨-, hc, -, hd, h⟩ := h
      cases h
      have hcon : (if index = 0 then name = header.child ∧ (kind == some 68) = true
          else header.child ++ ['/'] <+: name ∧ ∃ parent file,
            rsplitOnce '/' name = some (parent, file) ∧ records.owned.lookup parent = some true) := by
        split_ifs at hc ⊢
        · exact hc
        · refine ⟨List.isPrefixOf_iff_prefix.mp hc.1, ?_⟩
          obtain ⟨⟨parent, file⟩, hp, ho⟩ := (Option.any_eq_true _ _).mp hc.2
          exact ⟨parent, file, hp, by simpa using ho⟩
      refine ⟨⟨name, kind == some 68, false⟩, input', ?_, hq, ⟨hs, ?_⟩, rfl⟩
      · rcases hkind with rfl | rfl <;> rfl
      · simp only [Bool.false_eq_true, if_false]
        exact ⟨hcon, Option.isNone_iff_eq_none.mp hd⟩
  · rintro ⟨⟨name, directory, rootRelative⟩, _, he, hq, ⟨hs, had⟩, rfl⟩
    obtain ⟨rfl, rfl⟩ := Prod.mk.inj he
    refine ⟨utf8 name, rest, hq, name, fromUtf8_utf8 name, (), ?_, ?_⟩
    · cases rootRelative <;> cases directory <;> simp_all [recordKind]
    · cases rootRelative
      · simp only [Bool.false_eq_true, if_false] at had
        obtain ⟨hcon, hd⟩ := had
        have hS : (some (UInt8.ofNat (recordKind ⟨name, directory, false⟩).toNat) == some 83) = false := by
          cases directory <;> rfl
        have hD : (some (UInt8.ofNat (recordKind ⟨name, directory, false⟩).toNat) == some 68) =
            directory := by cases directory <;> rfl
        simp only [hS, hD, Bool.false_eq_true, if_false, parse_bind_ok, require_eq_ok]
        refine ⟨(), ?_, (), Option.isNone_iff_eq_none.mpr hd, rfl⟩
        split_ifs at hcon ⊢
        · exact hcon
        · obtain ⟨hpre, parent, file, hp, ho⟩ := hcon
          exact ⟨List.isPrefixOf_iff_prefix.mpr hpre,
            (Option.any_eq_true _ _).mpr ⟨(parent, file), hp, by simp [ho]⟩⟩
      · simp only [if_true] at had
        obtain ⟨-, rfl, hi, ha, hc, hm⟩ := had
        have hS : (some (UInt8.ofNat (recordKind ⟨name, false, true⟩).toNat) == some 83) = true := rfl
        have hD : (some (UInt8.ofNat (recordKind ⟨name, false, true⟩).toNat) == some 68) = false := rfl
        simp only [hS, hD, if_true, parse_bind_ok, require_eq_ok]
        exact ⟨(), ⟨hi, ha, hc, hm⟩, rfl⟩

/-- Records admitted one after another. -/
def AdmittedFrom (header : Header) : Nat → Records → List Artifact → Prop
  | _, _, [] => True
  | index, records, artifact :: artifacts => Admitted header index records artifact ∧
      AdmittedFrom header (index + 1) (records.push artifact) artifacts

/-- Accept records in order. -/
def Records.pushAll (records : Records) (artifacts : List Artifact) : Records :=
  artifacts.foldl Records.push records

@[simp] theorem Records.pushAll_cons (records : Records) (a : Artifact) (l : List Artifact) :
    records.pushAll (a :: l) = (records.push a).pushAll l := rfl

@[simp] theorem Records.pushAll_nil (records : Records) : records.pushAll [] = records := rfl

@[simp] theorem Records.pushAll_artifacts (records : Records) (l : List Artifact) :
    (records.pushAll l).artifacts = records.artifacts ++ l := by
  induction l generalizing records with
  | nil => simp
  | cons a l ih => rw [pushAll_cons, ih]; simp [push]

theorem admittedFrom_append {header : Header} {l l' : List Artifact} {index : Nat} {records : Records} :
    AdmittedFrom header index records (l ++ l') ↔ AdmittedFrom header index records l ∧
      AdmittedFrom header (index + l.length) (records.pushAll l) l' := by
  induction l generalizing index records with
  | nil => simp [AdmittedFrom]
  | cons a l ih =>
    simp only [List.cons_append, AdmittedFrom, ih, and_assoc, Records.pushAll_cons, List.length_cons]
    rw [show index + 1 + l.length = index + (l.length + 1) by omega]

/-- **The record loop accepts only records admitted one after another.** -/
theorem parseRecords_sound {header : Header} {stop : Nat → Bool} {todo index : Nat}
    {records records' : Records} {input rest : Bytes}
    (h : parseRecords header stop todo index records input = .ok (records', rest)) :
    ∃ l, l.length = todo ∧ records' = records.pushAll l ∧ AdmittedFrom header index records l := by
  induction todo generalizing index records input with
  | zero =>
    cases h
    exact ⟨[], rfl, rfl, trivial⟩
  | succ todo ih =>
    simp only [parseRecords, parse_bind_ok, Prod.exists, require_eq_ok] at h
    obtain ⟨-, -, mid, input', hrec, hrest⟩ := h
    obtain ⟨artifact, -, -, -, had, rfl⟩ := parseRecord_iff.mp hrec
    obtain ⟨l, hl, rfl, hal⟩ := ih hrest
    exact ⟨artifact :: l, by simp [hl], rfl, had, hal⟩

/-- **An accepted manifest**: a header, then as many records as it counts, each admitted. -/
theorem parseManifest_sound {bytes : Bytes} {root : Text} {stop : Nat → Bool} {manifest : Manifest}
    (h : parseManifest bytes root stop = .ok manifest) :
    ∃ header rest, parseHeader bytes root = .ok (header, rest) ∧ manifest.version = header.version ∧
      manifest.artifacts.length = header.count ∧
      AdmittedFrom header 0 ⟨[], [], []⟩ manifest.artifacts := by
  simp only [parseManifest, parse_bind_ok, Prod.exists] at h
  obtain ⟨header, rest, hh, records, rest', hr, -, -, h⟩ := h
  obtain ⟨l, hl, rfl, hal⟩ := parseRecords_sound hr
  cases h
  exact ⟨header, rest, hh, rfl, by simpa using hl, by simpa using hal⟩

end Cao
