import Cao.Pack.Settings
import Cao.Lib.Decimal

/-!
# Plugin and Archive names

`name.rs`: a name is split into its stem, counter and suffix, and rendered back. Planning names an Archive
after a plugin with it, and the plugins that load an Archive are found by it.

* `eatDigits`, `eatSuffix`, `FilePath.make`: splitting a name;
* `ArchiveName.fullPath`, `outputName`, `loadingPluginNames`: rendering one;
* **`loadingPluginNames_iff`**: when the plugin an Archive is named after, or the plugin with its stem, is
  found by the Archive's name.
-/

namespace Cao.Pack

/-! ## Names -/

/-- `ArchiveName`, and a `FilePath` without its kind. -/
structure ArchiveName where
  dir : Path
  name : Text
  suffix : Text
  ext : Text
  counter : Option Nat
  deriving DecidableEq

/-- `NameKind`, `ArchiveNameKind`. -/
inductive NameKind
  | plugin
  | archive
  deriving DecidableEq, Repr

/-- `SUFFIX_SEPARATOR`. -/
def suffixSeparator : Text := " - ".toList

/-- What stands before and after the last separator. -/
def rfindSeparator : Text → Option (Text × Text)
  | [] => none
  | c :: s =>
    match rfindSeparator s with
    | some (before, after) => some (c :: before, after)
    | none => if suffixSeparator.isPrefixOf (c :: s) then some ([], s.drop 2) else none

/-- `str::parse::<u32>`, of digits. -/
def parseU32 (digits : Text) : Option Nat :=
  if Decimal.value digits < 2 ^ 32 then some (Decimal.value digits) else none

/-- `eat_digits`. -/
def eatDigits (name : Text) : Text × Option Nat :=
  let digits := Decimal.trailing name
  if digits = [] ∨ digits.length = name.length then (name, none)
  else
    match parseU32 digits with
    | none => (name, none)
    | some counter => (Decimal.initial name, some counter)

/-- `eat_suffix`. -/
def eatSuffix (name : Text) (settings : Settings) : Text × Text :=
  match rfindSeparator name with
  | none => (name, [])
  | some (before, suffix) =>
    if some suffix ≠ settings.suffix ∧ some suffix ≠ settings.textureSuffix then (name, [])
    else (before, suffix)

/-- The name, counter and suffix of a stem. -/
def parseStem (settings : Settings) (stem : Text) : Text × Option Nat × Text :=
  let (name, counter) := eatDigits stem
  let (name, suffix) := eatSuffix name settings
  match counter with
  | some counter => (name, some counter, suffix)
  | none =>
    let (name, counter) := eatDigits name
    (name, counter, suffix)

/-- `FilePath::make`. -/
def FilePath.make (path : Path) (settings : Settings) (kind : NameKind) : Option ArchiveName := do
  let text ← (← path.getLast?).toStr
  let (stem, ext) := splitFileName text
  let known := match kind with
    | .plugin => settings.pluginExtensions.contains ext
    | .archive => ext = settings.extension
  if known then
    let (name, counter, suffix) := parseStem settings stem
    some { dir := path.dropLast, name, suffix, ext, counter }
  else none

/-- A name with its counter. -/
def numbered (name : Text) (counter : Option Nat) : Text := name ++ (counter.map (Nat.toDigits 10)).getD []

/-- A stem with its suffix, if it has one. -/
def suffixed (stem suffix : Text) : Text := if suffix = [] then stem else stem ++ suffixSeparator ++ suffix

namespace ArchiveName

/-- `FilePath::full_name`. -/
def fullName (archive : ArchiveName) : Text := suffixed (numbered archive.name archive.counter) archive.suffix

/-- `ArchiveName::full_path`, `FilePath::full_path`. -/
def fullPath (archive : ArchiveName) : Path := archive.dir ++ [OsStr.ofText (archive.fullName ++ archive.ext)]

end ArchiveName

/-- `ArchiveNamingRules`. -/
structure ArchiveNamingRules where
  extension : Text
  suffix : Option Text
  textureSuffix : Option Text
  pluginExtensions : List Text
  dummyPlugin : Bytes
  separateTextures : Bool
  deriving DecidableEq, Repr

/-- `GameArchivePacker::rules`. -/
def GameArchivePacker.rules (settings : Settings) : ArchiveNamingRules where
  extension := settings.extension
  suffix := settings.suffix
  textureSuffix := settings.textureSuffix
  pluginExtensions := settings.pluginExtensions
  dummyPlugin := settings.dummyPlugin
  separateTextures := settings.keepsTexturesSeparate

/-- The suffix of an output Archive of a kind. -/
def outputSuffix (rules : ArchiveNamingRules) (kind : ArchiveType) : Text :=
  (match kind with
    | .textures => rules.textureSuffix
    | .standard => rules.suffix
    | .incompressible => rules.suffix).getD []

/-- The output Archive named after a plugin. -/
def outputName (rules : ArchiveNamingRules) (kind : ArchiveType) (plugin : ArchiveName) : ArchiveName :=
  { plugin with ext := rules.extension, suffix := outputSuffix rules kind }

/-- `loading_plugin_names`. -/
def loadingPluginNames (archive : ArchiveName) (rules : ArchiveNamingRules) : List Path :=
  rules.pluginExtensions.flatMap fun extension =>
    let plugin := { archive with ext := extension }
    [plugin.fullPath, { plugin with suffix := [] }.fullPath]

/-! ## Separators -/

theorem rfindSeparator_eq_some {s before after : Text} (h : rfindSeparator s = some (before, after)) :
    s = before ++ suffixSeparator ++ after := by
  induction s generalizing before with
  | nil => cases h
  | cons c s ih =>
    unfold rfindSeparator at h
    cases hs : rfindSeparator s with
    | some found =>
      simp only [hs, Option.some.injEq, Prod.mk.injEq] at h
      obtain ⟨rfl, rfl⟩ := h
      rw [ih hs]
      rfl
    | none =>
      simp only [hs] at h
      split_ifs at h with hp
      simp only [Option.some.injEq, Prod.mk.injEq] at h
      obtain ⟨rfl, rfl⟩ := h
      obtain ⟨rest, hrest⟩ := List.isPrefixOf_iff_prefix.mp hp
      have hs : s = '-' :: ' ' :: rest := by
        have := congrArg List.tail hrest
        exact this.symm
      rw [← hrest, hs]
      rfl

/-- A suffix with no separator in it or across its start. -/
def CleanSuffix (suffix : Text) : Prop :=
  suffix ≠ [] ∧ Decimal.trailing suffix = [] ∧ rfindSeparator ('-' :: ' ' :: suffix) = none

instance (suffix : Text) : Decidable (CleanSuffix suffix) := inferInstanceAs (Decidable (_ ∧ _ ∧ _))

theorem rfindSeparator_append {suffix : Text} (h : CleanSuffix suffix) (before : Text) :
    rfindSeparator (before ++ suffixSeparator ++ suffix) = some (before, suffix) := by
  induction before with
  | nil =>
    have hs : [] ++ suffixSeparator ++ suffix = ' ' :: '-' :: ' ' :: suffix := rfl
    have hp : suffixSeparator.isPrefixOf (' ' :: '-' :: ' ' :: suffix) = true :=
      List.isPrefixOf_iff_prefix.mpr ⟨suffix, rfl⟩
    rw [hs, rfindSeparator, h.2.2, if_pos hp]
    rfl
  | cons c before ih => rw [List.cons_append, List.cons_append, rfindSeparator, ih]

/-- **A suffix is found in one way only.** -/
theorem append_suffix_inj {before before' suffix suffix' : Text} (h : CleanSuffix suffix) (h' : CleanSuffix suffix')
    (heq : before ++ suffixSeparator ++ suffix = before' ++ suffixSeparator ++ suffix') :
    before = before' ∧ suffix = suffix' := by
  have hfound := rfindSeparator_append h before
  rw [heq, rfindSeparator_append h' before', Option.some.injEq, Prod.mk.injEq] at hfound
  exact ⟨hfound.1.symm, hfound.2.symm⟩

/-! ## What a stem is split into -/

/-- The digits a text ends with are read as a counter: they are not all of it, and a `u32` holds them. -/
def EndsInCounter (s : Text) : Prop :=
  Decimal.trailing s ≠ [] ∧ (Decimal.trailing s).length ≠ s.length ∧ Decimal.value (Decimal.trailing s) < 2 ^ 32

instance (s : Text) : Decidable (EndsInCounter s) := inferInstanceAs (Decidable (_ ∧ _ ∧ _))

/-- A suffix of the game. -/
def GameSuffix (settings : Settings) (suffix : Text) : Prop :=
  some suffix = settings.suffix ∨ some suffix = settings.textureSuffix

/-- A text that ends with a suffix of the game. -/
def HasSuffix (settings : Settings) (s before suffix : Text) : Prop :=
  s = before ++ suffixSeparator ++ suffix ∧ GameSuffix settings suffix

/-- A game's suffixes are clean. -/
def CleanRules (settings : Settings) : Prop := ∀ suffix, GameSuffix settings suffix → CleanSuffix suffix

theorem forProfile_cleanRules (game : Game) (requestedLimit : Option UInt64) :
    CleanRules (.forProfile game requestedLimit) := by
  have hclean : CleanSuffix "Main".toList ∧ CleanSuffix "Textures".toList := by decide
  intro suffix h
  cases game
  · rcases h with h | h <;> cases h
  · rcases h with h | h <;> cases h
    exact hclean.2
  · rcases h with h | h <;> cases h
    · exact hclean.1
    · exact hclean.2

theorem eatDigits_of_counter {s : Text} (h : EndsInCounter s) :
    eatDigits s = (Decimal.initial s, some (Decimal.value (Decimal.trailing s))) := by
  unfold eatDigits parseU32
  have hdigits : ¬(Decimal.trailing s = [] ∨ (Decimal.trailing s).length = s.length) := not_or.mpr ⟨h.1, h.2.1⟩
  simp only [if_neg hdigits, if_pos h.2.2]

theorem eatDigits_of_no_counter {s : Text} (h : ¬EndsInCounter s) : eatDigits s = (s, none) := by
  unfold eatDigits parseU32
  by_cases hdigits : Decimal.trailing s = [] ∨ (Decimal.trailing s).length = s.length
  · simp only [if_pos hdigits]
  · have hvalue : ¬Decimal.value (Decimal.trailing s) < 2 ^ 32 := fun hv =>
      h ⟨fun h => hdigits (.inl h), fun h => hdigits (.inr h), hv⟩
    simp only [if_neg hdigits, if_neg hvalue]

variable {settings : Settings}

theorem eatSuffix_of_suffix (hrules : CleanRules settings) {s before suffix : Text}
    (h : HasSuffix settings s before suffix) : eatSuffix s settings = (before, suffix) := by
  unfold eatSuffix
  rw [h.1, rfindSeparator_append (hrules suffix h.2)]
  have hknown : ¬(some suffix ≠ settings.suffix ∧ some suffix ≠ settings.textureSuffix) := by
    rintro ⟨h1, h2⟩
    rcases h.2 with h | h
    · exact h1 h
    · exact h2 h
  simp only [if_neg hknown]

theorem eatSuffix_of_no_suffix {s : Text} (h : ∀ before suffix, ¬HasSuffix settings s before suffix) :
    eatSuffix s settings = (s, []) := by
  unfold eatSuffix
  cases hs : rfindSeparator s with
  | none => rfl
  | some found =>
    have hknown : some found.2 ≠ settings.suffix ∧ some found.2 ≠ settings.textureSuffix := by
      constructor <;> intro hsuffix
      · exact h found.1 found.2 ⟨rfindSeparator_eq_some hs, .inl hsuffix⟩
      · exact h found.1 found.2 ⟨rfindSeparator_eq_some hs, .inr hsuffix⟩
    simp only [if_pos hknown]

/-- What a stem is split into. -/
inductive Split (settings : Settings) (s : Text) : Text → Option Nat → Text → Prop
  | counterAfterSuffix {before suffix : Text} : EndsInCounter s →
      HasSuffix settings (Decimal.initial s) before suffix →
      Split settings s before (some (Decimal.value (Decimal.trailing s))) suffix
  | counter : EndsInCounter s → (∀ before suffix, ¬HasSuffix settings (Decimal.initial s) before suffix) →
      Split settings s (Decimal.initial s) (some (Decimal.value (Decimal.trailing s))) []
  | counterBeforeSuffix {before suffix : Text} : ¬EndsInCounter s → HasSuffix settings s before suffix →
      EndsInCounter before →
      Split settings s (Decimal.initial before) (some (Decimal.value (Decimal.trailing before))) suffix
  | suffix {before suffix : Text} : ¬EndsInCounter s → HasSuffix settings s before suffix → ¬EndsInCounter before →
      Split settings s before none suffix
  | whole : ¬EndsInCounter s → (∀ before suffix, ¬HasSuffix settings s before suffix) → Split settings s s none []

/-- **How a stem is split.** -/
theorem parseStem_split (hrules : CleanRules settings) (s : Text) :
    Split settings s (parseStem settings s).1 (parseStem settings s).2.1 (parseStem settings s).2.2 := by
  unfold parseStem
  by_cases hcounter : EndsInCounter s
  · simp only [eatDigits_of_counter hcounter]
    by_cases hsuffix : ∃ before suffix, HasSuffix settings (Decimal.initial s) before suffix
    · obtain ⟨before, suffix, hsuffix⟩ := hsuffix
      simp only [eatSuffix_of_suffix hrules hsuffix]
      exact .counterAfterSuffix hcounter hsuffix
    · have hsuffix : ∀ before suffix, ¬HasSuffix settings (Decimal.initial s) before suffix :=
        fun before suffix h => hsuffix ⟨before, suffix, h⟩
      simp only [eatSuffix_of_no_suffix hsuffix]
      exact .counter hcounter hsuffix
  · simp only [eatDigits_of_no_counter hcounter]
    by_cases hsuffix : ∃ before suffix, HasSuffix settings s before suffix
    · obtain ⟨before, suffix, hsuffix⟩ := hsuffix
      simp only [eatSuffix_of_suffix hrules hsuffix]
      by_cases hbefore : EndsInCounter before
      · simp only [eatDigits_of_counter hbefore]
        exact .counterBeforeSuffix hcounter hsuffix hbefore
      · simp only [eatDigits_of_no_counter hbefore]
        exact .suffix hcounter hsuffix hbefore
    · have hsuffix : ∀ before suffix, ¬HasSuffix settings s before suffix :=
        fun before suffix h => hsuffix ⟨before, suffix, h⟩
      simp only [eatSuffix_of_no_suffix hsuffix, eatDigits_of_no_counter hcounter]
      exact .whole hcounter hsuffix

/-! ## When a name renders as it was -/

/-- A stem that renders as it was: the counter it is split into has no leading zeros, and is not after a
suffix. -/
structure Renders (settings : Settings) (s : Text) : Prop where
  atEnd : EndsInCounter s → Decimal.Plain (Decimal.trailing s) ∧
    ∀ before suffix, ¬HasSuffix settings (Decimal.initial s) before suffix
  beforeSuffix : ¬EndsInCounter s → ∀ before suffix, HasSuffix settings s before suffix → EndsInCounter before →
    Decimal.Plain (Decimal.trailing before)

theorem EndsInCounter.digits {s : Text} (h : EndsInCounter s) :
    (numbered (Decimal.initial s) (some (Decimal.value (Decimal.trailing s)))).length ≤ s.length ∧
      (numbered (Decimal.initial s) (some (Decimal.value (Decimal.trailing s))) = s ↔
        Decimal.Plain (Decimal.trailing s)) := by
  have hdigits : ∀ c ∈ Decimal.trailing s, c.isDigit := fun c => Decimal.isDigit_of_mem_trailing
  have hs := Decimal.initial_append_trailing s
  have hlength := Decimal.length_toDigits_value_le hdigits h.1
  simp only [numbered, Option.map_some, Option.getD_some]
  constructor
  · have := congrArg List.length hs
    rw [List.length_append] at this ⊢
    omega
  · rw [← Decimal.toDigits_value_iff hdigits h.1]
    constructor
    · intro heq
      exact List.append_cancel_left (heq.trans hs.symm)
    · intro heq
      rw [heq, hs]

/-- A text that ends with a suffix does not end in a digit. -/
theorem not_digit_of_suffix {before suffix digits : Text} (h : CleanSuffix suffix)
    (hdigits : ∀ c ∈ digits, c.isDigit) (hne : digits ≠ []) (s : Text) :
    before ++ suffixSeparator ++ suffix ≠ s ++ digits := by
  intro heq
  have hlast := congrArg List.getLast? heq
  obtain ⟨c, hc⟩ := Option.ne_none_iff_exists'.mp (fun hn => hne (List.getLast?_eq_none_iff.mp hn))
  have hsuffix : suffix.getLast? = some c := by
    rw [List.getLast?_append_of_ne_nil _ hne, hc, List.getLast?_append_of_ne_nil _ h.1] at hlast
    exact hlast
  have hdigit := hdigits c (List.mem_of_getLast? hc)
  have htrailing := h.2.1
  unfold Decimal.trailing at htrailing
  rw [List.rtakeWhile_eq_nil_iff] at htrailing
  refine htrailing h.1 ?_
  have hget := List.getLast?_eq_getLast_of_ne_nil h.1
  rw [hsuffix, Option.some.injEq] at hget
  rw [← hget]
  exact hdigit

theorem EndsInCounter.no_suffix (hrules : CleanRules settings) {s : Text} (h : EndsInCounter s)
    (before suffix : Text) : ¬HasSuffix settings s before suffix := by
  intro hsuffix
  have heq : before ++ suffixSeparator ++ suffix = Decimal.initial s ++ Decimal.trailing s := by
    rw [← hsuffix.1, Decimal.initial_append_trailing]
  exact not_digit_of_suffix (hrules suffix hsuffix.2) (fun c => Decimal.isDigit_of_mem_trailing) h.1 _ heq

theorem HasSuffix.unique (hrules : CleanRules settings) {s before suffix before' suffix' : Text}
    (h : HasSuffix settings s before suffix) (h' : HasSuffix settings s before' suffix') :
    before = before' ∧ suffix = suffix' :=
  append_suffix_inj (hrules suffix h.2) (hrules suffix' h'.2) (h.1.symm.trans h'.1)

theorem HasSuffix.length {s before suffix : Text} (h : HasSuffix settings s before suffix) :
    s.length = before.length + 3 + suffix.length := by
  have hseparator : suffixSeparator.length = 3 := rfl
  rw [h.1, List.length_append, List.length_append, hseparator]

@[simp] theorem suffixed_nil (stem : Text) : suffixed stem [] = stem := if_pos rfl

/-- **When the name a stem is split into renders as the stem**, with a suffix `ns` or without. -/
theorem renders_iff (hrules : CleanRules settings) {s name suffix ns : Text} {counter : Option Nat}
    (hsplit : Split settings s name counter suffix) (hns : ns = [] ∨ CleanSuffix ns) :
    (numbered name counter = s ∨ suffixed (numbered name counter) ns = s) ↔
      Renders settings s ∧ ∀ before suffix, HasSuffix settings s before suffix → suffix = ns := by
  -- A text that ends with a suffix is no text that ends in a counter.
  have hdigit : EndsInCounter s → ∀ stem, suffixed stem ns = s → stem = s := by
    intro h stem heq
    unfold suffixed at heq
    split_ifs at heq with hnil
    · exact heq
    · exfalso
      have hends : stem ++ suffixSeparator ++ ns = Decimal.initial s ++ Decimal.trailing s := by
        rw [heq, Decimal.initial_append_trailing]
      exact not_digit_of_suffix (hns.resolve_left hnil) (fun c => Decimal.isDigit_of_mem_trailing) h.1 _ hends
  -- With a suffix of its own, the text renders from what is before that suffix.
  have hown : ∀ {before suffix}, HasSuffix settings s before suffix → ∀ stem : Text, stem.length ≤ before.length →
      (stem = s ∨ suffixed stem ns = s ↔ stem = before ∧ suffix = ns) := by
    intro before suffix hsuffix stem hle
    have hlength := hsuffix.length
    constructor
    · rintro (heq | heq)
      · rw [heq] at hle
        omega
      · unfold suffixed at heq
        split_ifs at heq with hnil
        · rw [heq] at hle
          omega
        · have := append_suffix_inj (hns.resolve_left hnil) (hrules suffix hsuffix.2) (heq.trans hsuffix.1)
          exact ⟨this.1, this.2.symm⟩
    · rintro ⟨rfl, rfl⟩
      refine .inr ?_
      rw [suffixed, if_neg (hrules suffix hsuffix.2).1]
      exact hsuffix.1.symm
  cases hsplit with
  | counterAfterSuffix hcounter hsuffix =>
    refine iff_of_false ?_ fun h => (h.1.atEnd hcounter).2 name suffix hsuffix
    have hlength := hsuffix.length
    have hs := congrArg List.length (Decimal.initial_append_trailing s)
    have hdigits := Decimal.length_toDigits_value_le (fun c => Decimal.isDigit_of_mem_trailing) hcounter.1
    rw [List.length_append] at hs
    have hne : numbered name (some (Decimal.value (Decimal.trailing s))) ≠ s := by
      intro heq
      have := congrArg List.length heq
      simp only [numbered, Option.map_some, Option.getD_some, List.length_append] at this
      omega
    rintro (heq | heq)
    · exact hne heq
    · exact hne (hdigit hcounter _ heq)
  | counter hcounter hsuffix =>
    have hplain := hcounter.digits.2
    constructor
    · intro h
      have heq := h.elim id (hdigit hcounter _)
      exact ⟨⟨fun _ => ⟨hplain.mp heq, hsuffix⟩, fun hn => absurd hcounter hn⟩,
        fun before suffix hs => absurd hs (hcounter.no_suffix hrules before suffix)⟩
    · exact fun h => .inl (hplain.mpr (h.1.atEnd hcounter).1)
  | @counterBeforeSuffix before suffix hcounter hsuffix hbefore =>
    rw [hown hsuffix _ hbefore.digits.1, hbefore.digits.2]
    constructor
    · rintro ⟨hplain, rfl⟩
      refine ⟨⟨fun h => absurd h hcounter, fun _ before' suffix' hs _ => ?_⟩, fun before' suffix' hs => ?_⟩
      · rw [← (hsuffix.unique hrules hs).1]
        exact hplain
      · exact (hsuffix.unique hrules hs).2.symm
    · exact fun h => ⟨h.1.beforeSuffix hcounter before suffix hsuffix hbefore, h.2 before suffix hsuffix⟩
  | suffix hcounter hsuffix hbefore =>
    have hnumbered : numbered name none = name := List.append_nil name
    rw [hnumbered, hown hsuffix name le_rfl]
    constructor
    · rintro ⟨-, rfl⟩
      refine ⟨⟨fun h => absurd h hcounter, fun _ before' suffix' hs hb => ?_⟩, fun before' suffix' hs => ?_⟩
      · rw [← (hsuffix.unique hrules hs).1] at hb
        exact absurd hb hbefore
      · exact (hsuffix.unique hrules hs).2.symm
    · exact fun h => ⟨rfl, h.2 name suffix hsuffix⟩
  | whole hcounter hsuffix =>
    refine iff_of_true (.inl (List.append_nil s)) ⟨⟨fun h => absurd h hcounter, ?_⟩, ?_⟩
    · exact fun _ before suffix hs => absurd hs (hsuffix before suffix)
    · exact fun before suffix hs => absurd hs (hsuffix before suffix)

/-! ## The plugins that load an Archive -/

/-- The plugin extensions of a game have four characters. -/
theorem forProfile_pluginExtensions {game : Game} {requestedLimit : Option UInt64} {ext : Text}
    (h : ext ∈ (Settings.forProfile game requestedLimit).pluginExtensions) :
    ext.length = 4 ∧ ext.head? = some '.' ∧ '.' ∉ ext.tail := by
  cases game <;> simp [Settings.forProfile, Settings.get, Settings.sse] at h <;> rcases h with rfl | rfl | rfl <;> decide

theorem forProfile_extension (game : Game) (requestedLimit : Option UInt64) :
    (Settings.forProfile game requestedLimit).extension.length = 4 ∧
      (Settings.forProfile game requestedLimit).extension.head? = some '.' ∧
      '.' ∉ (Settings.forProfile game requestedLimit).extension.tail := by
  cases game <;> simp [Settings.forProfile, Settings.get, Settings.sse]

/-- **Which plugins load an Archive**: those whose stem is the Archive's name, with its suffix or without. -/
theorem mem_loadingPluginNames {game : Game} {requestedLimit : Option UInt64} {archive : ArchiveName}
    {stem ext : Text} (hext : ext ∈ (Settings.forProfile game requestedLimit).pluginExtensions) :
    archive.dir ++ [OsStr.ofText (stem ++ ext)] ∈
        loadingPluginNames archive (GameArchivePacker.rules (.forProfile game requestedLimit)) ↔
      numbered archive.name archive.counter = stem ∨
        suffixed (numbered archive.name archive.counter) archive.suffix = stem := by
  unfold loadingPluginNames
  simp only [List.mem_flatMap, List.mem_cons, List.not_mem_nil, or_false, ArchiveName.fullPath, ArchiveName.fullName]
  have hinj : ∀ {stem' ext' : Text}, ext' ∈ (Settings.forProfile game requestedLimit).pluginExtensions →
      (archive.dir ++ [OsStr.ofText (stem ++ ext)] = archive.dir ++ [OsStr.ofText (stem' ++ ext')] ↔
        stem = stem' ∧ ext = ext') := by
    intro stem' ext' hext'
    have hlength := (forProfile_pluginExtensions hext).1.trans (forProfile_pluginExtensions hext').1.symm
    rw [List.append_cancel_left_eq, List.cons.injEq, OsStr.ofText_injective.eq_iff]
    constructor
    · rintro ⟨heq, -⟩
      exact List.append_inj' heq hlength
    · rintro ⟨rfl, rfl⟩
      exact ⟨rfl, rfl⟩
  constructor
  · rintro ⟨ext', hext', heq | heq⟩
    · exact .inr ((hinj hext').mp heq).1.symm
    · have hstem := ((hinj hext').mp heq).1
      rw [suffixed_nil] at hstem
      exact .inl hstem.symm
  · rintro (rfl | rfl)
    · exact ⟨ext, hext, .inr ((hinj hext).mpr ⟨(suffixed_nil _).symm, rfl⟩)⟩
    · exact ⟨ext, hext, .inl ((hinj hext).mpr ⟨rfl, rfl⟩)⟩

/-! ## Names of files -/

/-- The stem of a file's name. -/
def stemOf (path : Path) : Text :=
  match (fileName path).toStr with
  | some text => (splitFileName text).1
  | none => []

/-- An extension: a dot, and no other. -/
def IsExtension (ext : Text) : Prop := ext.length = 4 ∧ ext.head? = some '.' ∧ '.' ∉ ext.tail

theorem splitFileName_append {stem ext : Text} (hstem : stem ≠ []) (hext : IsExtension ext) :
    splitFileName (stem ++ ext) = (stem, ext) := by
  obtain ⟨hlength, hhead, htail⟩ := hext
  obtain ⟨rest, rfl⟩ : ∃ rest, ext = '.' :: rest := by
    cases ext with
    | nil => cases hhead
    | cons c rest => exact ⟨rest, by rw [List.head?_cons, Option.some.injEq] at hhead; rw [hhead]⟩
  rw [List.tail_cons] at htail
  have hpos := List.length_pos_of_ne_nil hstem
  have hlong : (stem ++ '.' :: rest).length = stem.length + 4 := by rw [List.length_append, hlength]
  have hnames : ¬(stem ++ '.' :: rest = ".".toList ∨ stem ++ '.' :: rest = "..".toList) := by
    rintro (h | h) <;> rw [h] at hlong <;> simp at hlong
  have hafter : ((stem ++ '.' :: rest).reverse.takeWhile fun d => d ≠ '.') = rest.reverse := by
    rw [List.reverse_append, List.reverse_cons, List.append_assoc, List.takeWhile_append_of_pos]
    · simp
    · intro c hc
      simp only [decide_not, Bool.not_eq_true', decide_eq_false_iff_not]
      rintro rfl
      exact htail (List.mem_reverse.mp hc)
  have hdot : rfind '.' (stem ++ '.' :: rest) = some stem.length := by
    unfold rfind
    simp only [hafter, List.length_reverse, hlong]
    rw [List.length_cons] at hlength
    rw [if_neg (by omega), Option.some.injEq]
    omega
  unfold splitFileName
  rw [if_neg hnames, hdot]
  simp only [hpos, if_true, List.take_left, List.drop_left]

theorem splitFileName_eq {text : Text} (h : (splitFileName text).2 ≠ []) :
    (splitFileName text).1 ≠ [] ∧ (splitFileName text).1 ++ (splitFileName text).2 = text := by
  unfold splitFileName at *
  split at h
  · exact absurd rfl h
  · next hnames =>
    rw [if_neg hnames]
    cases hdot : rfind '.' text with
    | none => simp [hdot] at h
    | some dot =>
      simp only [hdot] at h ⊢
      split_ifs at h ⊢ with hpos
      · refine ⟨?_, List.take_append_drop dot text⟩
        have hne : text ≠ [] := by
          rintro rfl
          simp at h
        have := List.length_pos_of_ne_nil hne
        intro hnil
        have hlength := congrArg List.length hnil
        rw [List.length_take, List.length_nil] at hlength
        omega
      · exact absurd rfl h

variable {game : Game} {requestedLimit : Option UInt64}

/-- **What a name is made from**: the stem of the file and a known extension. -/
theorem make_eq_some {path : Path} {kind : NameKind} {archive : ArchiveName}
    (h : FilePath.make path (.forProfile game requestedLimit) kind = some archive) :
    ∃ ext, IsExtension ext ∧ stemOf path ≠ [] ∧ path = archive.dir ++ [OsStr.ofText (stemOf path ++ ext)] ∧
      (kind = .plugin → ext ∈ (Settings.forProfile game requestedLimit).pluginExtensions) ∧
      Split (.forProfile game requestedLimit) (stemOf path) archive.name archive.counter archive.suffix := by
  unfold FilePath.make at h
  cases hlast : path.getLast? with
  | none => simp [hlast] at h
  | some name =>
    cases htext : name.toStr with
    | none => simp [hlast, htext] at h
    | some text =>
      simp only [hlast, htext, Option.bind_eq_bind, Option.bind_some] at h
      split_ifs at h with hknown
      rw [Option.some.injEq] at h
      subst h
      have hstem : stemOf path = (splitFileName text).1 := by
        simp [stemOf, fileName, hlast, htext]
      have hext : IsExtension (splitFileName text).2 := by
        cases kind with
        | plugin => exact forProfile_pluginExtensions (List.contains_iff_mem.mp hknown)
        | archive =>
          have hext : (splitFileName text).2 = (Settings.forProfile game requestedLimit).extension := by
            simpa using hknown
          rw [hext]
          exact forProfile_extension game requestedLimit
      have hne : (splitFileName text).2 ≠ [] := by
        intro hnil
        rw [hnil] at hext
        exact absurd hext.1 (by simp)
      obtain ⟨hstemne, hsplit⟩ := splitFileName_eq hne
      refine ⟨(splitFileName text).2, hext, hstem ▸ hstemne, ?_, fun hkind => ?_, ?_⟩
      · rw [hstem, hsplit, ← OsStr.eq_ofText_of_toStr htext]
        exact (List.dropLast_append_getLast? name hlast).symm
      · subst hkind
        exact List.contains_iff_mem.mp hknown
      · rw [hstem]
        exact parseStem_split (forProfile_cleanRules game requestedLimit) _

/-- What a name is made from, with its own extension. -/
theorem make_parts {path : Path} {kind : NameKind} {archive : ArchiveName}
    (h : FilePath.make path (.forProfile game requestedLimit) kind = some archive) :
    path = archive.dir ++ [OsStr.ofText (stemOf path ++ archive.ext)] ∧
      Split (.forProfile game requestedLimit) (stemOf path) archive.name archive.counter archive.suffix := by
  obtain ⟨ext, hext, hstem, hpath, -, hsplit⟩ := make_eq_some h
  refine ⟨?_, hsplit⟩
  unfold FilePath.make at h
  rw [hpath, List.getLast?_concat] at h
  simp only [Option.bind_eq_bind, Option.bind_some, OsStr.toStr_ofText, splitFileName_append hstem hext] at h
  split_ifs at h
  rw [Option.some.injEq] at h
  have hown : archive.ext = ext := by rw [← h]
  rw [hown]
  exact hpath

theorem make_append {dir : Path} {stem ext : Text} {kind : NameKind} (hstem : stem ≠ []) (hext : IsExtension ext)
    (hknown : match kind with
      | .plugin => ext ∈ (Settings.forProfile game requestedLimit).pluginExtensions
      | .archive => ext = (Settings.forProfile game requestedLimit).extension) :
    ∃ archive, FilePath.make (dir ++ [OsStr.ofText (stem ++ ext)]) (.forProfile game requestedLimit) kind =
        some archive ∧ archive.dir = dir ∧
      Split (.forProfile game requestedLimit) stem archive.name archive.counter archive.suffix := by
  unfold FilePath.make
  simp only [List.getLast?_concat, Option.bind_eq_bind, Option.bind_some, OsStr.toStr_ofText,
    splitFileName_append hstem hext, List.dropLast_concat]
  rw [if_pos]
  · exact ⟨_, rfl, rfl, parseStem_split (forProfile_cleanRules game requestedLimit) stem⟩
  · cases kind with
    | plugin => exact List.contains_iff_mem.mpr hknown
    | archive => simpa using hknown

/-! ## Soundness and completeness of the names -/

/-- The plugin an Archive is named after is found: by the name planning chose, and by that Archive's file. -/
def NamesakeFound (settings : Settings) (kind : ArchiveType) (path : Path) (plugin : ArchiveName) : Prop :=
  let rules := GameArchivePacker.rules settings
  path ∈ loadingPluginNames (outputName rules kind plugin) rules ∧
  ∃ archive, FilePath.make (outputName rules kind plugin).fullPath settings .archive = some archive ∧
    path ∈ loadingPluginNames archive rules

/-- The plugins with an Archive's own stem are found. -/
def OwnStemFound (settings : Settings) (path : Path) (archive : ArchiveName) : Prop :=
  ∀ ext ∈ settings.pluginExtensions,
    path.dropLast ++ [OsStr.ofText (stemOf path ++ ext)] ∈
      loadingPluginNames archive (GameArchivePacker.rules settings)

theorem outputSuffix_game (kind : ArchiveType) :
    outputSuffix (GameArchivePacker.rules (.forProfile game requestedLimit)) kind = [] ∨
      GameSuffix (.forProfile game requestedLimit)
        (outputSuffix (GameArchivePacker.rules (.forProfile game requestedLimit)) kind) := by
  cases game <;> cases kind <;> simp [outputSuffix, GameArchivePacker.rules, Settings.forProfile, Settings.get,
    Settings.sse, GameSuffix]

theorem Split.suffix_clean (hrules : CleanRules settings) {s name suffix : Text} {counter : Option Nat}
    (h : Split settings s name counter suffix) : suffix = [] ∨ CleanSuffix suffix := by
  cases h with
  | counterAfterSuffix _ hsuffix => exact .inr (hrules _ hsuffix.2)
  | counter => exact .inl rfl
  | counterBeforeSuffix _ hsuffix => exact .inr (hrules _ hsuffix.2)
  | suffix _ hsuffix => exact .inr (hrules _ hsuffix.2)
  | whole => exact .inl rfl

/-- A suffix the stem ends with is the one it is split into. -/
theorem Split.suffix_eq (hrules : CleanRules settings) {s name suffix : Text} {counter : Option Nat}
    (h : Split settings s name counter suffix) {before suffix' : Text} (hs : HasSuffix settings s before suffix') :
    suffix' = suffix := by
  cases h with
  | counterAfterSuffix hcounter => exact absurd hs (hcounter.no_suffix hrules _ _)
  | counter hcounter => exact absurd hs (hcounter.no_suffix hrules _ _)
  | counterBeforeSuffix _ hsuffix => exact (hs.unique hrules hsuffix).2
  | suffix _ hsuffix => exact (hs.unique hrules hsuffix).2
  | whole _ hsuffix => exact absurd hs (hsuffix _ _)

theorem Split.renders_own (hrules : CleanRules settings) {s name suffix : Text} {counter : Option Nat}
    (h : Split settings s name counter suffix) :
    (numbered name counter = s ∨ suffixed (numbered name counter) suffix = s) ↔ Renders settings s := by
  rw [renders_iff hrules h (h.suffix_clean hrules)]
  exact and_iff_left fun before suffix' hs => h.suffix_eq hrules hs

theorem forProfile_pluginExtensions_ne_nil :
    ∃ ext, ext ∈ (Settings.forProfile game requestedLimit).pluginExtensions := by
  cases game
  · exact ⟨_, List.mem_cons_self⟩
  · exact ⟨_, List.mem_cons_self⟩
  · exact ⟨_, List.mem_cons_self⟩

theorem ownStemFound_iff {path : Path} {archive : ArchiveName}
    (h : FilePath.make path (.forProfile game requestedLimit) .archive = some archive) :
    OwnStemFound (.forProfile game requestedLimit) path archive ↔
      Renders (.forProfile game requestedLimit) (stemOf path) := by
  obtain ⟨_, -, -, hpath, -, hsplit⟩ := make_eq_some h
  have hdir : path.dropLast = archive.dir := by
    rw [hpath]
    exact List.dropLast_concat
  rw [← hsplit.renders_own (forProfile_cleanRules game requestedLimit)]
  unfold OwnStemFound
  rw [hdir]
  constructor
  · intro hfound
    obtain ⟨ext, hext⟩ : ∃ ext, ext ∈ (Settings.forProfile game requestedLimit).pluginExtensions :=
      forProfile_pluginExtensions_ne_nil
    exact (mem_loadingPluginNames hext).mp (hfound ext hext)
  · exact fun heq ext hext => (mem_loadingPluginNames hext).mpr heq

/-- A suffix after a stem that ends in none is split off again. -/
theorem Split.of_suffixed (hrules : CleanRules settings) {s ns name suffix : Text} {counter : Option Nat}
    (hns : GameSuffix settings ns) (hnone : ∀ before suffix, ¬HasSuffix settings s before suffix)
    (h : Split settings (s ++ suffixSeparator ++ ns) name counter suffix) (hrenders : Renders settings s) :
    numbered name counter = s := by
  have hown : HasSuffix settings (s ++ suffixSeparator ++ ns) s ns := ⟨rfl, hns⟩
  cases h with
  | counterAfterSuffix hcounter => exact absurd hown (hcounter.no_suffix hrules _ _)
  | counter hcounter => exact absurd hown (hcounter.no_suffix hrules _ _)
  | counterBeforeSuffix _ hsuffix hbefore =>
    obtain ⟨rfl, -⟩ := hsuffix.unique hrules hown
    exact hbefore.digits.2.mpr (hrenders.atEnd hbefore).1
  | suffix _ hsuffix =>
    obtain ⟨rfl, -⟩ := hsuffix.unique hrules hown
    exact List.append_nil _
  | whole _ hsuffix => exact absurd hown (hsuffix _ _)

/-- A stem that renders without a suffix has none. -/
theorem Split.no_suffix (hrules : CleanRules settings) {s name suffix : Text} {counter : Option Nat}
    (h : Split settings s name counter suffix) (heq : numbered name counter = s) (before suffix' : Text) :
    ¬HasSuffix settings s before suffix' := by
  intro hs
  have hlength := hs.length
  cases h with
  | counterAfterSuffix hcounter => exact hcounter.no_suffix hrules _ _ hs
  | counter hcounter => exact hcounter.no_suffix hrules _ _ hs
  | counterBeforeSuffix _ hsuffix hbefore =>
    have hle := hbefore.digits.1
    rw [heq, (hsuffix.unique hrules hs).1] at hle
    omega
  | suffix _ hsuffix =>
    have hname : numbered name none = name := List.append_nil name
    rw [← heq, hname, (hsuffix.unique hrules hs).1] at hlength
    omega
  | whole _ hsuffix => exact hsuffix _ _ hs

/-- A stem renders as it was, suffix and all, or not at all. -/
theorem Split.suffixed_iff (hrules : CleanRules settings) {s name suffix : Text} {counter : Option Nat}
    (h : Split settings s name counter suffix) :
    suffixed (numbered name counter) suffix = s ↔ Renders settings s := by
  rw [← h.renders_own hrules]
  refine ⟨.inr, fun hor => hor.elim (fun hnumbered => ?_) id⟩
  have hrenders := (h.renders_own hrules).mp (.inl hnumbered)
  have hnone := h.no_suffix hrules hnumbered
  cases h with
  | counterAfterSuffix hcounter hsuffix => exact absurd hsuffix ((hrenders.atEnd hcounter).2 _ _)
  | counter => rw [suffixed_nil, hnumbered]
  | counterBeforeSuffix _ hsuffix => exact absurd hsuffix (hnone _ _)
  | suffix _ hsuffix => exact absurd hsuffix (hnone _ _)
  | whole => rw [suffixed_nil, hnumbered]

/-- **A file is named again** exactly where its stem renders as it was. -/
theorem fullPath_eq_iff {path : Path} {kind : NameKind} {archive : ArchiveName}
    (h : FilePath.make path (.forProfile game requestedLimit) kind = some archive) :
    archive.fullPath = path ↔ Renders (.forProfile game requestedLimit) (stemOf path) := by
  obtain ⟨hpath, hsplit⟩ := make_parts h
  rw [← hsplit.suffixed_iff (forProfile_cleanRules game requestedLimit)]
  constructor
  · intro heq
    rw [hpath] at heq
    unfold ArchiveName.fullPath at heq
    rw [List.append_cancel_left_eq, List.cons.injEq, OsStr.ofText_injective.eq_iff] at heq
    exact List.append_cancel_right heq.1
  · intro heq
    conv_rhs => rw [hpath]
    unfold ArchiveName.fullPath ArchiveName.fullName
    rw [heq]

theorem mem_loadingPluginNames_path {path : Path} {archive : ArchiveName} {stem ext : Text}
    (hext : ext ∈ (Settings.forProfile game requestedLimit).pluginExtensions)
    (hpath : path = archive.dir ++ [OsStr.ofText (stem ++ ext)]) :
    path ∈ loadingPluginNames archive (GameArchivePacker.rules (.forProfile game requestedLimit)) ↔
      numbered archive.name archive.counter = stem ∨
        suffixed (numbered archive.name archive.counter) archive.suffix = stem := by
  subst hpath
  exact mem_loadingPluginNames hext

theorem namesakeFound_iff {path : Path} {kind : ArchiveType} {plugin : ArchiveName}
    (h : FilePath.make path (.forProfile game requestedLimit) .plugin = some plugin) :
    NamesakeFound (.forProfile game requestedLimit) kind path plugin ↔
      Renders (.forProfile game requestedLimit) (stemOf path) ∧
        ∀ before suffix, HasSuffix (.forProfile game requestedLimit) (stemOf path) before suffix →
          suffix = outputSuffix (GameArchivePacker.rules (.forProfile game requestedLimit)) kind := by
  have hrules := forProfile_cleanRules game requestedLimit
  obtain ⟨ext, -, hstem, hpath, hext, hsplit⟩ := make_eq_some h
  have hext := hext rfl
  obtain ⟨ns, hns⟩ : ∃ ns, ns = outputSuffix (GameArchivePacker.rules (.forProfile game requestedLimit)) kind := ⟨_, rfl⟩
  have hgame : ns = [] ∨ GameSuffix (.forProfile game requestedLimit) ns := hns ▸ outputSuffix_game kind
  rw [← hns]
  have hiff := renders_iff hrules hsplit (hgame.imp_right (hrules ns))
  have hdir : path = (outputName (GameArchivePacker.rules (.forProfile game requestedLimit)) kind plugin).dir ++
      [OsStr.ofText (stemOf path ++ ext)] := hpath
  have hplanned := mem_loadingPluginNames_path hext hdir
  have hnamed : (outputName (GameArchivePacker.rules (.forProfile game requestedLimit)) kind plugin).fullPath =
      plugin.dir ++ [OsStr.ofText (suffixed (numbered plugin.name plugin.counter) ns ++
        (Settings.forProfile game requestedLimit).extension)] := by
    rw [hns]
    rfl
  have hsuffix : (outputName (GameArchivePacker.rules (.forProfile game requestedLimit)) kind plugin).suffix = ns := hns.symm
  rw [hsuffix] at hplanned
  unfold NamesakeFound
  simp only [hnamed]
  rw [hplanned]
  -- The Archive's file is read as the plugin's stem, or as that stem and the suffix of its kind.
  have hread : ∀ stem, stem ≠ [] → (∀ name counter suffix,
      Split (.forProfile game requestedLimit) stem name counter suffix →
        numbered name counter = stemOf path ∨ suffixed (numbered name counter) suffix = stemOf path) →
      ∃ archive, FilePath.make (plugin.dir ++ [OsStr.ofText (stem ++
          (Settings.forProfile game requestedLimit).extension)]) (.forProfile game requestedLimit) .archive =
        some archive ∧
        path ∈ loadingPluginNames archive (GameArchivePacker.rules (.forProfile game requestedLimit)) := by
    intro stem hne hfound
    have hmade : ∃ archive : ArchiveName, FilePath.make (plugin.dir ++ [OsStr.ofText (stem ++
          (Settings.forProfile game requestedLimit).extension)]) (.forProfile game requestedLimit) .archive =
        some archive ∧ archive.dir = plugin.dir ∧
        Split (.forProfile game requestedLimit) stem archive.name archive.counter archive.suffix :=
      make_append hne (forProfile_extension game requestedLimit) rfl
    obtain ⟨archive, hmake, hdir, hsplit⟩ := hmade
    exact ⟨archive, hmake, (mem_loadingPluginNames_path hext (hdir ▸ hpath)).mpr (hfound _ _ _ hsplit)⟩
  constructor
  · exact fun hfound => hiff.mp hfound.1
  · intro hcond
    have hfound := hiff.mpr hcond
    refine ⟨hfound, ?_⟩
    have hown : suffixed (numbered plugin.name plugin.counter) ns = stemOf path →
        ∃ archive, FilePath.make (plugin.dir ++ [OsStr.ofText (suffixed (numbered plugin.name plugin.counter) ns ++
          (Settings.forProfile game requestedLimit).extension)]) (.forProfile game requestedLimit) .archive =
          some archive ∧
          path ∈ loadingPluginNames archive (GameArchivePacker.rules (.forProfile game requestedLimit)) := by
      intro heq
      rw [heq]
      exact hread _ hstem fun name counter suffix hs => (hs.renders_own hrules).mpr hcond.1
    rcases hfound with heq | heq
    · rcases hgame with hnil | hgame
      · exact hown (by rw [hnil, suffixed_nil, heq])
      · have hnone := hsplit.no_suffix hrules heq
        have hstem' : suffixed (numbered plugin.name plugin.counter) ns = stemOf path ++ suffixSeparator ++ ns := by
          rw [heq, suffixed, if_neg (hrules ns hgame).1]
        rw [hstem']
        exact hread _ (by simp [hstem]) fun name counter suffix hs => .inl (hs.of_suffixed hrules hgame hnone hcond.1)
    · exact hown heq

/-- **The names that load an Archive find its plugins exactly where a name renders as it was**: the plugin
planning named it after, where also its suffix is the Archive's, and the plugins with its stem. -/
theorem loadingPluginNames_iff (game : Game) (requestedLimit : Option UInt64) :
    (∀ path kind plugin, FilePath.make path (.forProfile game requestedLimit) .plugin = some plugin →
      (NamesakeFound (.forProfile game requestedLimit) kind path plugin ↔
        Renders (.forProfile game requestedLimit) (stemOf path) ∧
          ∀ before suffix, HasSuffix (.forProfile game requestedLimit) (stemOf path) before suffix →
            suffix = outputSuffix (GameArchivePacker.rules (.forProfile game requestedLimit)) kind)) ∧
    ∀ path archive, FilePath.make path (.forProfile game requestedLimit) .archive = some archive →
      (OwnStemFound (.forProfile game requestedLimit) path archive ↔
        Renders (.forProfile game requestedLimit) (stemOf path)) :=
  ⟨fun _ _ _ => namesakeFound_iff, fun _ _ => ownStemFound_iff⟩

/-- A plugin whose counter has a leading zero: its Archive is `Foo1.bsa`, which other plugins load. -/
theorem leadingZero_lost : ¬ ∀ game requestedLimit,
    (∀ path kind plugin, FilePath.make path (.forProfile game requestedLimit) .plugin = some plugin →
      NamesakeFound (.forProfile game requestedLimit) kind path plugin) ∧
    ∀ path archive, FilePath.make path (.forProfile game requestedLimit) .archive = some archive →
      OwnStemFound (.forProfile game requestedLimit) path archive := by
  intro h
  have hfound := ((h .sse none).1 (pathOf ["m", "Foo01.esp"]) .standard
    ⟨pathOf ["m"], "Foo".toList, [], ".esp".toList, some 1⟩ (by decide +kernel)).1
  revert hfound
  decide +kernel

end Cao.Pack
