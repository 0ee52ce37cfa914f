import Cao.Archive.EntryPath
import Cao.Lib.Ascii

/-!
# Entry paths and case

* `EntryPart.lower`: a safe component is safe in lower case;
* `RealPart`, **`canonicalArchiveEntryPath_accepts`**: a path as a directory lists it is accepted as it is;
* `foldedGamePath`, **`foldedGamePath_of_parts`**: the canonical path of a name, its case ignored.
-/

namespace Cao

open Ascii (Caseless toLower_eq_iff toLower_toLower toUpper_toLower any_map_toLower takeWhile_map_toLower
  dropWhile_map_toLower)

variable {part : Text}

/-! ## Components in lower case -/

theorem map_toLower_eq_iff {s t : Text} (ht : ∀ c ∈ t, Caseless c) : s.map Char.toLower = t ↔ s = t := by
  induction s generalizing t with
  | nil => simp
  | cons c s ih =>
    cases t with
    | nil => simp
    | cons d t =>
      rw [List.map_cons, List.cons.injEq, List.cons.injEq, toLower_eq_iff (ht d List.mem_cons_self),
        ih fun c hc => ht c (List.mem_cons_of_mem _ hc)]

theorem mem_map_toLower {s : Text} {d : Char} (hd : Caseless d) : d ∈ s.map Char.toLower ↔ d ∈ s := by
  simp only [List.mem_map, toLower_eq_iff hd, exists_eq_right]

theorem decide_toLower_eq {d : Char} (hd : Caseless d) (c : Char) : decide (c.toLower = d) = decide (c = d) :=
  decide_eq_decide.mpr (toLower_eq_iff hd)

theorem decide_toLower_ne {d : Char} (hd : Caseless d) (c : Char) : decide (c.toLower ≠ d) = decide (c ≠ d) :=
  decide_eq_decide.mpr (not_congr (toLower_eq_iff hd))

theorem trimEndMatches_map_toLower {p : Char → Bool} (hp : ∀ c, p c.toLower = p c) (s : Text) :
    trimEndMatches p (s.map Char.toLower) = (trimEndMatches p s).map Char.toLower := by
  unfold trimEndMatches
  rw [← List.map_reverse, dropWhile_map_toLower hp, List.map_reverse]

/-- Device names have no case. -/
theorem reservedDeviceName_lower (part : Text) : reservedDeviceName (part.map Char.toLower) = reservedDeviceName part := by
  have hdot : ∀ c : Char, decide (c.toLower ≠ '.') = decide (c ≠ '.') := decide_toLower_ne (by decide)
  have htrim : ∀ c : Char, (decide (c.toLower = ' ') || decide (c.toLower = '.')) = (decide (c = ' ') || decide (c = '.')) := by
    intro c
    rw [decide_toLower_eq (by decide), decide_toLower_eq (by decide)]
  have hupper : ∀ s : Text, (s.map Char.toLower).map Char.toUpper = s.map Char.toUpper := by
    intro s
    rw [List.map_map]
    exact List.map_congr_left fun c _ => toUpper_toLower c
  unfold reservedDeviceName
  dsimp only
  rw [takeWhile_map_toLower hdot, trimEndMatches_map_toLower htrim, hupper]

theorem getLast?_map_toLower {d : Char} (hd : Caseless d) (part : Text) :
    (part.map Char.toLower).getLast? = some d ↔ part.getLast? = some d := by
  rw [List.getLast?_map, Option.map_eq_some_iff]
  constructor
  · rintro ⟨c, hc, h⟩
    rw [hc, (toLower_eq_iff hd).mp h]
  · intro h
    exact ⟨d, h, (toLower_eq_iff hd).mpr rfl⟩

theorem isStagingName_lower (part : Text) :
    isStagingName (OsStr.ofText (part.map Char.toLower)) = isStagingName (OsStr.ofText part) := by
  unfold isStagingName
  rw [OsStr.lossy_ofText, OsStr.lossy_ofText, List.map_map]
  congr 1
  exact List.map_congr_left fun c _ => toLower_toLower c

theorem aliasedPart_lower (part : Text) : aliasedPart (part.map Char.toLower) = aliasedPart part := by
  unfold aliasedPart
  rw [isStagingName_lower, reservedDeviceName_lower, decide_eq_decide.mpr (getLast?_map_toLower (by decide) part),
    decide_eq_decide.mpr (getLast?_map_toLower (by decide) part)]

theorem OrdinaryPart.lower (h : OrdinaryPart part) : OrdinaryPart (part.map Char.toLower) where
  nonempty := by simpa using h.nonempty
  notHere := fun he => h.notHere ((map_toLower_eq_iff (forall_of_all (by decide))).mp he)
  notParent := fun he => h.notParent ((map_toLower_eq_iff (forall_of_all (by decide))).mp he)
  noSlash := fun hm => h.noSlash ((mem_map_toLower (by decide)).mp hm)
  noBackslash := fun hm => h.noBackslash ((mem_map_toLower (by decide)).mp hm)
  noColon := fun hm => h.noColon ((mem_map_toLower (by decide)).mp hm)

/-- **A safe component is safe in lower case.** -/
theorem EntryPart.lower (h : EntryPart part) : EntryPart (part.map Char.toLower) where
  toOrdinaryPart := h.toOrdinaryPart.lower
  unaliased := (aliasedPart_lower part).trans h.unaliased
  clean := by
    intro c hc
    obtain ⟨d, hd, rfl⟩ := List.mem_map.mp hc
    obtain ⟨hcontrol, hreserved⟩ := h.clean d hd
    constructor
    · rw [Ascii.toNat_toLower]
      split_ifs <;> omega
    · intro hm
      have hcaseless : ∀ c ∈ entryReserved, Caseless c := forall_of_all (by decide)
      have hsame : d = d.toLower := (toLower_eq_iff (hcaseless _ hm)).mp rfl
      exact hreserved (hsame ▸ hm)

/-! ## Accepted names -/

/-- A component of a path as a directory lists it. -/
structure RealPart (part : Text) : Prop where
  nonempty : part ≠ []
  notHere : part ≠ ".".toList
  notParent : part ≠ "..".toList
  noSlash : '/' ∉ part
  noBackslash : '\\' ∉ part

instance (part : Text) : Decidable (RealPart part) :=
  decidable_of_iff (part ≠ [] ∧ part ≠ ".".toList ∧ part ≠ "..".toList ∧ '/' ∉ part ∧ '\\' ∉ part)
    ⟨fun ⟨h, h', h'', h₃, h₄⟩ => ⟨h, h', h'', h₃, h₄⟩,
      fun h => ⟨h.nonempty, h.notHere, h.notParent, h.noSlash, h.noBackslash⟩⟩

/-- **A path of listed components that is accepted is its own canonical form**, and its components are safe. -/
theorem canonicalArchiveEntryPath_accepts {parts : List Text} (h0 : parts ≠ []) (hreal : ∀ part ∈ parts, RealPart part)
    {path : Text} (h : canonicalArchiveEntryPath (['/'].intercalate parts) = .ok path) :
    path = ['/'].intercalate parts ∧ ∀ part ∈ parts, EntryPart part := by
  have hmap : (['/'].intercalate parts).map (fun c => if c = '\\' then '/' else c) = ['/'].intercalate parts := by
    refine (List.map_congr_left fun c hc => if_neg ?_).trans (List.map_id _)
    rintro rfl
    rcases mem_intercalate.mp hc with ⟨hslash, -⟩ | ⟨part, hpart, hmem⟩
    · exact absurd hslash (by decide)
    · exact (hreal part hpart).noBackslash hmem
  have hsplit : (['/'].intercalate parts).splitOn '/' = parts :=
    List.splitOn_intercalate '/' (fun part hpart => (hreal part hpart).noSlash) h0
  unfold canonicalArchiveEntryPath at h
  simp only [hmap, hsplit] at h
  split_ifs at h with hinvalid hdirectory
  simp only [not_or] at hinvalid
  obtain ⟨-, -, hcontrol, hreserved⟩ := hinvalid
  have hmem : ∀ part ∈ parts, ∀ c ∈ part, c ∈ ['/'].intercalate parts := fun part hpart c hc =>
    mem_intercalate.mpr (.inr ⟨part, hpart, hc⟩)
  have hclean : ∀ part ∈ parts, ∀ c ∈ part, ¬ c.toNat < 32 ∧ c ∉ entryReserved := fun part hpart c hc =>
    ⟨fun hlt => hcontrol (List.any_eq_true.mpr ⟨c, hmem part hpart c hc, decide_eq_true hlt⟩),
      fun hm => hreserved (List.any_eq_true.mpr ⟨c, hmem part hpart c hc, decide_eq_true hm⟩)⟩
  have hordinary : ∀ part ∈ parts, OrdinaryPart part := fun part hpart =>
    { nonempty := (hreal part hpart).nonempty
      notHere := (hreal part hpart).notHere
      notParent := (hreal part hpart).notParent
      noSlash := (hreal part hpart).noSlash
      noBackslash := (hreal part hpart).noBackslash
      noColon := fun hc => (hclean part hpart ':' hc).2 (by decide) }
  rw [foldlM_pushSegment hordinary, List.nil_append] at h
  split at h
  · cases h
  · cases h
  · next kept hne heq =>
    obtain rfl : parts = kept := Option.some.inj heq
    split_ifs at h with halias
    refine ⟨(Except.ok.inj h).symm, fun part hpart => ⟨hordinary part hpart, hclean part hpart, ?_⟩⟩
    rw [Bool.not_eq_true, List.any_eq_false] at halias
    simpa using halias part hpart

/-- The separators of a name have no kind. -/
theorem canonicalArchiveEntryPath_slashed (name : Text) :
    canonicalArchiveEntryPath (name.map fun c => if c = '\\' then '/' else c) = canonicalArchiveEntryPath name := by
  have hmap : (name.map fun c => if c = '\\' then '/' else c).map (fun c => if c = '\\' then '/' else c) =
      name.map fun c => if c = '\\' then '/' else c := by
    rw [List.map_map]
    refine List.map_congr_left fun c _ => ?_
    by_cases hc : c = '\\'
    · simp [hc]
    · simp [hc]
  unfold canonicalArchiveEntryPath
  rw [hmap]

/-- The canonical game path of a name, its case ignored. -/
def foldedGamePath (name : Text) : Option Text :=
  match canonicalArchiveEntryPath name with
  | .ok path => some (path.map Char.toLower)
  | .error _ => none

/-- **The game path of safe components, in either case and with either separator.** -/
theorem foldedGamePath_of_parts {parts : List Text} (h0 : parts ≠ []) (h : ∀ part ∈ parts, EntryPart part) {name : Text}
    (hname : (name.map fun c => if c = '\\' then '/' else c) = ['/'].intercalate parts) :
    foldedGamePath name = some ((['/'].intercalate parts).map Char.toLower) := by
  unfold foldedGamePath
  rw [← canonicalArchiveEntryPath_slashed, hname, canonicalArchiveEntryPath_of_parts h0 h]

end Cao
