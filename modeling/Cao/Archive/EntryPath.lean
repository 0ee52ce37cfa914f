import Cao.Ordinal
import Cao.Staging.Names

/-!
# Archive entry paths

The paths of `run/archives.rs`: an entry's name made canonical, the destination beside its Archive and
the game path below the Mod Root.

* `canonicalArchiveEntryPath`: the entry names that are no Unsafe Game Path;
* **`canonicalArchiveEntryPath_ok`**, **`canonicalArchiveEntryPath_of_parts`**: what it accepts is a
  path of safe components, and every such path is its own canonical form;
* `joinGamePath`, `gamePathText`, `containedParts`: destinations and game paths;
* **`splitOn_gamePathKey`**: game paths are compared component by component;
* `SafeComponent`, `Escapes`, **`canonicalArchiveEntryPath_confined`**: what is accepted leads below every root.
-/

namespace Cao

/-! ## Canonical entry paths -/

/-- The detail of a name no game path can have. -/
def invalidGamePath : String := "Archive entry has an invalid game path."

/-- The detail of a name that is no entry below its directory. -/
def escapesDirectory : String := "Archive entry escapes its extraction directory."

/-- The detail of a name Win32 or CAO takes for another. -/
def aliasesReserved : String := "Archive entry aliases an unsafe or reserved path."

/-- The characters of no entry name. -/
def entryReserved : Text := ":*?\"<>|".toList

/-- One segment of a name, after the parts of those before it. -/
def pushSegment (parts : List Text) (segment : Text) : Option (List Text) :=
  if segment = [] ∨ segment = ".".toList then some parts
  else if segment = "..".toList then (if parts = [] then none else some parts.dropLast)
  else some (parts ++ [segment])

/-- A part Win32 aliases, or CAO reserves. -/
def aliasedPart (part : Text) : Bool :=
  part.getLast? = some '.' || part.getLast? = some ' ' || isStagingName (OsStr.ofText part) ||
    reservedDeviceName part

/-- `canonical_archive_entry_path`. -/
def canonicalArchiveEntryPath (name : Text) : Except String Text :=
  let name := name.map fun c => if c = '\\' then '/' else c
  if name = [] ∨ name.head? = some '/' ∨ (name.any fun c => c.toNat < 32) ∨
      (name.any fun c => c ∈ entryReserved) then
    .error invalidGamePath
  else
    let segments := name.splitOn '/'
    -- a trailing separator names a directory, not an entry
    if segments.getLast? = some [] ∨ segments.getLast? = some ".".toList ∨
        segments.getLast? = some "..".toList then
      .error escapesDirectory
    else
      match segments.foldlM pushSegment [] with
      | none => .error escapesDirectory
      | some [] => .error escapesDirectory
      | some parts =>
        if parts.any aliasedPart then .error aliasesReserved else .ok (['/'].intercalate parts)

/-- A component of a canonical entry path. -/
structure EntryPart (part : Text) : Prop extends OrdinaryPart part where
  clean : ∀ c ∈ part, ¬ c.toNat < 32 ∧ c ∉ entryReserved
  unaliased : aliasedPart part = false

theorem pushSegment_of_part {parts : List Text} {segment : Text} (h : OrdinaryPart segment) :
    pushSegment parts segment = some (parts ++ [segment]) := by
  unfold pushSegment
  rw [if_neg, if_neg h.notParent]
  rintro (h0 | h0)
  · exact h.nonempty h0
  · exact h.notHere h0

/-- Segments that name entries are all kept. -/
theorem foldlM_pushSegment {segments : List Text} (h : ∀ segment ∈ segments, OrdinaryPart segment)
    (parts : List Text) : segments.foldlM pushSegment parts = some (parts ++ segments) := by
  induction segments generalizing parts with
  | nil => simp
  | cons segment segments ih =>
    rw [List.foldlM_cons, pushSegment_of_part (h _ List.mem_cons_self)]
    show segments.foldlM pushSegment (parts ++ [segment]) = _
    rw [ih fun s hs => h s (List.mem_cons_of_mem _ hs)]
    simp

/-- Each part kept is a segment that names an entry. -/
theorem mem_of_foldlM_pushSegment {segments parts parts' : List Text}
    (h : segments.foldlM pushSegment parts = some parts') : ∀ part ∈ parts',
      part ∈ parts ∨ part ∈ segments ∧ part ≠ [] ∧ part ≠ ".".toList ∧ part ≠ "..".toList := by
  induction segments generalizing parts with
  | nil =>
    cases h
    exact fun part hp => .inl hp
  | cons segment segments ih =>
    rw [List.foldlM_cons] at h
    obtain ⟨next, hn, h⟩ := Option.bind_eq_some_iff.mp h
    intro part hp
    rcases ih h part hp with hp | ⟨hp, hne⟩
    · unfold pushSegment at hn
      split_ifs at hn with h1 h2 h3 <;> cases hn
      · exact .inl hp
      · exact .inl (List.mem_of_mem_dropLast hp)
      · rcases List.mem_append.mp hp with hp | hp
        · exact .inl hp
        · rw [List.mem_singleton] at hp
          subst hp
          rw [not_or] at h1
          exact .inr ⟨List.mem_cons_self, h1.1, h1.2, h2⟩
    · exact .inr ⟨List.mem_cons_of_mem _ hp, hne⟩

/-- **What is accepted is a path of safe components.** -/
theorem canonicalArchiveEntryPath_ok {name path : Text} (h : canonicalArchiveEntryPath name = .ok path) :
    ∃ parts, parts ≠ [] ∧ (∀ part ∈ parts, EntryPart part) ∧ path = ['/'].intercalate parts := by
  unfold canonicalArchiveEntryPath at h
  set text := name.map fun c => if c = '\\' then '/' else c with htext
  simp only at h
  split_ifs at h with h1 h2
  simp only [not_or] at h1
  obtain ⟨-, -, hcontrol, hreserved⟩ := h1
  have hback : '\\' ∉ text := by
    rw [htext, List.mem_map]
    rintro ⟨c, -, hc⟩
    split_ifs at hc with hb
    · cases hc
    · exact hb hc
  split at h
  · cases h
  · cases h
  · next parts hne hfold =>
    split_ifs at h with halias
    cases h
    refine ⟨parts, fun h0 => hne h0, fun part hp => ?_, rfl⟩
    rcases mem_of_foldlM_pushSegment hfold part hp with hp' | ⟨hseg, h0, hhere, hparent⟩
    · cases hp'
    · have hmem : ∀ c ∈ part, c ∈ text := fun c hc => mem_of_mem_splitOn hseg hc
      have hres : ∀ c ∈ part, c ∉ entryReserved := fun c hc hm =>
        hreserved (List.any_eq_true.mpr ⟨c, hmem c hc, decide_eq_true hm⟩)
      refine ⟨⟨h0, hhere, hparent, notMem_of_mem_splitOn hseg, fun hc => hback (hmem _ hc),
        fun hc => hres _ hc (by decide)⟩, fun c hc => ⟨fun hlt => ?_, hres c hc⟩, ?_⟩
      · exact hcontrol (List.any_eq_true.mpr ⟨c, hmem c hc, decide_eq_true hlt⟩)
      · rw [Bool.not_eq_true, List.any_eq_false] at halias
        exact Bool.eq_false_iff.mpr (halias part hp)

theorem splitOn_intercalate_parts {parts : List Text} (h0 : parts ≠ [])
    (h : ∀ part ∈ parts, OrdinaryPart part) : (['/'].intercalate parts).splitOn '/' = parts :=
  List.splitOn_intercalate '/' (fun part hp => (h part hp).noSlash) h0

/-- **A path of safe components is its own canonical form.** -/
theorem canonicalArchiveEntryPath_of_parts {parts : List Text} (h0 : parts ≠ [])
    (h : ∀ part ∈ parts, EntryPart part) :
    canonicalArchiveEntryPath (['/'].intercalate parts) = .ok (['/'].intercalate parts) := by
  have hord : ∀ part ∈ parts, OrdinaryPart part := fun part hp => (h part hp).toOrdinaryPart
  have hsplit := splitOn_intercalate_parts h0 hord
  have hne := intercalate_ne_nil h0 fun part hp => (hord part hp).nonempty
  have hclean : ∀ c ∈ ['/'].intercalate parts, c ≠ '\\' ∧ ¬ c.toNat < 32 ∧ c ∉ entryReserved := by
    intro c hc
    rcases mem_intercalate.mp hc with ⟨rfl, -⟩ | ⟨part, hp, hc⟩
    · decide
    · exact ⟨fun he => (hord part hp).noBackslash (he ▸ hc), (h part hp).clean c hc⟩
  have hmap : (['/'].intercalate parts).map (fun c => if c = '\\' then '/' else c) =
      ['/'].intercalate parts := by
    conv_rhs => rw [← List.map_id (['/'].intercalate parts)]
    refine List.map_congr_left fun c hc => ?_
    rw [if_neg (hclean c hc).1, id]
  have hhead : (['/'].intercalate parts).head? ≠ some '/' := by
    obtain ⟨a, ps, rfl⟩ := List.exists_cons_of_ne_nil h0
    obtain ⟨c, a, rfl⟩ := List.exists_cons_of_ne_nil (hord a List.mem_cons_self).nonempty
    have hc : c ≠ '/' := fun he => (hord _ List.mem_cons_self).noSlash (he ▸ List.mem_cons_self)
    cases ps with
    | nil => simpa using hc
    | cons b ps =>
      rw [List.intercalate_cons_cons]
      simpa using hc
  have hlast : ∀ part, parts.getLast? = some part → OrdinaryPart part := fun part hp =>
    hord part (List.mem_of_getLast? hp)
  unfold canonicalArchiveEntryPath
  simp only [hmap, hsplit]
  rw [if_neg, if_neg, foldlM_pushSegment hord, List.nil_append]
  · split
    · next heq => cases heq
    · next heq =>
      cases heq
      exact absurd rfl h0
    · next heq =>
      cases heq
      rw [if_neg]
      rw [Bool.not_eq_true, List.any_eq_false]
      intro part hp
      rw [(h part hp).unaliased]
      exact Bool.false_ne_true
  · rintro (hl | hl | hl)
    · exact (hlast _ hl).nonempty rfl
    · exact (hlast _ hl).notHere rfl
    · exact (hlast _ hl).notParent rfl
  · rintro (hl | hl | hl | hl)
    · exact hne hl
    · exact hhead hl
    · obtain ⟨c, hc, hlt⟩ := List.any_eq_true.mp hl
      exact (hclean c hc).2.1 (of_decide_eq_true hlt)
    · obtain ⟨c, hc, hm⟩ := List.any_eq_true.mp hl
      exact (hclean c hc).2.2 (of_decide_eq_true hm)

/-- **Canonicalization is idempotent.** -/
theorem canonicalArchiveEntryPath_idem {name path : Text} (h : canonicalArchiveEntryPath name = .ok path) :
    canonicalArchiveEntryPath path = .ok path := by
  obtain ⟨parts, h0, hparts, rfl⟩ := canonicalArchiveEntryPath_ok h
  exact canonicalArchiveEntryPath_of_parts h0 hparts

/-! ## Destinations -/

/-- `Path::strip_prefix`. -/
def relativeTo (root path : Path) : Option Path :=
  if root.isPrefixOf path then some (path.drop root.length) else none

theorem relativeTo_eq_some {root path relative : Path} :
    relativeTo root path = some relative ↔ path = root ++ relative := by
  unfold relativeTo
  split_ifs with h
  · obtain ⟨t, rfl⟩ := List.isPrefixOf_iff_prefix.mp h
    simp [eq_comm]
  · simp only [false_iff]
    rintro rfl
    exact h (List.isPrefixOf_iff_prefix.mpr (List.prefix_append _ _))

/-- `join_game_path`: a `/`-separated game path, joined onto a directory. -/
def joinGamePath (directory : Path) (gamePath : Text) : Path :=
  directory ++ (gamePath.splitOn '/').map OsStr.ofText

/-- `game_path_text`: the game path of a path beneath a Mod Root. -/
def gamePathText (relative : Path) : Text := ['/'].intercalate (relative.map OsStr.lossy)

/-- `contained_parts`: the components of a path beneath a root, outside the reserved namespace. -/
def containedParts (root path : Path) : Option Path :=
  (relativeTo root path).filter fun relative => relative ≠ [] && !hasStagingComponent relative

theorem containedParts_eq_some {root path parts : Path} : containedParts root path = some parts ↔
    path = root ++ parts ∧ parts ≠ [] ∧ hasStagingComponent parts = false := by
  simp [containedParts, Option.filter_eq_some_iff, relativeTo_eq_some]

/-! ## Comparing game paths -/

variable {table : UpcaseTable}

theorem separatorKey_notMem {part : Text} (h : '/' ∉ part) : separatorKey table ∉ gamePathKey table part := by
  intro hm
  obtain ⟨a, b, hab⟩ := List.append_of_mem hm
  obtain ⟨x, y, rfl, -, -⟩ := gamePathKey_split hab
  exact h (by simp)

theorem gamePathKey_intercalate (parts : List Text) : gamePathKey table (['/'].intercalate parts) =
    [separatorKey table].intercalate (parts.map (gamePathKey table)) := by
  induction parts with
  | nil => rfl
  | cons a parts ih =>
    cases parts with
    | nil => simp
    | cons b parts =>
      rw [List.intercalate_cons_cons, List.map_cons, List.map_cons, List.intercalate_cons_cons,
        gamePathKey_append, gamePathKey_append, ih, gamePathKey_slash, gamePathKey_nil, List.map_cons]

/-- **A game path's key holds its components' keys.** -/
theorem splitOn_gamePathKey {parts : List Text} (h0 : parts ≠ []) (h : ∀ part ∈ parts, '/' ∉ part) :
    (gamePathKey table (['/'].intercalate parts)).splitOn (separatorKey table) =
      parts.map (gamePathKey table) := by
  rw [gamePathKey_intercalate, List.splitOn_intercalate]
  · intro k hk
    obtain ⟨part, hp, rfl⟩ := List.mem_map.mp hk
    exact separatorKey_notMem (h part hp)
  · simpa using h0

/-! ## Confinement -/

/-- A component that names an entry of its directory to Win32 and to CAO: no root, no drive, no stream, no step to a
directory above, no device, no trailing dot or space and no reserved name. -/
structure SafeComponent (part : Text) : Prop extends OrdinaryPart part where
  unambiguous : ambiguousWindowsName part = false
  unreserved : isStagingName (OsStr.ofText part) = false

theorem EntryPart.safe {part : Text} (h : EntryPart part) : SafeComponent part := by
  have hunaliased := h.unaliased
  unfold aliasedPart at hunaliased
  simp only [Bool.or_eq_false_iff] at hunaliased
  obtain ⟨⟨⟨hdot, hspace⟩, hstaging⟩, hdevice⟩ := hunaliased
  have hreserved : ∀ c ∈ "<>:\"|?*".toList, c ∈ entryReserved := forall_of_all (by decide)
  refine ⟨h.toOrdinaryPart, ?_, hstaging⟩
  simp only [ambiguousWindowsName, Bool.or_eq_false_iff, List.any_eq_false, decide_eq_true_eq]
  refine ⟨⟨⟨⟨⟨decide_eq_false h.nonempty, hdot⟩, hspace⟩, fun c hc hm => ?_⟩, fun c hc hlt => ?_⟩, hdevice⟩
  · exact (h.clean c hc).2 (hreserved c hm)
  · exact (h.clean c hc).1 hlt

/-- Where one component leads, as Win32 reads it. -/
def lexicalStep (path : Path) (part : Text) : Path :=
  if part = [] ∨ part = ".".toList then path
  else if part = "..".toList then path.dropLast
  else path ++ [OsStr.ofText part]

/-- Where a game path leads from a directory, as Win32 reads it. -/
def lexicalJoin (root : Path) (gamePath : Text) : Path := (gamePath.splitOn '/').foldl lexicalStep root

/-- Safe components lead straight down. -/
theorem lexicalJoin_of_parts {parts : List Text} (h0 : parts ≠ []) (h : ∀ part ∈ parts, OrdinaryPart part)
    (root : Path) : lexicalJoin root (['/'].intercalate parts) = root ++ parts.map OsStr.ofText := by
  unfold lexicalJoin
  rw [splitOn_intercalate_parts h0 h]
  clear h0
  induction parts generalizing root with
  | nil => simp
  | cons part parts ih =>
    have hpart := h part List.mem_cons_self
    have hstep : lexicalStep root part = root ++ [OsStr.ofText part] := by
      unfold lexicalStep
      rw [if_neg, if_neg hpart.notParent]
      rintro (h0 | h0)
      · exact hpart.nonempty h0
      · exact hpart.notHere h0
    rw [List.foldl_cons, hstep, ih (fun p hp => h p (List.mem_cons_of_mem _ hp))]
    simp

/-- How many directories a segment goes down. -/
def rise (segment : Text) : Int :=
  if segment = [] ∨ segment = ".".toList then 0 else if segment = "..".toList then -1 else 1

/-- What the segments of a name go up to: `/` and `\` both separate them. -/
def segmentsOf (name : Text) : List Text := (name.map fun c => if c = '\\' then '/' else c).splitOn '/'

/-- A name with an escaping component: it begins at a root, names a drive or a stream, or some of its segments go up
further than those before them go down. -/
def Escapes (name : Text) : Prop :=
  (segmentsOf name).head? = some [] ∨ ':' ∈ name ∨
    ∃ before after, segmentsOf name = before ++ after ∧ (before.map rise).sum < 0

/-- Parts are kept only where no segment went up too far. -/
theorem sum_rise_of_fold {segments parts parts' : List Text} (h : segments.foldlM pushSegment parts = some parts') :
    (parts.length : Int) + (segments.map rise).sum = parts'.length := by
  induction segments generalizing parts with
  | nil =>
    cases h
    simp
  | cons segment segments ih =>
    rw [List.foldlM_cons] at h
    obtain ⟨next, hnext, h⟩ := Option.bind_eq_some_iff.mp h
    have hstep : (parts.length : Int) + rise segment = next.length := by
      unfold pushSegment at hnext
      unfold rise
      split_ifs at hnext ⊢ with hstays hparent hnone <;> cases hnext
      · omega
      · rw [List.length_dropLast]
        have := List.length_pos_iff.mpr hnone
        omega
      · rw [List.length_append, List.length_singleton]
        omega
    rw [List.map_cons, List.sum_cons, ← ih h, ← hstep]
    omega

/-- **A name with an escaping component is rejected.** -/
theorem canonicalArchiveEntryPath_escapes {name : Text} (h : Escapes name) :
    ∃ detail, canonicalArchiveEntryPath name = .error detail := by
  unfold canonicalArchiveEntryPath
  dsimp only
  split_ifs with hinvalid hdirectory
  · exact ⟨_, rfl⟩
  · exact ⟨_, rfl⟩
  · rw [not_or, not_or, not_or] at hinvalid
    obtain ⟨hempty, hhead, -, hreserved⟩ := hinvalid
    rcases h with hroot | hcolon | ⟨before, after, hsegments, hsum⟩
    · exfalso
      unfold segmentsOf at hroot
      cases hname : name.map fun c => if c = '\\' then '/' else c with
      | nil => exact hempty hname
      | cons c text =>
        rw [hname] at hroot hhead
        rw [List.splitOn_cons_eq_if_modifyHead] at hroot
        split_ifs at hroot with hc
        · exact hhead (by rw [eq_of_beq hc]; rfl)
        · cases hsplit : text.splitOn '/' <;> simp [hsplit] at hroot
    · exfalso
      refine hreserved (List.any_eq_true.mpr ⟨':', List.mem_map.mpr ⟨':', hcolon, rfl⟩, ?_⟩)
      exact decide_eq_true (by decide)
    · have hfold : (segmentsOf name).foldlM pushSegment [] = none := by
        rw [hsegments, List.foldlM_append]
        cases hbefore : before.foldlM pushSegment [] with
        | none => rfl
        | some parts =>
          have := sum_rise_of_fold hbefore
          simp only [List.length_nil] at this
          omega
      unfold segmentsOf at hfold
      rw [hfold]
      exact ⟨_, rfl⟩

/-- **Canonical entry paths are confined**: what is accepted is a path of safe components, which leads below every root it
is joined to and is its own canonical form, and every name with an escaping component is rejected. -/
theorem canonicalArchiveEntryPath_confined (name : Text) :
    (∀ path, canonicalArchiveEntryPath name = .ok path →
      (∃ parts, parts ≠ [] ∧ path = ['/'].intercalate parts ∧ ∀ part ∈ parts, SafeComponent part) ∧
      (∀ root, ∃ below, below ≠ [] ∧ joinGamePath root path = root ++ below ∧ lexicalJoin root path = root ++ below) ∧
      canonicalArchiveEntryPath path = .ok path) ∧
    (Escapes name → ∃ detail, canonicalArchiveEntryPath name = .error detail) := by
  refine ⟨fun path h => ?_, canonicalArchiveEntryPath_escapes⟩
  obtain ⟨parts, h0, hparts, rfl⟩ := canonicalArchiveEntryPath_ok h
  have hordinary : ∀ part ∈ parts, OrdinaryPart part := fun part hp => (hparts part hp).toOrdinaryPart
  refine ⟨⟨parts, h0, rfl, fun part hp => (hparts part hp).safe⟩, fun root => ?_, canonicalArchiveEntryPath_of_parts h0 hparts⟩
  refine ⟨parts.map OsStr.ofText, by simpa using h0, ?_, lexicalJoin_of_parts h0 hordinary root⟩
  rw [joinGamePath, splitOn_intercalate_parts h0 hordinary]

end Cao
