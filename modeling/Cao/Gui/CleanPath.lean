import Cao.Lib.Segments
import Cao.Plugin.Path

/-!
# Clean paths

`clean_path` of `cao_gui::form`, for the folder that a user types, beside `clean_path` of `cao_optimizers::plugins`,
for the paths inside a plugin. Both are ports of `QDir::cleanPath`; only the first knows drives and UNC roots.

* `cleanPath`: the window's clean path;
* `IsNormal`: what a clean path is;
* **`cleanPath_normal`**: both are idempotent and clean, a path of which nothing is left is `.`, and they agree on the
  paths that have no drive and one root.
-/

namespace Cao.Gui

open Segments

/-- Whether a path segment is a drive, such as `C:`. -/
def isDrive (segment : Text) : Bool :=
  match utf8 segment with
  | [letter, colon] => (65 ≤ letter && letter ≤ 90 || 97 ≤ letter && letter ≤ 122) && colon == 58
  | _ => false

/-- `path.replace('\\', "/")`. -/
def slashed (path : Text) : Text := path.map fun c => if c = '\\' then '/' else c

/-- The separators that a path keeps before its segments, and what is beneath them. -/
def splitRoot : Text → Text × Text
  | '/' :: '/' :: rest => (['/', '/'], rest)
  | '/' :: rest => (['/'], rest)
  | path => ([], path)

/-- The segments with one more. -/
def pushSegment (rooted : Bool) (segments : List Text) (segment : Text) : List Text :=
  if segment = [] ∨ segment = ['.'] then segments
  else if segment = ['.', '.'] then
    -- a drive is the root of a relative-looking path
    if segments.getLast?.any fun last => last ≠ ['.', '.'] && !(segments.length == 1 && isDrive last) then
      segments.dropLast
    -- above the root of an absolute path, `..` has nowhere to go
    else if rooted || segments.head?.any isDrive then segments
    else segments ++ [['.', '.']]
  else segments ++ [segment]

/-- The segments of what is beneath a root. -/
def segmentsOf (rooted : Bool) (rest : Text) : List Text := (rest.splitOn '/').foldl (pushSegment rooted) []

/-- `clean_path`. -/
def cleanPath (path : Text) : Text :=
  if path = [] then []
  else
    let root := (splitRoot (slashed path)).1
    let rest := (splitRoot (slashed path)).2
    let segments := segmentsOf (root != []) rest
    let cleaned := root ++ ['/'].intercalate segments
    -- `C:` alone is the drive's root, which is written as `C:/` when the input had it
    let cleaned :=
      if segments.length = 1 ∧ segments.head?.any isDrive ∧ 2 < (utf8 rest).length then cleaned ++ ['/'] else cleaned
    if cleaned = [] then
      if root = [] then ['.'] else root
    else cleaned

/-- A typed Windows folder. -/
example : cleanPath "C:\\Mods\\\\.\\a\\..\\Skyrim\\".toList = "C:/Mods/Skyrim".toList := by decide +kernel

/-! ## Pushing a segment -/

section Pushing

variable {segment : Text} {segments : List Text} {rooted : Bool}

theorem isDrive_length (h : isDrive segment = true) : (utf8 segment).length = 2 := by
  unfold isDrive at h
  split at h
  · next hutf8 => rw [hutf8]; rfl
  · cases h

theorem isDrive_up : isDrive up = false := by decide

/-- A stack without a drive at its root. -/
theorem pushSegment_up_ordinary {below : List Text} {last : Text} (hlast : Ordinary last) :
    pushSegment rooted (below ++ [last]) up = below ∨ pushSegment rooted (below ++ [last]) up = below ++ [last] := by
  unfold pushSegment
  rw [if_neg (by simp), if_pos rfl]
  by_cases hdrive : below = [] ∧ isDrive last = true
  · right
    obtain ⟨rfl, hdrive⟩ := hdrive
    simp [hdrive]
  · left
    rw [if_pos, List.dropLast_concat]
    have : ¬ below = [] ∨ isDrive last = false := by simpa [imp_iff_not_or] using hdrive
    simpa [hlast.notUp] using this

theorem pushSegment_up_ups (ups : Nat) :
    pushSegment rooted (List.replicate ups up) up = if rooted then List.replicate ups up else List.replicate (ups + 1) up := by
  have hlast : (List.replicate ups up).getLast?.any
      (fun last => last ≠ ['.', '.'] && !((List.replicate ups up).length == 1 && isDrive last)) = false := by
    rw [Option.any_eq_false]
    intro last hmem
    have := List.eq_of_mem_replicate (List.mem_of_getLast? hmem)
    simp [this]
  have hhead : (List.replicate ups up).head?.any isDrive = false := by
    rw [Option.any_eq_false]
    intro first hmem
    rw [List.eq_of_mem_replicate (List.mem_of_head? hmem)]
    exact isDrive_up
  unfold pushSegment
  rw [if_neg (by simp), if_pos rfl, if_neg (by simp only [hlast]; simp), hhead, Bool.or_false]
  split_ifs
  · rfl
  · rw [List.replicate_succ']

/-- The window pushes. -/
theorem pushes_pushSegment : Pushes rooted (pushSegment rooted) where
  skips stack s hs := by
    unfold pushSegment
    rw [if_pos hs]
  adds stack s hs := by
    unfold pushSegment
    rw [if_neg (by simpa using ⟨hs.nonempty, hs.notHere⟩), if_neg hs.notUp]
  climbs hroot ups := by
    rw [pushSegment_up_ups, hroot]
    rfl
  goesUp stack h := by
    rcases h.eq_append_or_ups with ⟨below, last, rfl, hlast, hbelow⟩ | ⟨ups, rfl, hroot⟩
    · rcases @pushSegment_up_ordinary rooted below _ hlast with hpush | hpush
      · rwa [hpush]
      · rwa [hpush]
    · rw [pushSegment_up_ups]
      split_ifs with hr
      · exact h
      · exact ⟨ups + 1, [], by simp, fun hr' => absurd hr' hr, by simp⟩

/-- A plugin's paths are pushed. -/
theorem pushes_pushComponent : Pushes rooted (Plugin.pushComponent rooted) where
  skips stack s hs := by
    unfold Plugin.pushComponent
    rw [if_pos hs]
  adds stack s hs := by
    unfold Plugin.pushComponent
    rw [if_neg (by simpa using ⟨hs.nonempty, hs.notHere⟩), if_neg hs.notUp]
  climbs hroot ups := by
    unfold Plugin.pushComponent
    rw [if_neg (by simp), if_pos rfl, hroot]
    cases ups with
    | zero => rfl
    | succ ups => simp [List.replicate_succ']
  goesUp stack h := by
    unfold Plugin.pushComponent
    rw [if_neg (by simp), if_pos rfl]
    rcases h.eq_append_or_ups with ⟨below, last, rfl, hlast, hbelow⟩ | ⟨ups, rfl, hroot⟩
    · simpa [hlast.notUp] using hbelow
    · cases ups with
      | zero =>
        cases rooted with
        | true => exact h
        | false => exact ⟨1, [], rfl, by simp, by simp⟩
      | succ ups =>
        cases rooted with
        | true => exact absurd (hroot rfl) (by omega)
        | false => exact ⟨ups + 2, [], by simp [List.replicate_succ'], by simp, by simp⟩

/-- Without drives the two push alike. -/
theorem pushSegment_eq_pushComponent (h : ∀ s ∈ segments, isDrive s = false) :
    pushSegment rooted segments segment = Plugin.pushComponent rooted segments segment := by
  have hhead : segments.head?.any isDrive = false := by
    rw [Option.any_eq_false]
    intro first hmem
    simp [h first (List.mem_of_head? hmem)]
  unfold pushSegment Plugin.pushComponent
  rw [hhead, Bool.or_false]
  cases hget : segments.getLast? with
  | none => simp
  | some last =>
    have hdrive := h last (List.mem_of_getLast? hget)
    by_cases hlast : last = ['.', '.'] <;> simp [hlast, hdrive]

end Pushing

/-! ## Roots -/

section Roots

variable {path root rest : Text}

theorem slashed_noBackslash (path : Text) : '\\' ∉ slashed path := by
  rw [slashed, List.mem_map]
  rintro ⟨c, -, hc⟩
  split_ifs at hc with hback
  · cases hc
  · exact hback hc

theorem slashed_of_noBackslash (h : '\\' ∉ path) : slashed path = path := by
  unfold slashed
  conv_rhs => rw [← List.map_id path]
  refine List.map_congr_left fun c hmem => ?_
  rw [if_neg (by rintro rfl; exact h hmem)]
  rfl

theorem slashed_eq_nil : slashed path = [] ↔ path = [] := List.map_eq_nil_iff

/-- The separators that a path can keep. -/
def IsLead (lead : Text) : Prop := lead = [] ∨ lead = ['/'] ∨ lead = ['/', '/']

theorem splitRoot_lead (path : Text) : IsLead (splitRoot path).1 := by
  unfold splitRoot IsLead
  split <;> simp

theorem splitRoot_mem_rest {c : Char} (h : c ∈ (splitRoot path).2) : c ∈ path := by
  unfold splitRoot at h
  split at h
  · exact List.mem_cons_of_mem _ (List.mem_cons_of_mem _ h)
  · exact List.mem_cons_of_mem _ h
  · exact h

/-- What does not begin with a separator is put back beneath its root. -/
theorem splitRoot_append (hlead : IsLead root) (hrest : rest.head? ≠ some '/') : splitRoot (root ++ rest) = (root, rest) := by
  have hne : ∀ rest', rest ≠ '/' :: rest' := by
    rintro rest' rfl
    exact hrest rfl
  rcases hlead with rfl | rfl | rfl
  · unfold splitRoot
    split
    · next heq => exact absurd heq (hne _)
    · next heq => exact absurd heq (hne _)
    · rfl
  · unfold splitRoot
    split
    · next heq =>
      simp only [List.cons_append, List.nil_append, List.cons.injEq, true_and] at heq
      exact absurd heq (hne _)
    · next heq =>
      simp only [List.cons_append, List.nil_append, List.cons.injEq, true_and] at heq
      rw [heq]
    · next hnone => exact absurd rfl (hnone _)
  · rfl

end Roots

/-! ## What a clean path is -/

/-- The roots of a clean path: its leading separators, and beneath them the drive that stands alone. -/
def IsRoot (root : Text) : Prop :=
  ∃ lead, IsLead lead ∧ (root = lead ∨ ∃ drive, isDrive drive = true ∧ root = lead ++ drive ++ ['/'])

/-- **A clean path**: a root and segments that are written with single separators between them, none of them empty or
`.`, and a `..` only where nothing but `..`s stand before it. -/
def IsNormal (text : Text) : Prop :=
  ∃ root segments, IsRoot root ∧ text = root ++ ['/'].intercalate segments ∧ '\\' ∉ text ∧
    (∀ segment ∈ segments, segment ≠ [] ∧ segment ≠ ['.'] ∧ '/' ∉ segment) ∧
      ∀ before after, segments = before ++ ['.', '.'] :: after → root = [] ∧ ∀ segment ∈ before, segment = ['.', '.']

section Shape

variable {rooted : Bool} {segments : List Text} {lead : Text}

/-- Nothing but `..`s stands before a `..`. -/
theorem normal_before (h : Normal rooted segments) {before after : List Text} (heq : segments = before ++ up :: after) :
    rooted = false ∧ ∀ segment ∈ before, segment = up := by
  obtain ⟨ups, ordinary, rfl, hroot, hall⟩ := h
  have hlt : before.length < ups := by
    by_contra hge
    have hmem : up ∈ ordinary := by
      have hget : (List.replicate ups up ++ ordinary)[before.length]? = some up := by
        rw [heq, List.getElem?_append_right (le_refl _), Nat.sub_self]
        rfl
      rw [List.getElem?_append_right (by simpa using hge)] at hget
      exact List.mem_of_getElem? hget
    exact (hall _ hmem).notUp rfl
  refine ⟨by_contra fun hr => ?_, fun segment hmem => ?_⟩
  · have := hroot (by simpa using hr)
    omega
  · have htake : before = (List.replicate ups up ++ ordinary).take before.length := by
      rw [heq, List.take_left' rfl]
    rw [htake, List.take_append_of_le_length (by simpa using hlt.le)] at hmem
    exact List.eq_of_mem_replicate (List.mem_of_mem_take hmem)

/-- Leading separators and a normal stack make a clean path. -/
theorem isNormal_of_normal (hlead : IsLead lead) (h : Normal (lead != []) segments) :
    IsNormal (lead ++ ['/'].intercalate segments) := by
  refine ⟨lead, segments, ⟨lead, hlead, .inl rfl⟩, rfl, ?_, fun s hmem => ⟨h.nonempty hmem, ?_, h.noSlash hmem⟩,
    fun before after heq => ?_⟩
  · rw [List.mem_append, not_or]
    refine ⟨?_, h.join_noBackslash⟩
    rcases hlead with rfl | rfl | rfl <;> decide
  · rcases h.mem hmem with rfl | hs
    · simp
    · exact hs.notHere
  · obtain ⟨hroot, hall⟩ := normal_before h heq
    exact ⟨by simpa using hroot, hall⟩

/-- So do they with a drive that stands alone. -/
theorem isNormal_drive {drive : Text} (hlead : IsLead lead) (hback : '\\' ∉ drive) (hdrive : isDrive drive = true) :
    IsNormal (lead ++ drive ++ ['/']) := by
  refine ⟨lead ++ drive ++ ['/'], [], ⟨lead, hlead, .inr ⟨drive, hdrive, rfl⟩⟩, by simp, ?_, by simp, by simp⟩
  have hleads : '\\' ∉ lead := by rcases hlead with rfl | rfl | rfl <;> decide
  simp [hleads, hback]

/-- Such a text, cleaned once more, is read as what it was written from. -/
theorem slashed_lead (hlead : IsLead lead) (h : Normal rooted segments) {tail : Text} (htail : '\\' ∉ tail) :
    slashed (lead ++ (['/'].intercalate segments ++ tail)) = lead ++ (['/'].intercalate segments ++ tail) := by
  refine slashed_of_noBackslash ?_
  have hleads : '\\' ∉ lead := by rcases hlead with rfl | rfl | rfl <;> decide
  simp only [List.mem_append, not_or]
  exact ⟨hleads, h.join_noBackslash, htail⟩

end Shape

/-! ## The window's clean path -/

section Window

variable {path lead rest : Text} {segments : List Text}

/-- The separator that is written after a drive that stands alone. -/
def driveTail (segments : List Text) (rest : Text) : Text :=
  if segments.length = 1 ∧ segments.head?.any isDrive ∧ 2 < (utf8 rest).length then ['/'] else []

/-- A clean path is its root, its segments and the separator of a drive, or `.`. -/
theorem cleanPath_eq (hpath : path ≠ []) (hlead : (splitRoot (slashed path)).1 = lead)
    (hrest : (splitRoot (slashed path)).2 = rest) (hsegments : segmentsOf (lead != []) rest = segments) :
    cleanPath path =
      if lead ++ (['/'].intercalate segments ++ driveTail segments rest) = [] then ['.']
      else lead ++ (['/'].intercalate segments ++ driveTail segments rest) := by
  unfold cleanPath driveTail
  rw [if_neg hpath]
  dsimp only
  rw [hlead, hrest, hsegments, ← List.append_assoc]
  split_ifs with hdrive hnil hlead <;> simp_all

theorem driveTail_noBackslash : '\\' ∉ driveTail segments rest := by
  unfold driveTail
  split_ifs <;> decide

theorem normal_segmentsOf (hrest : '\\' ∉ rest) {rooted : Bool} : Normal rooted (segmentsOf rooted rest) :=
  pushes_pushSegment.normal normal_nil (splitOn_noSeparator hrest)

/-- A separator is written after one drive only. -/
theorem driveTail_eq : driveTail segments rest = [] ∨
    ∃ drive, segments = [drive] ∧ isDrive drive = true ∧ driveTail segments rest = ['/'] := by
  unfold driveTail
  split_ifs with h
  · obtain ⟨hlength, hdrive, -⟩ := h
    obtain ⟨drive, rfl⟩ := List.length_eq_one_iff.mp hlength
    exact .inr ⟨drive, rfl, by simpa using hdrive, rfl⟩
  · exact .inl rfl

/-- The separator after a drive is seen again. -/
theorem driveTail_driveTail : driveTail segments (['/'].intercalate segments ++ driveTail segments rest) = driveTail segments rest := by
  by_cases hdrive : segments.length = 1 ∧ segments.head?.any isDrive = true
  · obtain ⟨hlength, hdrive⟩ := hdrive
    obtain ⟨drive, rfl⟩ := List.length_eq_one_iff.mp hlength
    have hdrive : isDrive drive = true := by simpa using hdrive
    have hbytes := isDrive_length hdrive
    have hslash : utf8 ['/'] = [47] := by decide
    unfold driveTail
    rw [List.intercalate_singleton]
    by_cases hlong : 2 < (utf8 rest).length
    · simp [hdrive, hlong, hbytes, hslash]
    · simp [hlong, hbytes]
  · unfold driveTail
    rw [if_neg fun h => hdrive ⟨h.1, h.2.1⟩, if_neg fun h => hdrive ⟨h.1, h.2.1⟩]

theorem join_driveTail_head {rooted : Bool} (h : Normal rooted segments) :
    (['/'].intercalate segments ++ driveTail segments rest).head? ≠ some '/' := by
  rcases @driveTail_eq rest segments with htail | ⟨drive, rfl, -, htail⟩
  · rw [htail, List.append_nil]
    exact h.join_head
  · have hhead := h.join_head
    rw [List.intercalate_singleton] at hhead ⊢
    rwa [List.head?_append_of_ne_nil _ (h.nonempty List.mem_cons_self)]

theorem segmentsOf_join {rooted : Bool} (h : Normal rooted segments) :
    segmentsOf rooted (['/'].intercalate segments ++ driveTail segments rest) = segments := by
  unfold segmentsOf
  rcases @driveTail_eq rest segments with htail | ⟨drive, rfl, -, htail⟩
  · rw [htail, List.append_nil]
    exact h.foldl_splitOn pushes_pushSegment
  · rw [htail, pushes_pushSegment.foldl_trailing]
    exact h.foldl_splitOn pushes_pushSegment

/-- What a clean path is written from. -/
theorem cleanPath_shape (hpath : path ≠ []) : ∃ lead rest segments, IsLead lead ∧ Normal (lead != []) segments ∧
    cleanPath path =
      if lead ++ (['/'].intercalate segments ++ driveTail segments rest) = [] then ['.']
      else lead ++ (['/'].intercalate segments ++ driveTail segments rest) := by
  have hback : '\\' ∉ (splitRoot (slashed path)).2 := fun hmem => slashed_noBackslash path (splitRoot_mem_rest hmem)
  exact ⟨_, _, _, splitRoot_lead _, normal_segmentsOf hback, cleanPath_eq hpath rfl rfl rfl⟩

/-- **A clean path stays as it is.** -/
theorem cleanPath_idem (path : Text) : cleanPath (cleanPath path) = cleanPath path := by
  by_cases hpath : path = []
  · subst hpath
    rfl
  · obtain ⟨lead, rest, segments, hleads, hnormal, hclean⟩ := cleanPath_shape hpath
    rw [hclean]
    split_ifs with hnil
    · decide
    · have hslashed := slashed_lead hleads hnormal (@driveTail_noBackslash rest segments)
      have hroot := splitRoot_append hleads (@join_driveTail_head rest _ _ hnormal)
      rw [@cleanPath_eq _ lead _ segments hnil (by rw [hslashed, hroot]) rfl
        (by rw [hslashed, hroot]; exact segmentsOf_join hnormal), hslashed, hroot]
      dsimp only
      rw [driveTail_driveTail, if_neg hnil]

/-- **The window's clean path is clean**, or `.`. -/
theorem cleanPath_isNormal (path : Text) : cleanPath path = ['.'] ∨ IsNormal (cleanPath path) := by
  by_cases hpath : path = []
  · subst hpath
    exact .inr ⟨[], [], ⟨[], .inl rfl, .inl rfl⟩, rfl, by simp [cleanPath], by simp, by simp⟩
  · obtain ⟨lead, rest, segments, hleads, hnormal, hclean⟩ := cleanPath_shape hpath
    rw [hclean]
    split_ifs with hnil
    · exact .inl rfl
    · right
      rcases @driveTail_eq rest segments with htail | ⟨drive, rfl, hdrive, htail⟩
      · rw [htail, List.append_nil]
        exact isNormal_of_normal hleads hnormal
      · rw [htail, List.intercalate_singleton, ← List.append_assoc]
        exact isNormal_drive hleads (hnormal.noBackslash List.mem_cons_self) hdrive

end Window

/-! ## A plugin's clean path -/

section Plugin

variable {path lead rest : Text} {segments : List Text}

/-- What a plugin's clean path is written from. -/
theorem pluginPath_eq (hpath : path ≠ []) (hlead : lead = [] ∨ lead = ['/']) (hslashed : slashed path = lead ++ rest)
    (hhead : lead = [] → rest.head? ≠ some '/')
    (hsegments : (rest.splitOn '/').foldl (Plugin.pushComponent (lead != [])) [] = segments) :
    Plugin.cleanPath path =
      if lead ++ ['/'].intercalate segments = [] then ['.'] else lead ++ ['/'].intercalate segments := by
  have hne : slashed path ≠ [] := fun h => hpath (slashed_eq_nil.mp h)
  unfold Plugin.cleanPath
  rw [← slashed, if_neg hne]
  dsimp only
  rcases hlead with rfl | rfl
  · have habsolute : ((slashed path).head? == some '/') = false := by
      rw [hslashed]
      simpa using hhead rfl
    have hempty : (([] : Text) != []) = false := rfl
    rw [habsolute, hslashed]
    rw [hempty] at hsegments
    simp only [List.nil_append, hsegments]
    split_ifs <;> simp_all
  · have hskip : Plugin.pushComponent true [] [] = [] := rfl
    have hroot : ((['/'] : Text) != []) = true := rfl
    rw [hroot] at hsegments
    rw [hslashed, List.singleton_append, splitOn_slash_cons, List.foldl_cons]
    have habsolute : (('/' :: rest).head? == some '/') = true := rfl
    rw [habsolute, hskip, hsegments, if_pos rfl, if_neg (by simp)]
    rfl

/-- The root of a path, for a plugin. -/
theorem plugin_root (path : Text) : ∃ lead rest, (lead = [] ∨ lead = ['/']) ∧ slashed path = lead ++ rest ∧
    (lead = [] → rest.head? ≠ some '/') := by
  cases hpath : slashed path with
  | nil => exact ⟨[], [], .inl rfl, rfl, by simp⟩
  | cons c rest =>
    by_cases hc : c = '/'
    · exact ⟨['/'], rest, .inr rfl, by rw [hc]; rfl, by simp⟩
    · exact ⟨[], c :: rest, .inl rfl, rfl, by simpa using hc⟩

theorem pluginPath_shape (hpath : path ≠ []) : ∃ lead segments, (lead = [] ∨ lead = ['/']) ∧ Normal (lead != []) segments ∧
    Plugin.cleanPath path =
      if lead ++ ['/'].intercalate segments = [] then ['.'] else lead ++ ['/'].intercalate segments := by
  obtain ⟨lead, rest, hlead, hslashed, hhead⟩ := plugin_root path
  have hback : '\\' ∉ rest := by
    have := slashed_noBackslash path
    rw [hslashed, List.mem_append, not_or] at this
    exact this.2
  exact ⟨lead, _, hlead, pushes_pushComponent.normal normal_nil (splitOn_noSeparator hback),
    pluginPath_eq hpath hlead hslashed hhead rfl⟩

theorem isLead_of_plugin (hlead : lead = [] ∨ lead = ['/']) : IsLead lead := hlead.elim .inl fun h => .inr (.inl h)

/-- **A plugin's clean path stays as it is.** -/
theorem pluginPath_idem (path : Text) : Plugin.cleanPath (Plugin.cleanPath path) = Plugin.cleanPath path := by
  by_cases hpath : path = []
  · subst hpath
    rfl
  · obtain ⟨lead, segments, hlead, hnormal, hclean⟩ := pluginPath_shape hpath
    rw [hclean]
    split_ifs with hnil
    · decide
    · have hslashed := @slashed_lead _ _ _ (isLead_of_plugin hlead) hnormal [] (by simp)
      rw [List.append_nil] at hslashed
      rw [pluginPath_eq hnil hlead hslashed (fun _ => hnormal.join_head)
        (hnormal.foldl_splitOn pushes_pushComponent), if_neg hnil]

/-- **A plugin's clean path is clean**, or `.`. -/
theorem pluginPath_isNormal (path : Text) : Plugin.cleanPath path = ['.'] ∨ IsNormal (Plugin.cleanPath path) := by
  by_cases hpath : path = []
  · subst hpath
    exact cleanPath_isNormal []
  · obtain ⟨lead, segments, hlead, hnormal, hclean⟩ := pluginPath_shape hpath
    rw [hclean]
    split_ifs with hnil
    · exact .inl rfl
    · exact .inr (isNormal_of_normal (isLead_of_plugin hlead) hnormal)

/-! ## Where the two agree -/

theorem mem_pushComponent {rooted : Bool} {segment s : Text} (h : s ∈ Plugin.pushComponent rooted segments segment) :
    s ∈ segments ∨ s = segment := by
  unfold Plugin.pushComponent at h
  by_cases hskip : segment = [] ∨ segment = ['.']
  · rw [if_pos hskip] at h
    exact .inl h
  · rw [if_neg hskip] at h
    by_cases hup : segment = ['.', '.']
    · rw [if_pos hup] at h
      cases hget : segments.getLast? with
      | none =>
        simp only [hget] at h
        split_ifs at h
        · exact .inl h
        · simpa [hup] using h
      | some last =>
        simp only [hget] at h
        split_ifs at h
        · exact .inl (List.mem_of_mem_dropLast h)
        · exact .inl h
        · simpa [hup] using h
    · rw [if_neg hup] at h
      simpa using h

theorem noDrive_foldl {rooted : Bool} {parts : List Text} (hstack : ∀ s ∈ segments, isDrive s = false)
    (h : ∀ s ∈ parts, isDrive s = false) :
    ∀ s ∈ parts.foldl (Plugin.pushComponent rooted) segments, isDrive s = false := by
  induction parts generalizing segments with
  | nil => exact hstack
  | cons part parts ih =>
    rw [List.foldl_cons]
    refine ih (fun s hmem => ?_) fun s hmem => h s (List.mem_cons_of_mem _ hmem)
    rcases mem_pushComponent hmem with hmem | rfl
    · exact hstack s hmem
    · exact h s List.mem_cons_self

theorem foldl_pushSegment {rooted : Bool} {parts : List Text} (hstack : ∀ s ∈ segments, isDrive s = false)
    (h : ∀ s ∈ parts, isDrive s = false) :
    parts.foldl (pushSegment rooted) segments = parts.foldl (Plugin.pushComponent rooted) segments := by
  induction parts generalizing segments with
  | nil => rfl
  | cons part parts ih =>
    rw [List.foldl_cons, List.foldl_cons, pushSegment_eq_pushComponent hstack]
    refine ih (fun s hmem => ?_) fun s hmem => h s (List.mem_cons_of_mem _ hmem)
    rcases mem_pushComponent hmem with hmem | rfl
    · exact hstack s hmem
    · exact h s List.mem_cons_self

/-- **Without drives and a second separator in front, the two agree.** -/
theorem cleanPath_eq_pluginPath (hdrive : ∀ segment ∈ (slashed path).splitOn '/', isDrive segment = false)
    (hunc : ¬ ['/', '/'] <+: slashed path) : cleanPath path = Plugin.cleanPath path := by
  by_cases hpath : path = []
  · subst hpath
    rfl
  · obtain ⟨lead, rest, hlead, hslashed, hhead⟩ := plugin_root path
    have hrest : rest.head? ≠ some '/' := by
      rcases hlead with rfl | rfl
      · exact hhead rfl
      · intro hsecond
        obtain ⟨rest', rfl⟩ : ∃ rest', rest = '/' :: rest' := by
          cases rest with
          | nil => cases hsecond
          | cons c rest' => exact ⟨rest', by rw [Option.some.inj hsecond]⟩
        exact hunc ⟨rest', hslashed.symm⟩
    have hparts : ∀ segment ∈ rest.splitOn '/', isDrive segment = false := by
      intro segment hmem
      refine hdrive segment ?_
      rw [hslashed]
      rcases hlead with rfl | rfl
      · exact hmem
      · rw [List.singleton_append, splitOn_slash_cons]
        exact List.mem_cons_of_mem _ hmem
    have hroot := splitRoot_append (isLead_of_plugin hlead) hrest
    have hsegments := @foldl_pushSegment [] (lead != []) _ (by simp) hparts
    have htail : driveTail (segmentsOf (lead != []) rest) rest = [] := by
      rcases @driveTail_eq rest (segmentsOf (lead != []) rest) with htail | ⟨drive, heq, hd, -⟩
      · exact htail
      · have hmem : drive ∈ segmentsOf (lead != []) rest := by simp [heq]
        have hplain : ∀ s ∈ segmentsOf (lead != []) rest, isDrive s = false := by
          unfold segmentsOf
          rw [hsegments]
          exact noDrive_foldl (by simp) hparts
        rw [hplain drive hmem] at hd
        cases hd
    rw [cleanPath_eq hpath (by rw [hslashed, hroot]) (by rw [hslashed, hroot]) rfl, htail, List.append_nil,
      pluginPath_eq hpath hlead hslashed hhead hsegments.symm]
    rfl

end Plugin

end Cao.Gui
