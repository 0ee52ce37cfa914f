import Cao.Winfs.Idempotent

/-!
# The canonical text of a path that does not exist

Below a root, a path without `:` is taken apart and put together again: where nothing of it exists, what
`weakly_canonical` returns is its lexical normal form.

* `nameElements_stackText`, `foldl_appendPath`: a stack's text is taken apart into its names, which put it together again;
* `Missing`, `elementPaths`: paths that Windows does not find, and the paths that the walk asks for;
* `weaklyCanonical_root`: a root that exists alone has its text on disk, which is not its lexical normal form;
* **`weaklyCanonical_missing`**: a path of which nothing exists has its lexical normal form.
-/

namespace Cao.Winfs

/-! ## Relative paths -/

section Relative

variable {below : Wide}

/-- A path that starts with a name and whose second unit is no `:` has no root name. -/
theorem findRootNameEnd_relative (hhead : ∀ x ∈ below.head?, isName x) (hcolon : (0x3A : UInt16) ∉ below) :
    findRootNameEnd below = 0 := by
  have hdrive : isDrivePrefix below = false := by
    unfold isDrivePrefix
    split
    · next letter colon rest =>
      have hne : colon ≠ 0x3A := fun heq => hcolon (by simp [heq])
      simp [hne]
    · rfl
  have hfirst : slashAt below 0 = false := by
    cases below with
    | nil => rfl
    | cons unit below => simpa [slashAt, isName] using hhead unit rfl
  unfold findRootNameEnd
  rw [hdrive, hfirst]
  simp

theorem isAbsolute_relative (hhead : ∀ x ∈ below.head?, isName x) (hcolon : (0x3A : UInt16) ∉ below) :
    isAbsolute below = false := by
  have hend := findRootNameEnd_relative hhead hcolon
  unfold isAbsolute
  split_ifs with hdrive
  · match below, hdrive with
    | letter :: colon :: rest, hdrive =>
      unfold isDrivePrefix at hdrive
      have heq : colon = 0x3A := by simpa using (Bool.and_eq_true_iff.mp hdrive).1
      exact absurd (by simp [heq]) hcolon
  · rw [hend]
    rfl

theorem pathElements_relative (hhead : ∀ x ∈ below.head?, isName x) (hcolon : (0x3A : UInt16) ∉ below) :
    pathElements below = nameElements.run ([], below) := by
  have hend := findRootNameEnd_relative hhead hcolon
  have hrelative : findRelativePath below = 0 := by
    unfold findRelativePath
    rw [hend, List.drop_zero, Nat.zero_add, List.length_eq_zero_iff]
    cases below with
    | nil => rfl
    | cons unit below =>
      have hslash : ¬ isSlash unit := by simpa [isName] using hhead unit rfl
      exact List.takeWhile_cons_of_neg hslash
  unfold pathElements
  rw [hrelative, hend]
  rfl

/-- An element without a root is put behind a path that is not a root name alone. -/
theorem appendPath_relative {result : Wide} (hhead : ∀ x ∈ below.head?, isName x) (hcolon : (0x3A : UInt16) ∉ below)
    (hroot : findRootNameEnd result ≠ result.length) :
    appendPath result below = (if result.getLast?.any isSlash then result else result ++ [separator]) ++ below := by
  have hfirst : slashAt below 0 = false := by
    cases below with
    | nil => rfl
    | cons unit below => simpa [slashAt, isName] using hhead unit rfl
  unfold appendPath
  rw [isAbsolute_relative hhead hcolon, findRootNameEnd_relative hhead hcolon, hfirst, if_neg (by decide),
    if_neg (fun h => h.1 rfl), if_neg (by decide), if_neg hroot, List.drop_zero]

end Relative

/-! ## A stack's text, taken apart -/

section Elements

variable {stack : List Wide}

/-- The elements of a stack's text: an empty one stands for a trailing separator. -/
def stackElements (stack : List Wide) (directory : Bool) : List Wide :=
  stack ++ if directory ∧ stack ≠ [] then [[]] else []

theorem nameElements_stackText (h : Clean stack) (elements : List Wide) (directory : Bool) :
    nameElements.run (elements, stackText stack directory) = elements ++ stackElements stack directory := by
  have hsep : isSlash separator := by decide
  have hnot : ¬ isName separator := by decide
  induction stack generalizing elements with
  | nil =>
    rw [stackText_nil, Loop.run_done rfl]
    simp [stackElements]
  | cons name stack ih =>
    obtain ⟨hne, -, hup, hname⟩ := h name List.mem_cons_self
    have hpass : ∀ rest : Wide, (∀ x ∈ rest.head?, isSlash x) → nameElements.body (elements, name ++ rest) =
        .next (elements ++ name :: (if rest.dropWhile isSlash = [] ∧ rest ≠ [] then [[]] else []), rest.dropWhile isSlash) := by
      intro rest hrest
      have hdrop : (name ++ rest).dropWhile isName = rest := by
        rw [List.dropWhile_append_of_pos hname]
        cases rest with
        | nil => rfl
        | cons slash rest => exact List.dropWhile_cons_of_neg (by simpa [isName] using hrest slash rfl)
      show nameStep _ = _
      unfold nameStep afterName
      dsimp only
      rw [if_neg (List.append_ne_nil_of_left_ne_nil hne _), hdrop, takeWhile_server hname hrest]
    by_cases hlast : stack = []
    · subst hlast
      rw [stackText_singleton hup]
      cases directory with
      | false =>
        rw [if_neg (by decide), Loop.run_next (hpass [] (fun _ h => by cases h)), Loop.run_done rfl]
        rfl
      | true =>
        rw [if_pos rfl, Loop.run_next (hpass [separator] (fun x hx => by cases hx; exact hsep))]
        exact Loop.run_done rfl
    · have hclean : Clean stack := fun part hpart => h part (List.mem_cons_of_mem _ hpart)
      have hdrop : (separator :: stackText stack directory).dropWhile isSlash = stackText stack directory := by
        rw [List.dropWhile_cons_of_pos hsep]
        have hhead := head_stackText hclean directory
        cases htext : stackText stack directory with
        | nil => rfl
        | cons unit rest =>
          rw [htext] at hhead
          exact List.dropWhile_cons_of_neg (by simpa [isName] using hhead unit rfl)
      have hmore : stackText stack directory ≠ [] := by
        intro hnil
        have hnames := components_stackText hclean directory
        rw [hnil] at hnames
        exact hlast hnames.symm
      rw [stackText_cons name directory hlast,
        Loop.run_next (hpass _ (fun x hx => by cases hx; exact hsep)), hdrop, if_neg (fun hnil => hmore hnil.1), ih hclean]
      simp [stackElements, hlast]

/-- The text of a stack: a separator before each name but the first. -/
theorem stackText_eq {name : Wide} (h : Clean (name :: stack)) (directory : Bool) :
    stackText (name :: stack) directory =
      name ++ stack.flatMap (separator :: ·) ++ if directory then [separator] else [] := by
  induction stack generalizing name with
  | nil =>
    rw [stackText_singleton (h name List.mem_cons_self).2.2.1, List.flatMap_nil, List.append_nil]
  | cons next stack ih =>
    rw [stackText_cons name directory (List.cons_ne_nil _ _), ih fun part hpart => h part (List.mem_cons_of_mem _ hpart)]
    simp only [List.flatMap_cons, List.cons_append, List.append_assoc]

end Elements

/-! ## A stack's text, put together -/

section Together

variable {root below : Wide} {stack : List Wide}

/-- A name in which there is no `:`. -/
def Plain (name : Wide) : Prop := (∀ x ∈ name, isName x) ∧ (0x3A : UInt16) ∉ name

theorem Plain.head {name : Wide} (h : Plain name) : ∀ x ∈ name.head?, isName x := fun x hx =>
  h.1 x (List.mem_of_mem_head? hx)

/-- A path that has something below its root directory is more than its root name. -/
theorem findRootNameEnd_below (h : ∀ tail : Wide, (∀ x ∈ tail.head?, isName x) → AbsoluteRoot root (separator :: tail))
    {tail : Wide} (htail : ∀ x ∈ tail.head?, isName x) :
    findRootNameEnd (root ++ separator :: tail) ≠ (root ++ separator :: tail).length := by
  rw [findRootNameEnd_of_root (h tail htail), List.length_append, List.length_cons]
  omega

/-- Behind a name, each further element has a separator before it. -/
theorem foldl_appendPath (h : ∀ tail : Wide, (∀ x ∈ tail.head?, isName x) → AbsoluteRoot root (separator :: tail))
    (elements : List Wide) (helements : ∀ name ∈ elements, Plain name ∧ name ≠ []) (directory : Bool) {tail : Wide}
    (htail : ∀ x ∈ tail.head?, isName x) (hlast : ∃ x, tail.getLast? = some x ∧ isName x) :
    (elements ++ if directory then [[]] else []).foldl appendPath (root ++ separator :: tail) =
      root ++ separator :: (tail ++ elements.flatMap (separator :: ·) ++ if directory then [separator] else []) := by
  have happend : ∀ {tail name : Wide}, (∀ x ∈ tail.head?, isName x) → (∃ x, tail.getLast? = some x ∧ isName x) →
      Plain name → appendPath (root ++ separator :: tail) name = root ++ separator :: (tail ++ separator :: name) := by
    intro tail name htail hlast hname
    obtain ⟨x, hx, hxname⟩ := hlast
    have hne : tail ≠ [] := by
      rintro rfl
      cases hx
    have hend : (root ++ separator :: tail).getLast? = some x := by
      rw [List.append_cons, List.getLast?_append_of_ne_nil _ hne, hx]
    have hslash : isSlash x = false := by simpa [isName] using hxname
    rw [appendPath_relative hname.head hname.2 (findRootNameEnd_below h htail), hend, Option.any_some, hslash,
      if_neg (by decide), List.append_assoc, List.append_assoc, List.cons_append]
    rfl
  induction elements generalizing tail with
  | nil =>
    cases directory with
    | false =>
      rw [if_neg (by decide), if_neg (by decide), List.flatMap_nil, List.append_nil, List.append_nil, List.append_nil]
      rfl
    | true =>
      rw [if_pos rfl, if_pos rfl, List.flatMap_nil, List.append_nil, List.nil_append, List.foldl_cons, List.foldl_nil]
      exact happend htail hlast ⟨fun _ hx => absurd hx List.not_mem_nil, List.not_mem_nil⟩
  | cons name elements ih =>
    obtain ⟨hplain, hne⟩ := helements name List.mem_cons_self
    have htailne : tail ≠ [] := by
      rintro rfl
      obtain ⟨x, hx, -⟩ := hlast
      cases hx
    rw [List.cons_append, List.foldl_cons, happend htail hlast hplain,
      ih fun part hpart => helements part (List.mem_cons_of_mem _ hpart)]
    · simp only [List.flatMap_cons, List.cons_append, List.append_assoc]
    · rw [List.head?_append_of_ne_nil _ htailne]
      exact htail
    · refine ⟨name.getLast hne, ?_, hplain.1 _ (List.getLast_mem hne)⟩
      rw [List.append_cons, List.getLast?_append_of_ne_nil _ hne, List.getLast?_eq_some_getLast hne]

end Together

/-! ## Nothing on disk -/

section Missing

variable {disk : Disk} {text root below : Wide}

/-- A path that Windows does not find. -/
def Missing (disk : Disk) (path : Wide) : Prop := ∃ code, disk path = .error code ∧ isFileNotFound code

/-- The names of a path's normal form. -/
def normalNames (text : Wide) : List Wide := (components (text.drop (findRootNameEnd text))).foldl (push true) []

/-- The elements below the root of a path's normal form, each as a path. -/
def elementPaths (text : Wide) : List Wide :=
  (List.range (normalNames text).length).map fun k =>
    normalRoot text ++ separator :: stackText ((normalNames text).take (k + 1)) false

/-- Once a path is missing, nothing is asked about what is behind it. -/
theorem foldlM_walkElement (result : Wide) (elements : List Wide) :
    elements.foldlM (walkElement disk) (result, false) = .ok (elements.foldl appendPath result, false) := by
  induction elements generalizing result with
  | nil => rfl
  | cons element elements ih =>
    rw [List.foldlM_cons]
    exact ih (appendPath result element)

theorem walkElement_missing {result element : Wide} (h : Missing disk (appendPath result element))
    (hne : appendPath result element ≠ []) :
    walkElement disk (result, true) element = .ok (appendPath result element, false) := by
  obtain ⟨code, hcode, hmissing⟩ := h
  have hcanonical : canonicalUnits disk (appendPath result element) = .error code := by
    unfold canonicalUnits
    rw [if_neg hne, hcode]
    rfl
  unfold walkElement
  dsimp only
  rw [if_pos rfl, hcanonical]
  dsimp only
  rw [if_pos hmissing]

theorem mem_push {stack : List Wide} {name part : Wide} (h : part ∈ push true stack name) : part ∈ stack ∨ part = name := by
  unfold push at h
  by_cases hdot : name = dot
  · rw [if_pos hdot] at h
    exact .inl h
  by_cases hup : name = dotDot
  · rw [if_neg hdot, if_neg (not_not_intro hup)] at h
    split at h
    · exact .inl h
    · split_ifs at h with htop hroot
      · exact .inl (List.mem_of_mem_dropLast h)
      · exact .inl h
      · exact absurd rfl hroot
  · rw [if_neg hdot, if_pos hup] at h
    exact (List.mem_append.mp h).imp id List.mem_singleton.mp

/-- The stack holds names of the path alone. -/
theorem mem_foldl_push {names stack : List Wide} {part : Wide} (h : part ∈ names.foldl (push true) stack) :
    part ∈ stack ∨ part ∈ names := by
  induction names generalizing stack with
  | nil => exact .inl h
  | cons name names ih =>
    rcases ih h with hpart | hpart
    · rcases mem_push hpart with hpart | rfl
      · exact .inl hpart
      · exact .inr List.mem_cons_self
    · exact .inr (List.mem_cons_of_mem _ hpart)

theorem plain_normalNames (hcolon : (0x3A : UInt16) ∉ text.drop (findRootNameEnd text)) :
    ∀ name ∈ normalNames text, Plain name ∧ name ≠ [] := by
  intro name hname
  have hpart := (mem_foldl_push hname).resolve_left List.not_mem_nil
  have hunits := mem_components _ name hpart
  exact ⟨⟨fun x hx => (hunits x hx).1, fun hx => hcolon (hunits _ hx).2⟩, components_ne_nil _ name hpart⟩

theorem clean_normalNames (text : Wide) : Clean (normalNames text) := clean_components _

theorem findRelativePath_of_root {root tail : Wide} (h : AbsoluteRoot root (separator :: tail))
    (htail : ∀ x ∈ tail.head?, isName x) : findRelativePath (root ++ separator :: tail) = (root ++ [separator]).length := by
  have hsep : isSlash separator := by decide
  unfold findRelativePath
  rw [findRootNameEnd_of_root h, List.drop_left, List.takeWhile_cons_of_pos hsep, List.length_append]
  cases tail with
  | nil => rfl
  | cons unit tail =>
    have hslash : ¬ isSlash unit := by simpa [isName] using htail unit rfl
    rw [List.takeWhile_cons_of_neg hslash]

/-- The walk over the names of a stack, of which not even the first exists. -/
theorem walk_missing (h : ∀ tail : Wide, (∀ x ∈ tail.head?, isName x) → AbsoluteRoot root (separator :: tail))
    {stack : List Wide} (hclean : Clean stack) (hplain : ∀ name ∈ stack, Plain name ∧ name ≠ []) (directory : Bool)
    (hmissing : ∀ name ∈ stack.head?, Missing disk (root ++ separator :: name)) :
    ((stackElements stack directory).foldlM (walkElement disk) (root ++ [separator], true)).map Prod.fst =
      .ok (root ++ separator :: stackText stack directory) := by
  have hsep : isSlash separator := by decide
  cases stack with
  | nil =>
    rw [stackText_nil]
    unfold stackElements
    rw [if_neg (fun hne => hne.2 rfl)]
    rfl
  | cons name stack =>
    obtain ⟨hname, hne⟩ := hplain name List.mem_cons_self
    have hrest : ∀ part ∈ stack, Plain part ∧ part ≠ [] := fun part hpart => hplain part (List.mem_cons_of_mem _ hpart)
    have hfirst : appendPath (root ++ [separator]) name = root ++ separator :: name := by
      rw [appendPath_relative hname.head hname.2 (findRootNameEnd_below h (fun _ hx => by cases hx)), List.getLast?_concat,
        Option.any_some, hsep, if_pos rfl, List.append_assoc]
      rfl
    have hstep : walkElement disk (root ++ [separator], true) name = .ok (root ++ separator :: name, false) := by
      rw [← hfirst]
      apply walkElement_missing
      · rw [hfirst]
        exact hmissing name rfl
      · rw [hfirst]
        exact List.append_ne_nil_of_right_ne_nil _ (List.cons_ne_nil _ _)
    have helements : stackElements (name :: stack) directory = name :: (stack ++ if directory then [[]] else []) := by
      simp [stackElements]
    have hlast : ∃ x, name.getLast? = some x ∧ isName x :=
      ⟨name.getLast hne, List.getLast?_eq_some_getLast hne, hname.1 _ (List.getLast_mem hne)⟩
    rw [helements, List.foldlM_cons, hstep]
    show (List.foldlM (walkElement disk) (root ++ separator :: name, false) _).map Prod.fst = _
    rw [foldlM_walkElement, foldl_appendPath h stack hrest directory hname.head hlast, stackText_eq hclean]
    rfl

/-- What `weakly_canonical` makes of a normal form, a part of which is missing. -/
def walkNormal (disk : Disk) (normalized : Wide) : Except ErrorCode Wide :=
  ((pathElements (normalized.drop (findRelativePath normalized))).foldlM (walkElement disk)
    (normalized.take (findRelativePath normalized), true)).map Prod.fst

theorem weaklyCanonical_of_missing (h : Missing disk text) (hne : text ≠ []) :
    weaklyCanonical disk text = (lexicallyNormal text).map (walkNormal disk) := by
  obtain ⟨code, hcode, hmissing⟩ := h
  have hcanonical : canonicalUnits disk text = .error code := by
    unfold canonicalUnits
    rw [if_neg hne, hcode]
    rfl
  unfold weaklyCanonical
  rw [hcanonical]
  dsimp only
  rw [if_neg (by rw [hmissing]; decide)]
  rfl

/-- A root alone stays as it is. -/
theorem walkNormal_root (h : AbsoluteRoot root []) : walkNormal disk root = .ok root := by
  have hend := findRootNameEnd_of_root h
  rw [List.append_nil] at hend
  have hrelative : findRelativePath root = root.length := by
    unfold findRelativePath
    rw [hend, List.drop_length]
    rfl
  unfold walkNormal
  rw [hrelative, List.drop_length, List.take_length, pathElements_relative (fun _ hx => by cases hx) List.not_mem_nil,
    Loop.run_done rfl]
  rfl

theorem walkNormal_stackText (h : ∀ tail : Wide, (∀ x ∈ tail.head?, isName x) → AbsoluteRoot root (separator :: tail))
    {stack : List Wide} (hclean : Clean stack) (hplain : ∀ name ∈ stack, Plain name ∧ name ≠ []) (directory : Bool)
    (hmissing : ∀ name ∈ stack.head?, Missing disk (root ++ separator :: name)) :
    walkNormal disk (root ++ separator :: stackText stack directory) = .ok (root ++ separator :: stackText stack directory) := by
  have hhead := head_stackText hclean directory
  have hcolon : (0x3A : UInt16) ∉ stackText stack directory := by
    cases stack with
    | nil => rw [stackText_nil]; exact List.not_mem_nil
    | cons name stack =>
      rw [stackText_eq hclean]
      intro hmem
      rcases List.mem_append.mp hmem with hmem | hmem
      · rcases List.mem_append.mp hmem with hmem | hmem
        · exact (hplain name List.mem_cons_self).1.2 hmem
        · obtain ⟨part, hpart, hunit⟩ := List.mem_flatMap.mp hmem
          rcases List.mem_cons.mp hunit with hunit | hunit
          · exact absurd hunit (by decide)
          · exact (hplain part (List.mem_cons_of_mem _ hpart)).1.2 hunit
      · split_ifs at hmem
        · exact absurd (List.mem_singleton.mp hmem) (by decide)
        · exact List.not_mem_nil hmem
  have hsplit : root ++ separator :: stackText stack directory = root ++ [separator] ++ stackText stack directory :=
    List.append_cons ..
  unfold walkNormal
  rw [findRelativePath_of_root (h _ hhead) hhead, hsplit, List.take_left, List.drop_left, pathElements_relative hhead hcolon,
    nameElements_stackText hclean, List.nil_append, walk_missing h hclean hplain directory hmissing, ← hsplit]

/-- **A path of which nothing exists has its lexical normal form**: its elements are taken apart and put together again. -/
theorem weaklyCanonical_missing (disk : Disk) (text : Wide) (habsolute : isAbsolute text)
    (hcolon : (0x3A : UInt16) ∉ text.drop (findRootNameEnd text)) (htext : Missing disk text)
    (helements : ∀ path ∈ elementPaths text, Missing disk path) :
    weaklyCanonical disk text = (lexicallyNormal text).map .ok := by
  have hne : text ≠ [] := by
    rintro rfl
    exact absurd habsolute (by decide)
  rw [weaklyCanonical_of_missing htext hne, lexicallyNormal_eq_stackNormal, Option.map_some, Option.map_some]
  refine congrArg some ?_
  obtain ⟨root, below, rfl, hroot⟩ := exists_root habsolute
  have hnames : normalNames (root ++ below) = (components below).foldl (push true) [] := by
    unfold normalNames
    rw [findRootNameEnd_of_root hroot, List.drop_left]
  rw [stackNormal_of_root hroot, ← hnames]
  by_cases hbelow : below = []
  · rw [if_pos hbelow, List.append_nil]
    apply walkNormal_root
    have hnormal := @AbsoluteRoot.normal _ _ [] hroot (fun _ hx => by cases hx)
    rwa [if_pos hbelow] at hnormal
  · rw [if_neg hbelow]
    apply walkNormal_stackText _ (clean_normalNames _) (plain_normalNames hcolon)
    · intro name hname
      cases hstack : normalNames (root ++ below) with
      | nil =>
        rw [hstack] at hname
        cases hname
      | cons first stack =>
        rw [hstack] at hname
        cases hname
        have hup : name ≠ dotDot := (clean_normalNames (root ++ below) name (by rw [hstack]; exact List.mem_cons_self)).2.2.1
        apply helements
        unfold elementPaths
        rw [normalRoot_of_root hroot, hstack]
        refine List.mem_map.mpr ⟨0, List.mem_range.mpr (Nat.succ_pos _), ?_⟩
        rw [List.take_succ_cons, List.take_zero, stackText_singleton hup, if_neg (by decide), List.append_nil]
    · intro tail htail
      have hnormal := hroot.normal htail
      rwa [if_neg hbelow] at hnormal

/-- `c:\a\..\b`, on a disk that holds nothing. -/
theorem weaklyCanonical_missing_sample :
    weaklyCanonical (fun _ => .error 3) [0x63, 0x3A, 0x5C, 0x61, 0x5C, 0x2E, 0x2E, 0x5C, 0x62] =
      (lexicallyNormal [0x63, 0x3A, 0x5C, 0x61, 0x5C, 0x2E, 0x2E, 0x5C, 0x62]).map .ok :=
  weaklyCanonical_missing _ _ (by decide) (by decide) ⟨3, rfl, rfl⟩ fun _ _ => ⟨3, rfl, rfl⟩

/-- The drive's root `c:\`, which the disk knows as `C:\`. -/
def driveDisk : Disk := fun path =>
  if path = [0x63, 0x3A, 0x5C] then .ok ([0x5C, 0x5C, 0x3F, 0x5C, 0x43, 0x3A, 0x5C], .dos) else .error 2

/-- A root alone has no element below it, and exists: its text is the disk's own. -/
theorem weaklyCanonical_root :
    ¬ ∀ (disk : Disk) (text : Wide), isAbsolute text → (0x3A : UInt16) ∉ text.drop (findRootNameEnd text) →
      (∀ path ∈ elementPaths text, Missing disk path) → weaklyCanonical disk text = (lexicallyNormal text).map .ok := by
  intro h
  have hnone : elementPaths [0x63, 0x3A, 0x5C] = [] := by decide +kernel
  have hroot := h driveDisk [0x63, 0x3A, 0x5C] (by decide) (by decide) (by rw [hnone]; exact List.forall_mem_nil _)
  rw [lexicallyNormal_eq_stackNormal] at hroot
  have hcanonical : weaklyCanonical driveDisk [0x63, 0x3A, 0x5C] = some (.ok [0x43, 0x3A, 0x5C]) := rfl
  rw [hcanonical] at hroot
  have hnormal : stackNormal [0x63, 0x3A, 0x5C] = [0x63, 0x3A, 0x5C] := by decide +kernel
  rw [hnormal] at hroot
  cases hroot

end Missing

end Cao.Winfs
