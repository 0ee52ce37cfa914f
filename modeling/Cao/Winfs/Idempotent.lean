import Cao.Winfs.Normal

/-!
# Normalising an absolute path twice

* `findRootNameEnd_normalRoot`: a normalised root is read back as the same root;
* `Clean`, `foldl_push_clean`: names that the stack keeps as they are;
* `stackNormal_idem`: the normal form of an absolute path is its own normal form;
* **`lexicallyNormal_refines`**: normalisation is its specification, and once is enough for an absolute path.
-/

namespace Cao.Winfs

/-! ## Roots -/

section Roots

variable {text tail : Wide}

/-- One unit of a normalised root. -/
def normalUnit (unit : UInt16) : UInt16 := if unit = altSeparator then separator else unit

theorem normalUnit_of_slash {unit : UInt16} (h : isSlash unit) : normalUnit unit = separator := by
  unfold normalUnit
  split_ifs with halt
  · rfl
  · simpa [isSlash, halt] using h

theorem normalUnit_of_name {unit : UInt16} (h : isName unit) : normalUnit unit = unit := by
  unfold normalUnit
  rw [if_neg]
  rintro rfl
  exact absurd h (by decide)

theorem normalUnit_idem (unit : UInt16) : normalUnit (normalUnit unit) = normalUnit unit := by
  unfold normalUnit
  split_ifs with halt hsep
  · exact absurd hsep (by decide)
  · rfl
  · rfl

theorem map_normalUnit_name {name : Wide} (h : ∀ x ∈ name, isName x) : name.map normalUnit = name :=
  List.map_congr_left (fun x hx => normalUnit_of_name (h x hx)) |>.trans (List.map_id' name)

/-- The root name of an absolute path, and what is below it. -/
inductive AbsoluteRoot : Wide → Wide → Prop
  /-- A drive, with a root directory. -/
  | drive {letter : UInt16} {below : Wide} (hdrive : isDrivePrefix [letter, 0x3A]) (hbelow : below.head?.any isSlash) :
    AbsoluteRoot [letter, 0x3A] below
  /-- The roots of the namespaces, each with a root directory of one slash. -/
  | special {first second mark slash : UInt16} {below : Wide} (hfirst : isSlash first)
    (hmark : (isSlash second ∧ (mark = 0x3F ∨ mark = 0x2E)) ∨ (second = 0x3F ∧ mark = 0x3F)) (hslash : isSlash slash)
    (hbelow : ∀ x ∈ below.head?, isName x) : AbsoluteRoot [first, second, mark] (slash :: below)
  /-- A server. -/
  | server {first second letter : UInt16} {server below : Wide} (hfirst : isSlash first) (hsecond : isSlash second)
    (hname : ∀ x ∈ letter :: server, isName x) (hbelow : ∀ x ∈ below.head?, isSlash x) :
    AbsoluteRoot (first :: second :: letter :: server) below

theorem isDrivePrefix_cons (letter colon : UInt16) (below : Wide) :
    isDrivePrefix (letter :: colon :: below) = isDrivePrefix [letter, colon] := rfl

theorem not_isDrivePrefix_slash {slash : UInt16} (h : isSlash slash) (below : Wide) : isDrivePrefix (slash :: below) = false := by
  cases below with
  | nil => rfl
  | cons colon below =>
    rcases (by simpa [isSlash] using h : slash = separator ∨ slash = altSeparator) with rfl | rfl
    · show (_ && decide _) = false
      rw [decide_eq_false (by decide), Bool.and_false]
    · show (_ && decide _) = false
      rw [decide_eq_false (by decide), Bool.and_false]

theorem takeWhile_server {server below : Wide} (hname : ∀ x ∈ server, isName x) (hbelow : ∀ x ∈ below.head?, isSlash x) :
    (server ++ below).takeWhile isName = server := by
  rw [List.takeWhile_append_of_pos hname]
  cases below with
  | nil => exact List.append_nil server
  | cons slash below =>
    have hslash : ¬ isName slash := by simpa [isName] using hbelow slash rfl
    rw [List.takeWhile_cons_of_neg hslash, List.append_nil]

/-- **An absolute root is read back from a path.** -/
theorem findRootNameEnd_of_root {root below : Wide} (h : AbsoluteRoot root below) :
    findRootNameEnd (root ++ below) = root.length := by
  cases h with
  | @drive letter below hdrive hbelow =>
    unfold findRootNameEnd
    rw [if_neg (by simp), List.cons_append, List.cons_append, isDrivePrefix_cons, if_pos hdrive]
    rfl
  | @special first second mark slash below hfirst hmark hslash hbelow =>
    have hspecial : hasSpecialRoot ([first, second, mark] ++ slash :: below) = true := by
      unfold hasSpecialRoot slashAt
      cases below with
      | nil => rcases hmark with ⟨hsecond, rfl | rfl⟩ | ⟨rfl, rfl⟩ <;> simp [*]
      | cons next below =>
        have hnext : isSlash next = false := by simpa [isName] using hbelow next rfl
        rcases hmark with ⟨hsecond, rfl | rfl⟩ | ⟨rfl, rfl⟩ <;> simp [*]
    have hdrive := not_isDrivePrefix_slash hfirst (second :: mark :: slash :: below)
    have hat : slashAt ([first, second, mark] ++ slash :: below) 0 = true := by simpa [slashAt] using hfirst
    unfold findRootNameEnd
    rw [if_neg (by simp), if_neg (by simpa using hdrive), if_neg (by rw [hat]; decide), if_pos hspecial]
    rfl
  | @server first second letter server below hfirst hsecond hname hbelow =>
    have hserver : ∀ x ∈ server, isName x := fun x hx => hname x (List.mem_cons_of_mem _ hx)
    have hdrive := not_isDrivePrefix_slash hfirst (second :: letter :: server ++ below)
    have hat : slashAt (first :: second :: letter :: server ++ below) 0 = true := by simpa [slashAt] using hfirst
    have hletter : isSlash letter = false := by simpa [isName] using hname letter List.mem_cons_self
    unfold findRootNameEnd
    rw [if_neg (by simp), if_neg (by simpa using hdrive), if_neg (by rw [hat]; decide)]
    by_cases hspecial : hasSpecialRoot (first :: second :: letter :: server ++ below)
    · -- A server named `?` or `.` alone has the same root as a namespace of that name.
      rw [if_pos hspecial]
      cases server with
      | nil => rfl
      | cons next server =>
        have hnext : isSlash next = false := by simpa [isName] using hserver next List.mem_cons_self
        simp [hasSpecialRoot, slashAt, hnext] at hspecial
    · have hdrop : (first :: second :: letter :: server ++ below).drop 3 = server ++ below := rfl
      rw [if_neg hspecial, if_pos ⟨by simp, by simpa [slashAt] using hsecond, by simpa [slashAt] using hletter⟩, hdrop,
        takeWhile_server hserver hbelow]
      simp only [List.length_cons]
      omega

/-- An absolute path is a root and what is below it. -/
theorem exists_root (h : isAbsolute text) : ∃ root below, text = root ++ below ∧ AbsoluteRoot root below := by
  unfold isAbsolute at h
  by_cases hdrive : isDrivePrefix text
  · rw [if_pos hdrive] at h
    rcases text with _ | ⟨letter, _ | ⟨colon, _ | ⟨slash, below⟩⟩⟩
    · cases hdrive
    · cases hdrive
    · cases h
    · have hcolon : colon = 0x3A := by
        unfold isDrivePrefix at hdrive
        simpa using (Bool.and_eq_true_iff.mp hdrive).1
      subst hcolon
      exact ⟨_, slash :: below, rfl, .drive hdrive (by simpa [slashAt] using h)⟩
  · rw [if_neg hdrive] at h
    unfold findRootNameEnd at h
    have hroot : ¬ text.length < 2 ∧ slashAt text 0 = true ∧ (hasSpecialRoot text = true ∨
        hasSpecialRoot text = false ∧ 3 ≤ text.length ∧ slashAt text 1 = true ∧ slashAt text 2 = false) := by
      split_ifs at h with hshort hfirst hspecial hserver
      · exact absurd h (by decide)
      · exact absurd h (by decide)
      · exact ⟨hshort, by simpa using hfirst, .inl hspecial⟩
      · exact ⟨hshort, by simpa using hfirst, .inr ⟨by simpa using hspecial, hserver.1, hserver.2.1, by simpa using hserver.2.2⟩⟩
      · exact absurd h (by decide)
    obtain ⟨-, hfirst, hspecial | ⟨-, hlength, hsecond, hletter⟩⟩ := hroot
    · rcases text with _ | ⟨first, _ | ⟨second, _ | ⟨mark, _ | ⟨slash, below⟩⟩⟩⟩
      · cases hspecial
      · cases hspecial
      · cases hspecial
      · cases hspecial
      · unfold hasSpecialRoot at hspecial
        simp only [Bool.and_eq_true_iff, Bool.or_eq_true_iff, slashAt, beq_iff_eq, List.getElem?_cons_succ,
          List.getElem?_cons_zero, Option.any_some, Option.some.injEq, Bool.not_eq_true'] at hspecial hfirst
        obtain ⟨⟨⟨-, hslash⟩, hsingle⟩, hmark⟩ := hspecial
        refine ⟨[first, second, mark], slash :: below, rfl, .special hfirst ?_ hslash ?_⟩
        · simpa using hmark
        · intro x hx
          cases below with
          | nil => cases hx
          | cons next below =>
            cases hx
            simpa [isName] using hsingle
    · rcases text with _ | ⟨first, _ | ⟨second, _ | ⟨letter, server⟩⟩⟩
      · cases hfirst
      · cases hsecond
      · simp at hlength
      · refine ⟨first :: second :: letter :: server.takeWhile isName, server.dropWhile isName, ?_, .server ?_ ?_ ?_ ?_⟩
        · rw [List.cons_append, List.cons_append, List.cons_append, List.takeWhile_append_dropWhile]
        · simpa [slashAt] using hfirst
        · simpa [slashAt] using hsecond
        · intro x hx
          rcases List.mem_cons.mp hx with rfl | hx
          · simpa [slashAt, isName] using hletter
          · exact mem_takeWhile_isName server x hx
        · intro x hx
          have hnot := List.head?_dropWhile_not isName server
          rw [hx] at hnot
          simpa [isName] using hnot

theorem AbsoluteRoot.below_slash {root below : Wide} (h : AbsoluteRoot root below) : ∀ x ∈ below.head?, isSlash x := by
  cases h with
  | drive hdrive hbelow =>
    intro x hx
    rw [hx] at hbelow
    exact hbelow
  | special hfirst hmark hslash hbelow =>
    intro x hx
    cases hx
    exact hslash
  | server hfirst hsecond hname hbelow => exact hbelow

/-- The root of a normalised path. -/
theorem AbsoluteRoot.normal {root below tail : Wide} (h : AbsoluteRoot root below) (htail : ∀ x ∈ tail.head?, isName x) :
    AbsoluteRoot (root.map normalUnit) (if below = [] then [] else separator :: tail) := by
  have hsep : isSlash separator := by decide
  cases h with
  | @drive letter below hdrive hbelow =>
    have hne : below ≠ [] := by
      rintro rfl
      cases hbelow
    have hletter : normalUnit letter = letter := by
      unfold normalUnit
      rw [if_neg]
      rintro rfl
      exact absurd hdrive (by decide)
    rw [if_neg hne]
    show AbsoluteRoot [normalUnit letter, 0x3A] _
    rw [hletter]
    exact .drive hdrive rfl
  | @special first second mark slash below hfirst hmark hslash hbelow =>
    rw [if_neg (List.cons_ne_nil _ _)]
    refine .special (by rw [normalUnit_of_slash hfirst]; exact hsep) ?_ hsep htail
    rcases hmark with ⟨hsecond, rfl | rfl⟩ | ⟨rfl, rfl⟩
    · exact .inl ⟨by rw [normalUnit_of_slash hsecond]; exact hsep, .inl rfl⟩
    · exact .inl ⟨by rw [normalUnit_of_slash hsecond]; exact hsep, .inr rfl⟩
    · exact .inr ⟨rfl, rfl⟩
  | @server first second letter server below hfirst hsecond hname hbelow =>
    refine @AbsoluteRoot.server _ _ _ (server.map normalUnit) _ ?_ ?_ ?_ ?_
    · rw [normalUnit_of_slash hfirst]; exact hsep
    · rw [normalUnit_of_slash hsecond]; exact hsep
    · show ∀ x ∈ (letter :: server).map normalUnit, isName x
      rw [map_normalUnit_name hname]
      exact hname
    · intro x hx
      split_ifs at hx
      · cases hx
      · cases hx
        exact hsep

end Roots

/-! ## Names that stay -/

section Clean

variable {stack : List Wide} {below : Wide}

/-- Names that the stack keeps as they are. -/
def Clean (stack : List Wide) : Prop := ∀ name ∈ stack, name ≠ [] ∧ name ≠ dot ∧ name ≠ dotDot ∧ ∀ x ∈ name, isName x

theorem mem_splitOnP (text : Wide) : ∀ name ∈ text.splitOnP isSlash, ∀ x ∈ name, isName x ∧ x ∈ text := by
  induction text with
  | nil =>
    intro name hname x hx
    rw [List.splitOnP_nil, List.mem_singleton] at hname
    subst hname
    cases hx
  | cons unit text ih =>
    have hbehind : ∀ name ∈ text.splitOnP isSlash, ∀ x ∈ name, isName x ∧ x ∈ unit :: text := fun name hname x hx =>
      ⟨(ih name hname x hx).1, List.mem_cons_of_mem _ (ih name hname x hx).2⟩
    rw [List.splitOnP_cons_eq_if_modifyHead]
    split_ifs with hslash
    · intro name hname x hx
      rcases List.mem_cons.mp hname with rfl | hname
      · cases hx
      · exact hbehind name hname x hx
    · cases hsplit : text.splitOnP isSlash with
      | nil => exact absurd hsplit (List.splitOnP_ne_nil _ _)
      | cons first names =>
        rw [hsplit] at hbehind
        intro name hname x hx
        rw [List.modifyHead_cons] at hname
        rcases List.mem_cons.mp hname with rfl | hname
        · rcases List.mem_cons.mp hx with rfl | hx
          · exact ⟨by simpa [isName] using hslash, List.mem_cons_self⟩
          · exact hbehind first List.mem_cons_self x hx
        · exact hbehind name (List.mem_cons_of_mem _ hname) x hx

theorem mem_components (below : Wide) : ∀ name ∈ components below, ∀ x ∈ name, isName x ∧ x ∈ below := by
  intro name hname
  unfold components at hname
  exact mem_splitOnP below name (List.mem_filter.mp hname).1

theorem components_isName (below : Wide) : ∀ name ∈ components below, ∀ x ∈ name, isName x := fun name hname x hx =>
  (mem_components below name hname x hx).1

/-- Below a root directory, a name leaves a clean stack clean. -/
theorem Clean.push {name : Wide} (h : Clean stack) (hne : name ≠ []) (hname : ∀ x ∈ name, isName x) :
    Clean (push true stack name) := by
  unfold Winfs.push
  by_cases hdot : name = dot
  · rw [if_pos hdot]
    exact h
  by_cases hup : name = dotDot
  · rw [if_neg hdot, if_neg (not_not_intro hup)]
    split
    · exact h
    · split_ifs with htop hroot
      · exact fun part hpart => h part (List.mem_of_mem_dropLast hpart)
      · exact h
      · exact absurd rfl hroot
  · rw [if_neg hdot, if_pos hup]
    intro part hpart
    rcases List.mem_append.mp hpart with hpart | hpart
    · exact h part hpart
    · rw [List.mem_singleton.mp hpart]
      exact ⟨hne, hdot, hup, hname⟩

theorem Clean.foldl_push {names : List Wide} (h : Clean stack) (hne : ∀ name ∈ names, name ≠ [])
    (hname : ∀ name ∈ names, ∀ x ∈ name, isName x) : Clean (names.foldl (Winfs.push true) stack) := by
  induction names generalizing stack with
  | nil => exact h
  | cons name names ih =>
    exact ih (h.push (hne name List.mem_cons_self) (hname name List.mem_cons_self))
      (fun part hpart => hne part (List.mem_cons_of_mem _ hpart)) (fun part hpart => hname part (List.mem_cons_of_mem _ hpart))

/-- The stack of a rooted path's names is clean. -/
theorem clean_components (below : Wide) : Clean ((components below).foldl (Winfs.push true) []) :=
  Clean.foldl_push (fun _ hmem => absurd hmem List.not_mem_nil) (components_ne_nil below) (components_isName below)

/-- A stack keeps clean names as they are. -/
theorem foldl_push_clean {names : List Wide} {hasRootDirectory : Bool} (h : Clean names) :
    names.foldl (push hasRootDirectory) stack = stack ++ names := by
  induction names generalizing stack with
  | nil => exact (List.append_nil stack).symm
  | cons name names ih =>
    obtain ⟨-, hdot, hup, -⟩ := h name List.mem_cons_self
    have hpush : push hasRootDirectory stack name = stack ++ [name] := by
      unfold push
      rw [if_neg hdot, if_pos hup]
    rw [List.foldl_cons, hpush, ih fun part hpart => h part (List.mem_cons_of_mem _ hpart), List.append_assoc]
    rfl

/-- The text of a stack, from its first name on. -/
theorem stackText_cons (name : Wide) (directory : Bool) (hne : stack ≠ []) :
    stackText (name :: stack) directory = name ++ separator :: stackText stack directory := by
  have hlast : (name :: stack).getLast? = stack.getLast? := by
    cases stack with
    | nil => exact absurd rfl hne
    | cons next stack => exact List.getLast?_cons_cons
  have hcond : (directory ∧ name :: stack ≠ [] ∧ stack.getLast? ≠ some dotDot) ↔
      (directory ∧ stack ≠ [] ∧ stack.getLast? ≠ some dotDot) := by simp [hne]
  unfold stackText
  rw [List.intercalate_cons_of_ne_nil hne, hlast]
  by_cases hends : directory ∧ stack ≠ [] ∧ stack.getLast? ≠ some dotDot
  · rw [if_pos hends, if_pos (hcond.mpr hends), List.append_assoc, List.append_assoc]
    rfl
  · rw [if_neg hends, if_neg (fun h => hends (hcond.mp h)), List.append_nil, List.append_nil, List.append_assoc]
    rfl

theorem stackText_singleton {name : Wide} (hup : name ≠ dotDot) (directory : Bool) :
    stackText [name] directory = name ++ if directory then [separator] else [] := by
  have hsome : some name ≠ some dotDot := fun h => hup (Option.some.inj h)
  unfold stackText
  rw [List.intercalate_singleton]
  congr 1
  cases directory with
  | false => rfl
  | true => rw [if_pos ⟨rfl, List.cons_ne_nil _ _, hsome⟩, if_pos rfl]

/-- The names of a stack's text are the stack. -/
theorem components_stackText (h : Clean stack) (directory : Bool) : components (stackText stack directory) = stack := by
  have hsep : isSlash separator := by decide
  induction stack with
  | nil => rw [stackText_nil]; rfl
  | cons name stack ih =>
    obtain ⟨hne, -, hup, hname⟩ := h name List.mem_cons_self
    by_cases hlast : stack = []
    · subst hlast
      rw [stackText_singleton hup]
      cases directory with
      | false => rw [if_neg (by decide), List.append_nil, components_name hne hname]
      | true => rw [if_pos rfl, components_append hne hname hsep]; rfl
    · rw [stackText_cons name directory hlast, components_append hne hname hsep,
        ih fun part hpart => h part (List.mem_cons_of_mem _ hpart)]

/-- The text of a clean stack ends in a separator where it stands for a directory. -/
theorem endsInDirectory_stackText (h : Clean stack) (hne : stack ≠ []) (directory : Bool) :
    endsInDirectory (separator :: stackText stack directory) = directory := by
  have hsep : isSlash separator := by decide
  obtain ⟨below, top, rfl⟩ := (List.eq_nil_or_concat stack).resolve_left hne
  rw [List.concat_eq_append] at h ⊢
  obtain ⟨htop, hdot, hup, hname⟩ := h top (by simp)
  have hsome : some top ≠ some dotDot := fun heq => hup (Option.some.inj heq)
  have hnames : ∀ part ∈ below ++ [top], part ≠ [] := fun part hpart => (h part hpart).1
  unfold endsInDirectory
  rw [components_slash hsep, components_stackText h, List.getLast?_concat]
  have hnodots : (some top == some dot) = false ∧ (some top == some dotDot) = false := by
    constructor <;> simpa
  rw [hnodots.1, hnodots.2, Bool.or_false, Bool.or_false]
  unfold stackText
  rw [List.getLast?_concat, ← flatMap_slots_concat hnames]
  cases directory with
  | true =>
    rw [if_pos ⟨rfl, by simp, hsome⟩, ← List.cons_append, List.getLast?_concat]
    rfl
  | false =>
    have hpart : [top].flatMap partText = top := by
      rw [List.flatMap_singleton]
      exact if_neg htop
    rw [if_neg (fun hends => absurd hends.1 (by decide)), List.append_nil, List.flatMap_append, hpart, ← List.cons_append,
      List.getLast?_append_of_ne_nil _ htop]
    cases hlast : top.getLast? with
    | none => rfl
    | some x => simpa [isName] using hname x (List.mem_of_getLast? hlast)

theorem head_stackText (h : Clean stack) (directory : Bool) : ∀ x ∈ (stackText stack directory).head?, isName x := by
  cases stack with
  | nil =>
    rw [stackText_nil]
    intro x hx
    cases hx
  | cons name stack =>
    obtain ⟨hne, -, hup, hname⟩ := h name List.mem_cons_self
    have hhead : (stackText (name :: stack) directory).head? = name.head? := by
      by_cases hlast : stack = []
      · subst hlast
        rw [stackText_singleton hup, List.head?_append_of_ne_nil _ hne]
      · rw [stackText_cons name directory hlast, List.head?_append_of_ne_nil _ hne]
    intro x hx
    rw [hhead] at hx
    exact hname x (List.mem_of_mem_head? hx)

end Clean

/-! ## Twice -/

section Twice

variable {text root below : Wide}

theorem normalRoot_of_root (h : AbsoluteRoot root below) : normalRoot (root ++ below) = root.map normalUnit := by
  unfold normalRoot
  rw [findRootNameEnd_of_root h, List.take_left]
  rfl

theorem AbsoluteRoot.ne_nil (h : AbsoluteRoot root below) : root ≠ [] := by
  cases h <;> exact List.cons_ne_nil _ _

/-- The normal form of an absolute path. -/
theorem stackNormal_of_root (h : AbsoluteRoot root below) :
    stackNormal (root ++ below) = root.map normalUnit ++
      if below = [] then []
      else separator :: stackText ((components below).foldl (push true) []) (endsInDirectory below) := by
  have hne : root ++ below ≠ [] := List.append_ne_nil_of_left_ne_nil h.ne_nil _
  have hmap : root.map normalUnit ≠ [] := fun hnil => h.ne_nil (List.map_eq_nil_iff.mp hnil)
  unfold stackNormal
  rw [if_neg hne, normalRoot_of_root h, findRootNameEnd_of_root h, List.drop_left]
  dsimp only
  have hhead := h.below_slash
  cases below with
  | nil =>
    rw [if_pos rfl, components_nil, List.foldl_nil, stackText_nil, if_neg]
    · simp
    · simpa using hmap
  | cons slash below =>
    have hany : (slash :: below).head?.any isSlash = true := hhead slash rfl
    rw [hany, if_pos rfl, if_neg (List.cons_ne_nil _ _), if_neg (by simp [hmap]), List.append_assoc]
    rfl

/-- **The normal form of an absolute path is its own normal form.** -/
theorem stackNormal_idem (h : isAbsolute text) : stackNormal (stackNormal text) = stackNormal text := by
  have hsep : isSlash separator := by decide
  obtain ⟨root, below, rfl, hroot⟩ := exists_root h
  have hclean := clean_components below
  have hnormal := hroot.normal (head_stackText hclean (endsInDirectory below))
  have hmap : (root.map normalUnit).map normalUnit = root.map normalUnit := by
    rw [List.map_map]
    exact List.map_congr_left fun unit _ => normalUnit_idem unit
  rw [stackNormal_of_root hroot, stackNormal_of_root hnormal, hmap]
  congr 1
  by_cases hbelow : below = []
  · rw [if_pos hbelow, if_pos rfl]
  · rw [if_neg hbelow, if_neg (List.cons_ne_nil _ _), components_slash hsep, components_stackText hclean,
      foldl_push_clean hclean, List.nil_append]
    by_cases hstack : (components below).foldl (push true) [] = []
    · rw [hstack, stackText_nil, stackText_nil]
    · rw [endsInDirectory_stackText hclean hstack]

/-- **Normalisation refines its specification**: the compaction in place leaves the text of the stack, and no index is out
of bounds. The normal form of an absolute path is its own normal form. -/
theorem lexicallyNormal_refines (text : Wide) :
    lexicallyNormal text = some (stackNormal text) ∧
      (isAbsolute text → lexicallyNormal (stackNormal text) = some (stackNormal text)) := by
  refine ⟨lexicallyNormal_eq_stackNormal text, fun habsolute => ?_⟩
  rw [lexicallyNormal_eq_stackNormal, stackNormal_idem habsolute]

/-- `c:\a/../b/`. -/
def samplePath : Wide := [0x63, 0x3A, 0x5C, 0x61, 0x2F, 0x2E, 0x2E, 0x2F, 0x62, 0x2F]

theorem lexicallyNormal_refines_sample :
    lexicallyNormal samplePath = some (stackNormal samplePath) ∧ isAbsolute samplePath ∧
      lexicallyNormal (stackNormal samplePath) = some (stackNormal samplePath) :=
  have habsolute : isAbsolute samplePath := by decide
  ⟨(lexicallyNormal_refines samplePath).1, habsolute, (lexicallyNormal_refines samplePath).2 habsolute⟩

end Twice

end Cao.Winfs
