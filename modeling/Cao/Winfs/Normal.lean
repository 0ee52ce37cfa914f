import Cao.Winfs.Canonical
import Mathlib.Data.List.Basic

/-!
# Lexical normalisation as a stack of names

The parts that `lexically_normal` compacts in place are the names of a path with a separator after each; what the
compaction keeps is a stack of names.

* `components`, `push`, `stackNormal`: the specification, a stack of a path's names;
* `collectParts_eq`: the parts are the names, each followed by a separator;
* `step_slots`, `run_slots`, `compact_eq`: the slots in use are the stack, and no index is out of bounds;
* **`lexicallyNormal_eq_stackNormal`**: normalisation is its specification.
-/

namespace Cao.Winfs

/-! ## The specification -/

/-- The names of a path. -/
def components (below : Wide) : List Wide := (below.splitOnP isSlash).filter (· ≠ [])

/-- A name on a stack: `.` is dropped, and `..` takes a name off, but nothing above a root. -/
def push (hasRootDirectory : Bool) (stack : List Wide) (name : Wide) : List Wide :=
  if name = dot then stack
  else if name ≠ dotDot then stack ++ [name]
  else match stack.getLast? with
    | none => if hasRootDirectory then stack else stack ++ [dotDot]
    | some top =>
      if top ≠ dotDot then stack.dropLast
      else if hasRootDirectory then stack else stack ++ [dotDot]

/-- Whether a path ends in a separator, or in a name that stands for a directory. -/
def endsInDirectory (below : Wide) : Bool :=
  below.getLast?.any isSlash || (components below).getLast? == some dot || (components below).getLast? == some dotDot

/-- The text of a stack, with a trailing separator unless a `..` is on top. -/
def stackText (stack : List Wide) (directory : Bool) : Wide :=
  [separator].intercalate stack ++
    if directory ∧ stack ≠ [] ∧ stack.getLast? ≠ some dotDot then [separator] else []

/-- **Lexical normalisation**: the root, and the stack of the names below it. -/
def stackNormal (text : Wide) : Wide :=
  if text = [] then []
  else
    let below := text.drop (findRootNameEnd text)
    let hasRootDirectory := below.head?.any isSlash
    let stack := (components below).foldl (push hasRootDirectory) []
    let normalized := normalRoot text ++ (if hasRootDirectory then [separator] else []) ++
      stackText stack (endsInDirectory below)
    if normalized = [] then dot else normalized

/-! ## Names -/

section Components

variable {name below : Wide} {slash : UInt16}

@[simp] theorem components_nil : components [] = [] := rfl

theorem splitOnP_name (hname : ∀ x ∈ name, isName x) : name.splitOnP isSlash = [name] :=
  List.splitOnP_eq_singleton fun x hx => by simpa [isName] using hname x hx

/-- A path of one name. -/
theorem components_name (hne : name ≠ []) (hname : ∀ x ∈ name, isName x) : components name = [name] := by
  unfold components
  rw [splitOnP_name hname]
  simp [hne]

/-- A name before a slash. -/
theorem components_append (hne : name ≠ []) (hname : ∀ x ∈ name, isName x) (hslash : isSlash slash) :
    components (name ++ slash :: below) = name :: components below := by
  unfold components
  rw [List.splitOnP_append_cons _ _ hslash, List.filter_append, splitOnP_name hname]
  simp [hne]

theorem components_slash (hslash : isSlash slash) : components (slash :: below) = components below := by
  have happend : slash :: below = [] ++ slash :: below := rfl
  unfold components
  rw [happend, List.splitOnP_append_cons _ _ hslash, List.filter_append]
  rfl

theorem components_dropWhile (below : Wide) : components (below.dropWhile isSlash) = components below := by
  induction below with
  | nil => rfl
  | cons unit below ih =>
    by_cases hslash : isSlash unit
    · rw [List.dropWhile_cons_of_pos hslash, ih, components_slash hslash]
    · rw [List.dropWhile_cons_of_neg hslash]

theorem mem_takeWhile_isName (below : Wide) : ∀ x ∈ below.takeWhile isName, isName x := fun _ => List.mem_takeWhile_imp

/-- A path that does not start with a slash is a name, with or without something behind it. -/
theorem split_name (hne : below ≠ []) (hhead : ∀ x ∈ below.head?, isName x) :
    below.takeWhile isName ≠ [] ∧ (below.dropWhile isName = [] ∨
      ∃ slash rest, below.dropWhile isName = slash :: rest ∧ isSlash slash) := by
  cases below with
  | nil => exact absurd rfl hne
  | cons unit below =>
    have hunit : isName unit := hhead unit rfl
    refine ⟨by rw [List.takeWhile_cons_of_pos hunit]; exact List.cons_ne_nil _ _, ?_⟩
    cases hdrop : (unit :: below).dropWhile isName with
    | nil => exact .inl rfl
    | cons slash rest =>
      have hnot := List.head?_dropWhile_not isName (unit :: below)
      rw [hdrop] at hnot
      exact .inr ⟨slash, rest, rfl, by simpa [isName] using hnot⟩

theorem head_dropWhile_isSlash (below : Wide) : ∀ x ∈ (below.dropWhile isSlash).head?, isName x := by
  intro x hx
  have hnot := List.head?_dropWhile_not isSlash below
  rw [hx] at hnot
  simpa [isName] using hnot

theorem components_ne_nil (below : Wide) : ∀ name ∈ components below, name ≠ [] := by
  intro name hname
  unfold components at hname
  simpa using (List.mem_filter.mp hname).2

end Components

/-! ## The parts -/

/-- Names, with a separator after each. -/
def slots (names : List Wide) : List Wide := names.flatMap fun name => [name, []]

@[simp] theorem slots_nil : slots [] = [] := rfl

@[simp] theorem slots_cons (name : Wide) (names : List Wide) : slots (name :: names) = name :: [] :: slots names := rfl

@[simp] theorem slots_append (names others : List Wide) : slots (names ++ others) = slots names ++ slots others :=
  List.flatMap_append

@[simp] theorem length_slots (names : List Wide) : (slots names).length = 2 * names.length := by
  induction names with
  | nil => rfl
  | cons name names ih =>
    rw [slots_cons, List.length_cons, List.length_cons, List.length_cons, ih]
    omega

/-- The parts of a path: the last separator is there only where the path ends in one. -/
def partsOf (names : List Wide) (trailing : Bool) : List Wide := if trailing then slots names else (slots names).dropLast

/-- More slashes change nothing once a separator is collected. -/
theorem collect_slashes (parts : List Wide) (rest : Wide) :
    PartScan.loop.run ⟨parts ++ [[]], rest⟩ = PartScan.loop.run ⟨parts ++ [[]], rest.dropWhile isSlash⟩ := by
  induction rest with
  | nil => rfl
  | cons unit rest ih =>
    by_cases hslash : isSlash unit
    · have hpass : PartScan.loop.body ⟨parts ++ [[]], unit :: rest⟩ = .next ⟨parts ++ [[]], rest⟩ := by
        show (if isSlash unit then _ else _) = _
        rw [if_pos hslash, if_pos (List.getLast?_concat)]
      rw [Loop.run_next hpass, ih, List.dropWhile_cons_of_pos hslash]
    · rw [List.dropWhile_cons_of_neg hslash]

theorem collect_run (parts : List Wide) (below : Wide) (hhead : ∀ x ∈ below.head?, isName x) :
    PartScan.loop.run ⟨parts, below⟩ = parts ++ partsOf (components below) (below.getLast?.any isSlash) := by
  generalize hsize : below.length = size
  induction size using Nat.strongRecOn generalizing parts below with
  | ind size ih =>
    by_cases hnil : below = []
    · subst hnil
      rw [Loop.run_done rfl]
      exact (List.append_nil parts).symm
    · obtain ⟨hname, hrest⟩ := split_name hnil hhead
      have hsplit : below = below.takeWhile isName ++ below.dropWhile isName := List.takeWhile_append_dropWhile.symm
      have hpass : PartScan.loop.body ⟨parts, below⟩ =
          .next ⟨parts ++ [below.takeWhile isName], below.dropWhile isName⟩ := by
        cases below with
        | nil => exact absurd rfl hnil
        | cons unit below =>
          have hunit : isName unit := hhead unit rfl
          have hslash : ¬ isSlash unit := by simpa [isName] using hunit
          show (if isSlash unit then _ else _) = _
          rw [if_neg hslash, List.takeWhile_cons_of_pos hunit, List.dropWhile_cons_of_pos hunit]
      rw [Loop.run_next hpass]
      rcases hrest with hend | ⟨slash, rest, hcons, hslash⟩
      · have hall : below.takeWhile isName = below := by
          conv_rhs => rw [hsplit, hend, List.append_nil]
        have hlast : below.getLast?.any isSlash = false := by
          cases hl : below.getLast? with
          | none => rfl
          | some x =>
            have hx : x ∈ below := List.mem_of_getLast? hl
            rw [← hall] at hx
            simpa [isName] using mem_takeWhile_isName below x hx
        have hcomponents : components below = [below] :=
          components_name hnil (hall ▸ mem_takeWhile_isName below)
        rw [hend, Loop.run_done rfl, hlast, hcomponents, hall]
        rfl
      · have hpass : PartScan.loop.body ⟨parts ++ [below.takeWhile isName], slash :: rest⟩ =
            .next ⟨parts ++ [below.takeWhile isName] ++ [[]], rest⟩ := by
          show (if isSlash slash then _ else _) = _
          rw [if_pos hslash, if_neg (by rw [List.getLast?_concat]; simpa using hname)]
        have hlt : (rest.dropWhile isSlash).length < size := by
          have hle : (rest.dropWhile isSlash).length ≤ rest.length := List.length_dropWhile_le _ _
          have hlength := congrArg List.length hsplit
          rw [hcons, List.length_append, List.length_cons] at hlength
          omega
        have hcomponents : components below = below.takeWhile isName :: components rest := by
          conv_lhs => rw [hsplit, hcons, components_append hname (mem_takeWhile_isName below) hslash]
        rw [hcons, Loop.run_next hpass, collect_slashes, ih _ hlt _ _ (head_dropWhile_isSlash rest) rfl,
          components_dropWhile, hcomponents]
        have hlast : below.getLast? = (slash :: rest).getLast? := by
          conv_lhs => rw [hsplit, hcons]
          exact List.getLast?_append_of_ne_nil _ (List.cons_ne_nil _ _)
        by_cases hgone : rest.dropWhile isSlash = []
        · have hnone : components rest = [] := by rw [← components_dropWhile, hgone]; rfl
          have htrailing : below.getLast?.any isSlash = true := by
            rw [hlast]
            cases hl : (slash :: rest).getLast? with
            | none => exact absurd (List.getLast?_eq_none_iff.mp hl) (List.cons_ne_nil _ _)
            | some x =>
              have hx := List.mem_of_getLast? hl
              have hall : ∀ y ∈ slash :: rest, isSlash y := by
                intro y hy
                rcases List.mem_cons.mp hy with rfl | hy
                · exact hslash
                · exact List.dropWhile_eq_nil_iff.mp hgone y hy
              exact hall x hx
          rw [hgone, hnone, htrailing]
          simp [partsOf]
        · have hrestne : components rest ≠ [] := by
            rw [← components_dropWhile]
            obtain ⟨hfirst, hbehind⟩ := split_name hgone (head_dropWhile_isSlash rest)
            have hcut : rest.dropWhile isSlash = (rest.dropWhile isSlash).takeWhile isName ++
                (rest.dropWhile isSlash).dropWhile isName := List.takeWhile_append_dropWhile.symm
            rw [hcut]
            rcases hbehind with hend | ⟨slash', rest', hcons', hslash'⟩
            · rw [hend, List.append_nil, components_name hfirst (mem_takeWhile_isName _)]
              exact List.cons_ne_nil _ _
            · rw [hcons', components_append hfirst (mem_takeWhile_isName _) hslash']
              exact List.cons_ne_nil _ _
          have hsame : (slash :: rest).getLast? = (rest.dropWhile isSlash).getLast? := by
            have hcut : slash :: rest = (slash :: rest.takeWhile isSlash) ++ rest.dropWhile isSlash := by
              rw [List.cons_append, List.takeWhile_append_dropWhile]
            conv_lhs => rw [hcut]
            exact List.getLast?_append_of_ne_nil _ hgone
          rw [hlast, hsame, List.append_assoc, List.append_assoc]
          congr 1
          have hslots : slots (components rest) ≠ [] := by
            cases hc : components rest with
            | nil => exact absurd hc hrestne
            | cons name names => exact List.cons_ne_nil _ _
          unfold partsOf
          split_ifs
          · rfl
          · rw [slots_cons, List.dropLast_cons_of_ne_nil (List.cons_ne_nil _ _), List.dropLast_cons_of_ne_nil hslots]
            rfl

/-- **The parts of a path are its names, with a separator after each.** -/
theorem collectParts_eq {below : Wide} (hhead : ∀ x ∈ below.head?, isName x) :
    collectParts below = partsOf (components below) (below.getLast?.any isSlash) := by
  unfold collectParts
  rw [collect_run [] below hhead, List.nil_append]

/-! ## The compaction -/

section Compact

variable {stack junk : List Wide} {hasRootDirectory : Bool} {name : Wide}

theorem set_slots (names : List Wide) (k : Nat) (name : Wide) : (slots names).set (2 * k) name = slots (names.set k name) := by
  induction names generalizing k with
  | nil => rfl
  | cons first names ih =>
    cases k with
    | zero => rfl
    | succ k =>
      have hindex : 2 * (k + 1) = 2 * k + 1 + 1 := by omega
      rw [hindex, slots_cons, List.set_cons_succ, List.set_cons_succ, List.set_cons_succ, slots_cons, ih]

theorem take_slots (names : List Wide) (k : Nat) : (slots names).take (2 * k) = slots (names.take k) := by
  induction names generalizing k with
  | nil => simp
  | cons first names ih =>
    cases k with
    | zero => rfl
    | succ k =>
      have hindex : 2 * (k + 1) = 2 * k + 1 + 1 := by omega
      rw [hindex, slots_cons, List.take_succ_cons, List.take_succ_cons, List.take_succ_cons, slots_cons, ih]

theorem getElem?_slots (names : List Wide) (k : Nat) : (slots names)[2 * k]? = names[k]? := by
  induction names generalizing k with
  | nil => rfl
  | cons first names ih =>
    cases k with
    | zero => rfl
    | succ k =>
      have hindex : 2 * (k + 1) = 2 * k + 1 + 1 := by omega
      rw [hindex, slots_cons, List.getElem?_cons_succ, List.getElem?_cons_succ, List.getElem?_cons_succ, ih]

/-- What is in use of the slots of a stack, and whatever is behind it. -/
theorem take_prefix {rest : List Wide} (hpre : stack <+: junk) :
    (slots junk ++ rest).take (2 * stack.length) = slots stack := by
  have hle := hpre.length_le
  rw [List.take_append_of_le_length (by rw [length_slots]; omega), take_slots, ← List.prefix_iff_eq_take.mp hpre]

theorem lookBehind_eq {rest : List Wide} {position : Nat} (hpre : stack <+: junk) :
    (⟨slots junk ++ rest, 2 * stack.length, position⟩ : Compaction).lookBehind = stack.getLast? := by
  have hle := hpre.length_le
  unfold Compaction.lookBehind
  dsimp only
  rcases List.eq_nil_or_concat stack with rfl | ⟨below, top, rfl⟩
  · rfl
  · rw [List.length_concat] at hle ⊢
    have hindex : 2 * (below.length + 1) - 2 = 2 * below.length := by omega
    rw [if_pos (by omega), hindex, List.getElem?_append_left (by rw [length_slots]; omega), getElem?_slots,
      List.concat_eq_append, List.getLast?_concat]
    rw [List.concat_eq_append] at hpre
    have hat := List.prefix_iff_getElem?.mp hpre below.length (by rw [List.length_append]; exact Nat.lt_add_one _)
    rw [hat, List.getElem_append_right (Nat.le_refl _)]
    simp

/-- **What a pass does with a name**: it is written, or the end of what is in use goes where the stack ends. -/
theorem step_slots (rest : List Wide) (hpre : stack <+: junk) (hlength : position = 2 * junk.length) :
    (push hasRootDirectory stack name = stack ++ [name] ∧ name ≠ dot ∧
      Compaction.step hasRootDirectory ⟨slots junk ++ name :: rest, 2 * stack.length, position⟩ =
        Compaction.place ⟨slots junk ++ name :: rest, 2 * stack.length, position⟩ name) ∨
    (push hasRootDirectory stack name <+: stack ∧ (name = dot ∨ name = dotDot) ∧
      Compaction.step hasRootDirectory ⟨slots junk ++ name :: rest, 2 * stack.length, position⟩ =
        Compaction.proceed (slots junk ++ name :: rest) (2 * (push hasRootDirectory stack name).length) (position + 1)) := by
  have hread : (slots junk ++ name :: rest)[position]? = some name := by
    rw [hlength, ← length_slots, List.getElem?_append_right (Nat.le_refl _), Nat.sub_self]
    rfl
  have hdots : dotDot ≠ dot := by decide
  have hbehind : (⟨slots junk ++ name :: rest, 2 * stack.length, position⟩ : Compaction).lookBehind = stack.getLast? :=
    lookBehind_eq hpre
  have hzero : 2 * stack.length = 0 ↔ stack = [] := by rw [← List.length_eq_zero_iff]; omega
  unfold Compaction.step push
  simp only [hread]
  by_cases hdot : name = dot
  · rw [if_pos hdot, if_pos hdot]
    exact .inr ⟨List.prefix_refl _, .inl hdot, rfl⟩
  by_cases hname : name = dotDot
  · subst hname
    rw [if_neg hdot, if_neg hdot, if_neg (not_not_intro rfl), if_neg (not_not_intro rfl)]
    rcases List.eq_nil_or_concat stack with rfl | ⟨below, top, rfl⟩
    · rw [if_pos (hzero.mpr rfl)]
      cases hasRootDirectory with
      | false => exact .inl ⟨rfl, hdot, rfl⟩
      | true => exact .inr ⟨List.prefix_refl _, .inr rfl, rfl⟩
    · rw [List.concat_eq_append] at hbehind hzero ⊢
      have hsome : ¬ 2 * (below ++ [top]).length = 0 := fun h => by simpa using hzero.mp h
      rw [if_neg hsome, hbehind, List.getLast?_concat]
      dsimp only
      by_cases htop : top = dotDot
      · rw [if_neg (not_not_intro htop), if_neg (not_not_intro htop)]
        cases hasRootDirectory with
        | false => exact .inl ⟨rfl, hdot, rfl⟩
        | true => exact .inr ⟨List.prefix_refl _, .inr rfl, rfl⟩
      · rw [if_pos htop, if_pos htop, List.dropLast_concat]
        refine .inr ⟨List.prefix_append _ _, .inr rfl, ?_⟩
        rw [List.length_append]
        rfl
  · rw [if_neg hdot, if_neg hdot, if_pos hname, if_pos hname]
    exact .inl ⟨rfl, hdot, rfl⟩

theorem write_slots (rest : List Wide) (hpre : stack <+: junk) :
    (⟨slots junk ++ name :: rest, 2 * stack.length, position⟩ : Compaction).write name =
      some (if stack.length < junk.length then slots (junk.set stack.length name) ++ name :: rest
        else slots junk ++ name :: rest) := by
  have hle := hpre.length_le
  unfold Compaction.write
  dsimp only
  rw [if_pos (by rw [List.length_append, length_slots, List.length_cons]; omega)]
  congr 1
  by_cases hlt : stack.length < junk.length
  · rw [if_pos hlt, List.set_append_left _ _ (by rw [length_slots]; omega), set_slots]
  · have heq : stack.length = junk.length := by omega
    rw [if_neg hlt, List.set_append_right _ _ (by rw [length_slots]; omega), length_slots, heq, Nat.sub_self]
    rfl

/-- A name with a separator behind it: the loop goes on behind the separator. -/
theorem run_name (rest : List Wide) (hpre : stack <+: junk) (hlength : position = 2 * junk.length) :
    ∃ junk', push hasRootDirectory stack name <+: junk' ∧ junk'.length = junk.length + 1 ∧
      (Compaction.loop hasRootDirectory).run ⟨slots junk ++ name :: [] :: rest, 2 * stack.length, position⟩ =
        (Compaction.loop hasRootDirectory).run
          ⟨slots junk' ++ rest, 2 * (push hasRootDirectory stack name).length, 2 * junk'.length⟩ := by
  have hle := hpre.length_le
  have hrest : slots (junk ++ [name]) ++ rest = slots junk ++ name :: [] :: rest := by
    rw [slots_append, List.append_assoc]
    rfl
  rcases @step_slots _ _ hasRootDirectory name _ ([] :: rest) hpre hlength with
    ⟨hpush, -, hstep⟩ | ⟨hpush, -, hstep⟩
  · refine ⟨(junk ++ [name]).set stack.length name, ?_, by rw [List.length_set, List.length_append]; rfl, ?_⟩
    · obtain ⟨more, rfl⟩ := hpre
      rw [hpush]
      cases more with
      | nil => rw [List.append_nil, List.set_append_right _ _ (Nat.le_refl _), Nat.sub_self]; exact List.prefix_refl _
      | cons first more =>
        rw [List.append_assoc, List.set_append_right _ _ (Nat.le_refl _), Nat.sub_self]
        exact ⟨more ++ [name], by simp⟩
    · have hwritten : slots ((junk ++ [name]).set stack.length name) ++ rest =
          if stack.length < junk.length then slots (junk.set stack.length name) ++ name :: [] :: rest
          else slots junk ++ name :: [] :: rest := by
        split_ifs with hlt
        · rw [List.set_append_left _ _ hlt, slots_append, List.append_assoc]
          rfl
        · have heq : stack.length = junk.length := by omega
          rw [List.set_append_right _ _ (by omega), heq, Nat.sub_self, ← hrest]
          rfl
      apply Loop.run_next
      show Compaction.step _ _ = _
      rw [hstep]
      unfold Compaction.place
      rw [write_slots _ hpre, ← hwritten]
      dsimp only
      rw [if_neg, hpush]
      · rw [List.length_set, List.length_append, List.length_append, hlength]
        rfl
      · rw [List.length_append, length_slots, List.length_set, List.length_append, hlength, List.length_singleton]
        omega
  · refine ⟨junk ++ [name], hpush.trans (hpre.trans (List.prefix_append _ _)), List.length_append, ?_⟩
    apply Loop.run_next
    show Compaction.step _ _ = _
    rw [hstep, ← hrest]
    unfold Compaction.proceed
    rw [if_neg]
    · rw [List.length_append, hlength]
      rfl
    · rw [List.length_append, length_slots, List.length_append, hlength, List.length_singleton]
      omega

/-! ### The text of what is left -/

/-- A separator after each name but the last. -/
theorem flatMap_slots_concat {stack : List Wide} (hne : ∀ part ∈ stack ++ [name], part ≠ []) :
    (slots stack ++ [name]).flatMap partText = [separator].intercalate (stack ++ [name]) := by
  have htext : ∀ {part : Wide}, part ≠ [] → partText part = part := fun h => if_neg h
  induction stack with
  | nil =>
    rw [slots_nil, List.nil_append, List.intercalate_singleton, List.flatMap_singleton,
      htext (hne name (List.mem_singleton_self _))]
  | cons first stack ih =>
    have hfirst : first ≠ [] := hne first List.mem_cons_self
    have hmore : stack ++ [name] ≠ [] := List.append_ne_nil_of_right_ne_nil _ (List.cons_ne_nil _ _)
    rw [List.cons_append, List.intercalate_cons_of_ne_nil hmore, ← ih fun part hpart => hne part (List.mem_cons_of_mem _ hpart),
      slots_cons, List.cons_append, List.cons_append, List.flatMap_cons, List.flatMap_cons, htext hfirst, List.append_assoc]
    rfl

/-- Names with a separator after each, less the last one behind a `..`. -/
theorem text_slots (hne : ∀ part ∈ stack, part ≠ []) :
    (trimTrailing (slots stack)).flatMap partText = stackText stack true := by
  rcases List.eq_nil_or_concat stack with rfl | ⟨below, top, rfl⟩
  · rfl
  · rw [List.concat_eq_append] at hne ⊢
    have hsplit : slots (below ++ [top]) = slots below ++ [top] ++ [[]] := by rw [slots_append, List.append_assoc]; rfl
    unfold trimTrailing stackText
    rw [hsplit, List.getLast?_concat, List.dropLast_concat, List.getLast?_concat, List.getLast?_concat]
    by_cases htop : top = dotDot
    · rw [if_pos ⟨rfl, congrArg some htop⟩, if_neg (fun h => h.2.2 (congrArg some htop)), flatMap_slots_concat hne,
        List.append_nil]
    · have hsome : some top ≠ some dotDot := fun h => htop (Option.some.inj h)
      rw [if_neg (fun h => hsome h.2), if_pos ⟨rfl, by simp, hsome⟩, List.flatMap_append, flatMap_slots_concat hne]
      rfl

/-- Names with a separator between them. -/
theorem text_kept {stack : List Wide} {directory : Bool} (hne : ∀ part ∈ stack ++ [name], part ≠ [])
    (hdirectory : directory = true → name = dotDot) :
    (trimTrailing (slots stack ++ [name])).flatMap partText = stackText (stack ++ [name]) directory := by
  have hname : name ≠ [] := hne name (by simp)
  have hplain : trimTrailing (slots stack ++ [name]) = slots stack ++ [name] := by
    unfold trimTrailing
    rw [List.getLast?_concat, if_neg (fun h => hname (Option.some.inj h.1))]
  unfold stackText
  rw [hplain, List.getLast?_concat, if_neg (fun h => h.2.2 (congrArg some (hdirectory h.1))), flatMap_slots_concat hne,
    List.append_nil]

theorem push_ne_nil (hname : name ≠ []) (hne : ∀ part ∈ stack, part ≠ []) :
    ∀ part ∈ push hasRootDirectory stack name, part ≠ [] := by
  have hconcat : ∀ {last : Wide}, last ≠ [] → ∀ part ∈ stack ++ [last], part ≠ [] := by
    intro last hlast part hpart
    rcases List.mem_append.mp hpart with hpart | hpart
    · exact hne part hpart
    · rw [List.mem_singleton.mp hpart]; exact hlast
  have hdots : dotDot ≠ [] := List.cons_ne_nil _ _
  unfold push
  by_cases hdot : name = dot
  · rw [if_pos hdot]
    exact hne
  by_cases hup : name ≠ dotDot
  · rw [if_neg hdot, if_pos hup]
    exact hconcat hname
  rw [if_neg hdot, if_neg hup]
  split
  · split_ifs
    · exact hne
    · exact hconcat hdots
  · split_ifs
    · exact fun part hpart => hne part (List.mem_of_mem_dropLast hpart)
    · exact hne
    · exact hconcat hdots

theorem place_last (hpre : stack <+: junk) :
    Compaction.place ⟨slots junk ++ [name], 2 * stack.length, 2 * junk.length⟩ name = .done (some (slots stack ++ [name])) := by
  have hle := hpre.length_le
  have hlt : 2 * stack.length < (slots junk ++ [name]).length := by
    rw [List.length_append, length_slots, List.length_singleton]
    omega
  unfold Compaction.place Compaction.write
  dsimp only
  rw [if_pos hlt]
  dsimp only
  rw [List.length_set, List.length_append, length_slots, List.length_singleton, if_pos rfl, List.take_add_one, List.take_set_of_le (Nat.le_refl _),
    take_prefix hpre, List.getElem?_set_self hlt]
  rfl

/-- Whether the names behind a stack end in a directory. -/
def endDirectory (names : List Wide) (trailing : Bool) : Bool :=
  trailing || names.getLast? == some dot || names.getLast? == some dotDot

/-- **The compaction leaves the stack's text**: from any names on, and whatever is behind what is in use. -/
theorem run_slots (names : List Wide) (trailing : Bool) (hpre : stack <+: junk) (hstack : ∀ part ∈ stack, part ≠ [])
    (hnames : ∀ part ∈ names, part ≠ []) (hend : names = [] → stack ≠ [] → trailing = true) :
    ∃ parts, (Compaction.loop hasRootDirectory).run
        ⟨slots junk ++ partsOf names trailing, 2 * stack.length, 2 * junk.length⟩ = some parts ∧
      (trimTrailing parts).flatMap partText =
        stackText (names.foldl (push hasRootDirectory) stack) (endDirectory names trailing) := by
  induction names generalizing stack junk with
  | nil =>
    have hparts : slots junk ++ partsOf [] trailing = slots junk ++ [] := by
      unfold partsOf
      split_ifs <;> rfl
    refine ⟨slots stack, ?_, ?_⟩
    · rw [hparts]
      apply Loop.run_done
      show Compaction.step _ _ = _
      unfold Compaction.step
      dsimp only
      rw [List.append_nil, List.getElem?_eq_none (by rw [length_slots])]
      dsimp only
      rw [← List.append_nil (slots junk), take_prefix hpre]
    · rw [text_slots hstack, List.foldl_nil]
      by_cases hempty : stack = []
      · subst hempty
        unfold stackText
        simp
      · rw [hend rfl hempty]
        rfl
  | cons name names ih =>
    have hname : name ≠ [] := hnames name List.mem_cons_self
    by_cases hlast : names = [] ∧ trailing = false
    · obtain ⟨rfl, rfl⟩ := hlast
      have hparts : partsOf [name] false = [name] := rfl
      have hpush := @push_ne_nil _ hasRootDirectory _ hname hstack
      have hle := hpre.length_le
      rw [hparts, List.foldl_cons, List.foldl_nil]
      rcases @step_slots _ _ hasRootDirectory name _ [] hpre rfl with
        ⟨hkept, hdot, hstep⟩ | ⟨hgone, hdots, hstep⟩
      · refine ⟨slots stack ++ [name], ?_, ?_⟩
        · apply Loop.run_done
          show Compaction.step _ _ = _
          rw [hstep]
          exact place_last hpre
        · rw [hkept] at hpush ⊢
          apply text_kept hpush
          intro hdirectory
          simpa [endDirectory, hdot] using hdirectory
      · refine ⟨slots (push hasRootDirectory stack name), ?_, ?_⟩
        · apply Loop.run_done
          show Compaction.step _ _ = _
          rw [hstep]
          unfold Compaction.proceed
          rw [if_pos (by rw [List.length_append, length_slots]; rfl), take_prefix (hgone.trans hpre)]
        · have hdirectory : endDirectory [name] false = true := by
            rcases hdots with rfl | rfl <;> rfl
          rw [text_slots hpush, hdirectory]
    · have hparts : partsOf (name :: names) trailing = name :: [] :: partsOf names trailing := by
        unfold partsOf
        cases htrailing : trailing with
        | true => rfl
        | false =>
          have hne : slots names ≠ [] := by
            cases names with
            | nil => exact absurd ⟨rfl, htrailing⟩ hlast
            | cons next names => exact List.cons_ne_nil _ _
          exact (List.dropLast_cons_of_ne_nil (List.cons_ne_nil _ _)).trans
            (congrArg (name :: ·) (List.dropLast_cons_of_ne_nil hne))
      obtain ⟨junk', hpre', hlength', hrun⟩ :=
        @run_name _ _ hasRootDirectory name _ (partsOf names trailing) hpre rfl
      obtain ⟨parts, hresult, htext⟩ := ih hpre' (push_ne_nil hname hstack)
        (fun part hpart => hnames part (List.mem_cons_of_mem _ hpart)) (fun hnil _ => by simpa [hnil] using hlast)
      refine ⟨parts, by rw [hparts, hrun, hresult], ?_⟩
      rw [htext, List.foldl_cons]
      congr 1
      unfold endDirectory
      cases names with
      | nil =>
        have htrailing : trailing = true := by simpa using hlast
        rw [htrailing]
        rfl
      | cons next names => rw [List.getLast?_cons_cons]

end Compact

/-- The parts of a path, compacted and with a trailing `..` alone. -/
theorem compact_eq (hasRootDirectory : Bool) {below : Wide} (hhead : ∀ x ∈ below.head?, isName x) :
    ∃ parts, compact hasRootDirectory (collectParts below) = some parts ∧
      (trimTrailing parts).flatMap partText =
        stackText ((components below).foldl (push hasRootDirectory) [])
          (endDirectory (components below) (below.getLast?.any isSlash)) := by
  obtain ⟨parts, hrun, htext⟩ := @run_slots _ [] hasRootDirectory (components below)
    (below.getLast?.any isSlash) (List.prefix_refl []) (fun _ hmem => absurd hmem List.not_mem_nil)
    (components_ne_nil below) (fun _ h => absurd rfl h)
  refine ⟨parts, ?_, htext⟩
  unfold compact
  rw [collectParts_eq hhead]
  exact hrun

theorem stackText_nil (directory : Bool) : stackText [] directory = [] := by
  unfold stackText
  rw [if_neg (fun h => h.2.1 rfl)]
  rfl

/-- **Normalisation is its specification**: no index is out of bounds, and what is left is the text of the stack. -/
theorem lexicallyNormal_eq_stackNormal (text : Wide) : lexicallyNormal text = some (stackNormal text) := by
  unfold lexicallyNormal stackNormal
  by_cases hempty : text = []
  · rw [if_pos hempty, if_pos hempty]
  · rw [if_neg hempty, if_neg hempty]
    dsimp only
    obtain ⟨parts, hcompact, htext⟩ := compact_eq ((text.drop (findRootNameEnd text)).head?.any isSlash)
      (head_dropWhile_isSlash (text.drop (findRootNameEnd text)))
    have hsame : stackText ((components (text.drop (findRootNameEnd text))).foldl
          (push ((text.drop (findRootNameEnd text)).head?.any isSlash)) [])
        (endDirectory (components (text.drop (findRootNameEnd text)))
          (((text.drop (findRootNameEnd text)).dropWhile isSlash).getLast?.any isSlash)) =
        stackText ((components (text.drop (findRootNameEnd text))).foldl
          (push ((text.drop (findRootNameEnd text)).head?.any isSlash)) [])
        (endsInDirectory (text.drop (findRootNameEnd text))) := by
      generalize text.drop (findRootNameEnd text) = below
      by_cases hgone : below.dropWhile isSlash = []
      · have hnone : components below = [] := by rw [← components_dropWhile, hgone]; rfl
        rw [hnone, List.foldl_nil, stackText_nil, stackText_nil]
      · have hcut : below.getLast? = (below.dropWhile isSlash).getLast? := by
          conv_lhs => rw [← List.takeWhile_append_dropWhile (p := isSlash) (l := below)]
          exact List.getLast?_append_of_ne_nil _ hgone
        unfold endsInDirectory endDirectory
        rw [hcut]
    rw [hcompact, Option.map_some, htext, components_dropWhile, hsame]

end Cao.Winfs
