import Cao.Archive.Truthful
import Cao.Discovery.Reproducible
import Cao.Selection.Overlap

/-!
# The order of Mod Roots

What a resolution that succeeds says of its Mod Roots, and what of it depends on the order of enumeration.

* `Kept`: the names of a mods directory that become Mod Roots;
* `childModRoots_iff`: when a mods directory resolves to given Mod Roots;
* `Untied`: no two kept names read alike;
* `Resolved`: Mod Roots apart from each other, as selected, and in the same order in every enumeration;
* **`resolved_iff`**: every resolution gives such Mod Roots exactly if no two kept names read alike.
-/

namespace Cao.Selection

open Discovery (SameListing pair_sublist not_pair_swapped)
open Prog (Spec spec_bind spec_ofExcept)

variable {view view' : ModsView} {cancelled : Nat → Bool} {lower : Char → Text} {mods : Path} {ignored : List Text}

/-! ## What the children come to -/

/-- The children that no exclusion applies to, sorted. -/
def sortedKept (view : ModsView) (lower : Char → Text) (mods : Path) (ignored : List Text) (names : List OsStr) :
    List Child :=
  (((names.filter (isChild view mods)).map (.of lower mods)).insertionSort childLe).filter fun child =>
    (modExclusion child ignored).isNone

/-- A name of a mods directory that becomes a Mod Root. -/
structure Kept (view : ModsView) (lower : Char → Text) (mods : Path) (ignored : List Text) (name : OsStr) : Prop where
  listed : ∃ entries, view.readDir mods = .ok entries ∧ .ok name ∈ entries
  child : isChild view mods name = true
  unexcluded : modExclusion (.of lower mods name) ignored = none

theorem mem_sortedKept {names : List OsStr} {child : Child} : child ∈ sortedKept view lower mods ignored names ↔
    ∃ name ∈ names, isChild view mods name = true ∧ modExclusion (.of lower mods name) ignored = none ∧
      child = .of lower mods name := by
  unfold sortedKept
  rw [List.mem_filter, List.mem_insertionSort, List.mem_map]
  constructor
  · rintro ⟨⟨name, hname, rfl⟩, hkept⟩
    obtain ⟨hlisted, hchild⟩ := List.mem_filter.mp hname
    exact ⟨name, hlisted, hchild, Option.isNone_iff_eq_none.mp hkept, rfl⟩
  · rintro ⟨name, hlisted, hchild, hkept, rfl⟩
    exact ⟨⟨name, List.mem_filter.mpr ⟨hlisted, hchild⟩, rfl⟩, Option.isNone_iff_eq_none.mpr hkept⟩

/-- The Mod Roots that a mods directory comes to, where nothing cancels. -/
structure ComesTo (view : ModsView) (lower : Char → Text) (directory : Path) (ignoredMods : List Text) (mods : Path)
    (entries : List (Except String OsStr)) (names : List OsStr) (roots : List Path) : Prop where
  selected : selectedDirectory view (.childModRoots directory) = .ok mods
  read : view.readDir mods = .ok entries
  listed : Listed view mods entries names
  resolved : (sortedKept view lower mods (ignoredMods.map (foldedName lower)) names).foldlM (admitRoot view mods) [] =
    .ok roots

theorem map_ok_injective {names names' : List OsStr} (h : names.map (Except.ok (ε := String)) = names'.map .ok) :
    names = names' :=
  List.map_injective_iff.mpr (fun _ _ => Except.ok.inj) h

/-- **When a mods directory resolves to given Mod Roots**, where nothing cancels. -/
theorem childModRoots_iff (hcalm : ∀ n, cancelled n = false) {directory : Path} {ignoredMods : List Text} {s : Selecting}
    {roots : List Path} :
    (resolveModRoots view cancelled lower (.childModRoots directory) ignoredMods s).1 = .done roots ↔
      ∃ mods entries names, ComesTo view lower directory ignoredMods mods entries names roots := by
  have hspec : Spec (resolveModRoots view cancelled lower (.childModRoots directory) ignoredMods) s
      (fun roots _ => ∃ mods entries names, ComesTo view lower directory ignoredMods mods entries names roots)
      (fun _ _ => ∀ mods entries names roots, ¬ComesTo view lower directory ignoredMods mods entries names roots)
      fun _ => False := by
    refine spec_bind.mpr (spec_ofExcept.mpr ⟨fun mods hmods => ?_, fun e he mods _ _ _ h => ?_⟩)
    · refine spec_bind.mpr (spec_ofExcept.mpr ⟨fun entries hentries => ?_, fun e he mods' _ _ _ h => ?_⟩)
      · have hread := orIoFailure_ok hentries
        refine spec_bind.mpr ((spec_listChildren hcalm mods entries [] s).mono (fun found s' hfound => ?_)
          (fun e _ hunlisted mods' _ names _ h => ?_) fun _ h => h)
        · obtain ⟨names, hlisted, rfl⟩ := hfound
          refine (spec_resolveChildren hcalm _ [] s').mono (fun roots _ hroots => ⟨mods, entries, names, ?_⟩)
            (fun e _ he mods' entries' names' roots' h => ?_) fun _ h => h
          · exact ⟨hmods, hread, hlisted, hroots⟩
          · obtain rfl := Except.ok.inj (hmods.symm.trans h.selected)
            obtain rfl := Except.ok.inj (hread.symm.trans h.read)
            obtain rfl := map_ok_injective (hlisted.1.symm.trans h.listed.1)
            exact absurd (he.symm.trans h.resolved) nofun
        · obtain rfl := Except.ok.inj (hmods.symm.trans h.selected)
          obtain rfl := Except.ok.inj (hread.symm.trans h.read)
          exact hunlisted names h.listed
      · obtain rfl := Except.ok.inj (hmods.symm.trans h.selected)
        rw [h.read] at he
        cases he
    · rw [h.selected] at he
      cases he
  unfold Spec at hspec
  generalize resolveModRoots view cancelled lower (.childModRoots directory) ignoredMods s = ended at hspec ⊢
  obtain ⟨roots' | e | _, s'⟩ := ended
  · obtain ⟨mods, entries, names, hcomes⟩ := hspec
    refine ⟨fun h => Outcome.done.inj h ▸ ⟨mods, entries, names, hcomes⟩, fun ⟨mods', entries', names', h⟩ => ?_⟩
    obtain rfl := Except.ok.inj (hcomes.selected.symm.trans h.selected)
    obtain rfl := Except.ok.inj (hcomes.read.symm.trans h.read)
    obtain rfl := map_ok_injective (hcomes.listed.1.symm.trans h.listed.1)
    exact congrArg Outcome.done (Except.ok.inj (hcomes.resolved.symm.trans h.resolved))
  · exact iff_of_false nofun fun ⟨mods, entries, names, h⟩ => hspec mods entries names roots h
  · exact hspec.elim

/-! ## Other orders -/

/-- Two file systems that differ in the order in which they list directories only. -/
structure SameMods (view view' : ModsView) : Prop where
  canonical : view'.canonical = view.canonical
  isDir : view'.isDir = view.isDir
  metadata : view'.metadata = view.metadata
  identity : view'.identity = view.identity
  readDir : ∀ directory, SameListing (view.readDir directory) (view'.readDir directory)

theorem anyIdentified_same (h : SameMods view view') (boundary : Nat) (directories : List Path) :
    anyIdentified view' boundary directories = anyIdentified view boundary directories := by
  induction directories with
  | nil => rfl
  | cons directory directories ih =>
    unfold anyIdentified
    rw [h.identity]
    exact congrArg _ (funext fun identity => by rw [ih])

theorem containsDirectory_same (h : SameMods view view') : containsDirectory view' = containsDirectory view := by
  funext boundary directory
  unfold containsDirectory
  rw [h.identity]
  exact congrArg _ (funext fun boundary => anyIdentified_same h boundary _)

theorem refuseOverlap_same (h : SameMods view view') (child resolved : Path) (roots : List Path) :
    refuseOverlap view' child resolved roots = refuseOverlap view child resolved roots := by
  induction roots with
  | nil => rfl
  | cons existing roots ih =>
    unfold refuseOverlap
    rw [containsDirectory_same h, ih]

theorem admitRoot_same (h : SameMods view view') (mods : Path) : admitRoot view' mods = admitRoot view mods := by
  funext roots child
  unfold admitRoot
  rw [containsDirectory_same h, h.canonical]
  simp only [refuseOverlap_same h]

theorem isChild_same (h : SameMods view view') : isChild view' = isChild view := by
  funext root name
  unfold isChild
  rw [h.metadata]

theorem sortedKept_same (h : SameMods view view') : sortedKept view' lower mods ignored = sortedKept view lower mods ignored := by
  funext names
  unfold sortedKept
  rw [isChild_same h]

theorem selectedDirectory_same (h : SameMods view view') (selection : ModSelection) :
    selectedDirectory view' selection = selectedDirectory view selection := by
  unfold selectedDirectory
  rw [h.canonical, h.isDir]

/-- The names of a listing in another order. -/
theorem Listed.other (hsame : SameMods view view') {root : Path} {entries entries' : List (Except String OsStr)}
    {names : List OsStr} (h : Listed view root entries names) (hperm : entries.Perm entries') :
    ∃ names', Listed view' root entries' names' ∧ names.Perm names' := by
  have hother : entries'.Perm (names.map .ok) := h.1 ▸ hperm.symm
  have hmap : Relation.Comp (· = List.map Except.ok ·) List.Perm entries' names := by
    rw [List.eq_map_comp_perm]
    exact hother
  obtain ⟨names', hentries, hnames⟩ := hmap
  refine ⟨names', ⟨hentries, fun name hname => ?_⟩, hnames.symm⟩
  rw [hsame.metadata]
  exact h.2 name (hnames.mem_iff.mp hname)

/-! ## Ties -/

/-- No two names of a mods directory that become Mod Roots read alike. -/
def UntiedIn (view : ModsView) (lower : Char → Text) (mods : Path) (ignored : List Text) : Prop :=
  ∀ a b : OsStr, Kept view lower mods ignored a → Kept view lower mods ignored b → a.lossy = b.lossy → a = b

theorem pairwise_sortedKept (names : List OsStr) : (sortedKept view lower mods ignored names).Pairwise childLe :=
  (List.pairwise_insertionSort childLe _).filter _

theorem perm_sortedKept {names names' : List OsStr} (h : names.Perm names') :
    (sortedKept view lower mods ignored names).Perm (sortedKept view lower mods ignored names') := by
  refine List.Perm.filter _ ((List.perm_insertionSort _ _).trans (List.Perm.trans ?_ (List.perm_insertionSort _ _).symm))
  exact (h.filter _).map _

/-- **Without ties, sorted children are in one order.** -/
theorem sortedKept_perm {names names' : List OsStr} (h : names.Perm names')
    (huntied : ∀ a ∈ names, ∀ b ∈ names, isChild view mods a = true → isChild view mods b = true →
      modExclusion (.of lower mods a) ignored = none → modExclusion (.of lower mods b) ignored = none →
        a.lossy = b.lossy → a = b) :
    sortedKept view lower mods ignored names = sortedKept view lower mods ignored names' := by
  refine List.Perm.eq_of_pairwise ?_ (pairwise_sortedKept names) (pairwise_sortedKept names') (perm_sortedKept h)
  intro a b ha hb hab hba
  obtain ⟨name, hname, hchild, hkept, rfl⟩ := mem_sortedKept.mp ha
  obtain ⟨name', hname', hchild', hkept', rfl⟩ := mem_sortedKept.mp hb
  have hkeys := le_antisymm hab hba
  have hread : name.lossy = name'.lossy := strKey_injective (List.cons.inj (List.cons.inj hkeys).2).1
  rw [huntied name hname name' (h.mem_iff.mpr hname') hchild hchild' hkept hkept' hread]

/-- **Children sorted alike forwards and backwards have no ties.** -/
theorem untied_of_sortedKept {names : List OsStr} (hnodup : (sortedKept view lower mods ignored names).Nodup)
    (h : sortedKept view lower mods ignored names = sortedKept view lower mods ignored names.reverse) {a b : OsStr}
    (ha : a ∈ names) (hb : b ∈ names) (hchild : isChild view mods a = true) (hchild' : isChild view mods b = true)
    (hkept : modExclusion (.of lower mods a) ignored = none) (hkept' : modExclusion (.of lower mods b) ignored = none)
    (hread : a.lossy = b.lossy) : a = b := by
  -- A tie keeps the order in which its names are listed, forwards and backwards.
  have hstable : ∀ (names : List OsStr) (a b : OsStr), isChild view mods a = true → isChild view mods b = true →
      modExclusion (.of lower mods a) ignored = none → modExclusion (.of lower mods b) ignored = none →
        a.lossy = b.lossy → [a, b].Sublist names →
          [Child.of lower mods a, Child.of lower mods b].Sublist (sortedKept view lower mods ignored names) := by
    intro names a b ha hb hkept hkept' hread hsub
    have hle : childLe (.of lower mods a) (.of lower mods b) := by
      show [strKey (foldedName lower a.lossy), strKey a.lossy] ≤ [strKey (foldedName lower b.lossy), strKey b.lossy]
      rw [hread]
    have hchildren := (hsub.filter (isChild view mods)).map (Child.of lower mods)
    rw [List.filter_cons_of_pos ha, List.filter_cons_of_pos hb] at hchildren
    have hsorted := (List.pair_sublist_insertionSort hle hchildren).filter fun child => (modExclusion child ignored).isNone
    rw [List.filter_cons_of_pos (by simp [hkept]), List.filter_cons_of_pos (by simp [hkept'])] at hsorted
    exact hsorted
  have hapart : ∀ a b : OsStr, isChild view mods a = true → isChild view mods b = true →
      modExclusion (.of lower mods a) ignored = none → modExclusion (.of lower mods b) ignored = none →
        a.lossy = b.lossy → ¬[a, b].Sublist names := by
    intro a b ha hb hkept hkept' hread hsub
    have hforwards := hstable names a b ha hb hkept hkept' hread hsub
    have hbackwards := hstable names.reverse b a hb ha hkept' hkept hread.symm (by simpa using hsub.reverse)
    rw [← h] at hbackwards
    exact not_pair_swapped hnodup hforwards hbackwards
  by_contra hne
  rcases pair_sublist ha hb hne with hsub | hsub
  · exact hapart a b hchild hchild' hkept hkept' hread hsub
  · exact hapart b a hchild' hchild hkept' hkept hread.symm hsub

/-! ## Resolutions -/

/-- A Mod Root that the selection asks for. -/
def Selected (view : ModsView) (lower : Char → Text) (selection : ModSelection) (ignoredMods : List Text) (root : Path) :
    Prop :=
  match selection with
  | .singleModRoot directory => view.canonical directory = .ok root
  | .childModRoots directory => ∃ mods name, view.canonical directory = .ok mods ∧
      Kept view lower mods (ignoredMods.map (foldedName lower)) name ∧ view.canonical (mods ++ [name]) = .ok root

/-- No two names that a selection keeps read alike. -/
def Untied (view : ModsView) (lower : Char → Text) (selection : ModSelection) (ignoredMods : List Text) : Prop :=
  match selection with
  | .singleModRoot _ => True
  | .childModRoots directory => ∀ mods, view.canonical directory = .ok mods →
      UntiedIn view lower mods (ignoredMods.map (foldedName lower))

/-- Mod Roots apart from each other and from the mods directory, the ones selected, and in one order however directories
are listed. -/
structure Resolved (view : ModsView) (lower : Char → Text) (selection : ModSelection) (ignoredMods : List Text)
    (roots : List Path) : Prop where
  apart : roots.Pairwise fun a b => ¬Encloses view a b ∧ ¬Encloses view b a
  outside : ∀ directory mods, selection = .childModRoots directory → view.canonical directory = .ok mods →
    ∀ root ∈ roots, ¬Encloses view root mods
  selected : ∀ root, root ∈ roots ↔ Selected view lower selection ignoredMods root
  orderFree : ∀ (view' : ModsView) (cancelled : Nat → Bool) (s : Selecting), SameMods view view' →
    (∀ n, cancelled n = false) → (resolveModRoots view' cancelled lower selection ignoredMods s).1 = .done roots

theorem selectedDirectory_ok {selection : ModSelection} (h : selectedDirectory view selection = .ok mods) :
    view.canonical selection.directory = .ok mods := by
  unfold selectedDirectory at h
  cases hcanonical : view.canonical selection.directory with
  | error e =>
    rw [hcanonical] at h
    cases h
  | ok root =>
    rw [hcanonical] at h
    dsimp only at h
    split_ifs at h
    exact congrArg Except.ok (Except.ok.inj h)

/-- What a child resolves to, if to anything. -/
def rootOf (view : ModsView) (child : Child) : Path := (view.canonical child.path).toOption.getD []

theorem resolves_rootOf {children : List Child} {roots : List Path} (h : List.Forall₂ (Resolves view) children roots) :
    ∀ child ∈ children, Resolves view child (rootOf view child) := by
  induction h with
  | nil => exact nofun
  | @cons child root _ _ hresolves _ ih =>
    have hroot : rootOf view child = root := by
      unfold rootOf
      rw [hresolves]
      rfl
    exact List.forall_mem_cons.mpr ⟨hroot.symm ▸ hresolves, ih⟩

theorem eq_map_rootOf {children : List Child} {roots : List Path} (h : List.Forall₂ (Resolves view) children roots) :
    roots = children.map (rootOf view) := by
  induction h with
  | nil => rfl
  | cons hresolves _ ih =>
    rw [List.map_cons, ← ih]
    unfold rootOf
    rw [hresolves]
    rfl

/-- Lists with one image, of a function that tells their members apart. -/
theorem eq_of_map_eq {α β : Type} {f : α → β} {l l' : List α} (hinj : ∀ a ∈ l, ∀ b ∈ l', f a = f b → a = b)
    (h : l.map f = l'.map f) : l = l' := by
  induction l generalizing l' with
  | nil => exact (List.map_eq_nil_iff.mp h.symm).symm
  | cons a l ih =>
    cases l' with
    | nil => cases h
    | cons b l' =>
      obtain ⟨hhead, htail⟩ := List.cons.inj h
      rw [hinj a List.mem_cons_self b List.mem_cons_self hhead,
        ih (fun a ha b hb => hinj a (List.mem_cons_of_mem _ ha) b (List.mem_cons_of_mem _ hb)) htail]

/-- Directories listed backwards. -/
def backwards (view : ModsView) : ModsView := { view with readDir := fun directory => (view.readDir directory).map List.reverse }

theorem sameMods_backwards (view : ModsView) : SameMods view (backwards view) where
  canonical := rfl
  isDir := rfl
  metadata := rfl
  identity := rfl
  readDir directory := by
    show SameListing (view.readDir directory) ((view.readDir directory).map List.reverse)
    cases view.readDir directory with
    | ok entries => exact (List.reverse_perm entries).symm
    | error detail => rfl

variable {directory : Path} {ignoredMods : List Text} {roots : List Path} {entries : List (Except String OsStr)}
  {names : List OsStr}

theorem ComesTo.kept_iff (h : ComesTo view lower directory ignoredMods mods entries names roots) {name : OsStr} :
    Kept view lower mods (ignoredMods.map (foldedName lower)) name ↔ name ∈ names ∧ isChild view mods name = true ∧
      modExclusion (.of lower mods name) (ignoredMods.map (foldedName lower)) = none := by
  constructor
  · rintro ⟨⟨entries', hread, hname⟩, hchild, hkept⟩
    obtain rfl := Except.ok.inj (h.read.symm.trans hread)
    rw [h.listed.1] at hname
    obtain ⟨name', hname', heq⟩ := List.mem_map.mp hname
    obtain rfl := Except.ok.inj heq
    exact ⟨hname', hchild, hkept⟩
  · rintro ⟨hname, hchild, hkept⟩
    exact ⟨⟨entries, h.read, h.listed.1 ▸ List.mem_map_of_mem hname⟩, hchild, hkept⟩

/-- **The Mod Roots of a mods directory, apart.** -/
theorem ComesTo.admitted (h : ComesTo view lower directory ignoredMods mods entries names roots) :
    Separate view mods roots ∧
      List.Forall₂ (Resolves view) (sortedKept view lower mods (ignoredMods.map (foldedName lower)) names) roots := by
  obtain ⟨hseparate, resolved, hroots, hresolved⟩ := Selection.admitted _ (⟨nofun, .nil, nofun⟩ : Separate view mods []) h.resolved
  rw [List.nil_append] at hroots
  exact ⟨hseparate, hroots ▸ hresolved⟩

/-- A resolution over directories listed in another order. -/
theorem ComesTo.other (h : ComesTo view lower directory ignoredMods mods entries names roots) (hsame : SameMods view view') :
    ∃ entries' names', view'.readDir mods = .ok entries' ∧ entries.Perm entries' ∧ Listed view' mods entries' names' ∧
      names.Perm names' := by
  have hlisting := hsame.readDir mods
  rw [h.read] at hlisting
  cases hread : view'.readDir mods with
  | error detail =>
    rw [hread] at hlisting
    exact hlisting.elim
  | ok entries' =>
    rw [hread] at hlisting
    obtain ⟨names', hlisted, hnames⟩ := h.listed.other hsame hlisting
    exact ⟨entries', names', rfl, hlisting, hlisted, hnames⟩

/-- **Without ties, every enumeration gives the same Mod Roots.** -/
theorem ComesTo.same (h : ComesTo view lower directory ignoredMods mods entries names roots)
    (huntied : UntiedIn view lower mods (ignoredMods.map (foldedName lower))) (hsame : SameMods view view') :
    ∃ entries' names', ComesTo view' lower directory ignoredMods mods entries' names' roots := by
  obtain ⟨entries', names', hread, -, hlisted, hnames⟩ := h.other hsame
  refine ⟨entries', names', ⟨(selectedDirectory_same hsame _).trans h.selected, hread, hlisted, ?_⟩⟩
  rw [sortedKept_same hsame, admitRoot_same hsame, ← sortedKept_perm hnames fun a ha b hb hchild hchild' hkept hkept' =>
    huntied a b (h.kept_iff.mpr ⟨ha, hchild, hkept⟩) (h.kept_iff.mpr ⟨hb, hchild', hkept'⟩)]
  exact h.resolved

/-- **Where listings backwards give the same Mod Roots, there are no ties.** -/
theorem ComesTo.untied (h : ComesTo view lower directory ignoredMods mods entries names roots)
    {entries' : List (Except String OsStr)} {names' : List OsStr}
    (h' : ComesTo (backwards view) lower directory ignoredMods mods entries' names' roots) :
    UntiedIn view lower mods (ignoredMods.map (foldedName lower)) := by
  have hreversed : names' = names.reverse := by
    have hread : (backwards view).readDir mods = .ok entries.reverse := by
      show (view.readDir mods).map List.reverse = _
      rw [h.read]
      rfl
    have hentries : entries' = entries.reverse := Except.ok.inj (h'.read.symm.trans hread)
    refine map_ok_injective ?_
    rw [← h'.listed.1, hentries, h.listed.1, List.map_reverse]
  obtain ⟨hseparate, hresolved⟩ := h.admitted
  obtain ⟨-, hresolved'⟩ := h'.admitted
  rw [sortedKept_same (sameMods_backwards view), hreversed] at hresolved'
  have hroots := eq_map_rootOf hresolved
  have hnodup := hseparate.nodup
  rw [hroots] at hnodup
  have hperm := @perm_sortedKept view lower mods (ignoredMods.map (foldedName lower)) _ _ (List.reverse_perm names)
  have hsorted := eq_of_map_eq (fun a ha b hb hab => List.inj_on_of_nodup_map hnodup ha (hperm.mem_iff.mp hb) hab)
    (hroots.symm.trans (eq_map_rootOf hresolved'))
  intro a b ha hb hread
  obtain ⟨hmem, hchild, hkept⟩ := h.kept_iff.mp ha
  obtain ⟨hmem', hchild', hkept'⟩ := h.kept_iff.mp hb
  exact untied_of_sortedKept hnodup.of_map hsorted hmem hmem' hchild hchild' hkept hkept' hread

/-- The Mod Roots are what the kept names resolve to. -/
theorem ComesTo.mem_iff (h : ComesTo view lower directory ignoredMods mods entries names roots) (root : Path) :
    root ∈ roots ↔ Selected view lower (.childModRoots directory) ignoredMods root := by
  obtain ⟨-, hresolved⟩ := h.admitted
  have hmods := selectedDirectory_ok h.selected
  constructor
  · intro hroot
    rw [eq_map_rootOf hresolved] at hroot
    obtain ⟨child, hchild, rfl⟩ := List.mem_map.mp hroot
    have hresolves := resolves_rootOf hresolved child hchild
    obtain ⟨name, hname, hdirectory, hkept, rfl⟩ := mem_sortedKept.mp hchild
    exact ⟨mods, name, hmods, h.kept_iff.mpr ⟨hname, hdirectory, hkept⟩, hresolves⟩
  · rintro ⟨mods', name, hmods', hkept, hroot⟩
    obtain rfl := Except.ok.inj (hmods.symm.trans hmods')
    obtain ⟨hname, hdirectory, hunexcluded⟩ := h.kept_iff.mp hkept
    rw [eq_map_rootOf hresolved]
    refine List.mem_map.mpr ⟨.of lower mods name, mem_sortedKept.mpr ⟨name, hname, hdirectory, hunexcluded, rfl⟩, ?_⟩
    show (view.canonical (mods ++ [name])).toOption.getD [] = root
    rw [hroot]
    rfl

theorem singleModRoot_iff {s : Selecting} :
    (resolveModRoots view cancelled lower (.singleModRoot directory) ignoredMods s).1 = .done roots ↔
      ∃ root, selectedDirectory view (.singleModRoot directory) = .ok root ∧ roots = [root] := by
  show (Prog.andThen (Prog.ofExcept _) _ s).1 = _ ↔ _
  cases selectedDirectory view (.singleModRoot directory) with
  | error e => exact iff_of_false nofun nofun
  | ok root =>
    show Outcome.done [root] = .done roots ↔ _
    constructor
    · exact fun h => ⟨root, rfl, (Outcome.done.inj h).symm⟩
    · rintro ⟨_, ⟨rfl⟩, rfl⟩
      rfl

/-- **A resolution that succeeds gives Mod Roots apart from each other and from the mods directory, as selected, and in
one order however directories are listed, exactly if no two names that it keeps read alike.** -/
theorem resolved_iff {selection : ModSelection} {s : Selecting} (hcalm : ∀ n, cancelled n = false)
    (hruns : (resolveModRoots view cancelled lower selection ignoredMods s).1 = .done roots) :
    Resolved view lower selection ignoredMods roots ↔ Untied view lower selection ignoredMods := by
  cases selection with
  | singleModRoot directory =>
    obtain ⟨root, hroot, rfl⟩ := singleModRoot_iff.mp hruns
    refine iff_of_true ⟨List.pairwise_singleton _ _, nofun, fun other => ?_, fun view' cancelled s hsame _ => ?_⟩ trivial
    · rw [List.mem_singleton]
      have hcanonical : view.canonical directory = .ok root := selectedDirectory_ok hroot
      show other = root ↔ view.canonical directory = .ok other
      rw [hcanonical]
      exact ⟨fun h => h ▸ rfl, fun h => (Except.ok.inj h).symm⟩
    · exact singleModRoot_iff.mpr ⟨root, (selectedDirectory_same hsame _).trans hroot, rfl⟩
  | childModRoots directory =>
    obtain ⟨mods, entries, names, hcomes⟩ := (childModRoots_iff hcalm).mp hruns
    have hmods : view.canonical directory = .ok mods := selectedDirectory_ok hcomes.selected
    constructor
    · rintro h mods' hmods'
      obtain rfl := Except.ok.inj (hmods.symm.trans hmods')
      have hbackwards := h.orderFree (backwards view) cancelled s (sameMods_backwards view) hcalm
      obtain ⟨mods', entries', names', hcomes'⟩ := (childModRoots_iff hcalm).mp hbackwards
      obtain rfl := Except.ok.inj (hcomes.selected.symm.trans hcomes'.selected)
      exact hcomes.untied hcomes'
    · intro huntied
      obtain ⟨hseparate, -⟩ := hcomes.admitted
      refine ⟨hseparate.apart, ?_, hcomes.mem_iff, fun view' cancelled' s' hsame hcalm' => ?_⟩
      · rintro _ mods' ⟨rfl⟩ hmods'
        obtain rfl := Except.ok.inj (hmods.symm.trans hmods')
        exact hseparate.outside
      · obtain ⟨entries', names', hcomes'⟩ := hcomes.same (huntied mods hmods) hsame
        exact (childModRoots_iff hcalm').mpr ⟨mods, entries', names', hcomes'⟩

/-! ## Two mods that read alike -/

/-- A mods directory that holds two mods, whose names are unpaired surrogates. -/
def twinMods : ModsView where
  canonical := .ok
  isDir _ := true
  readDir path :=
    if path = ["C:".toList, "mods".toList].map OsStr.ofText then .ok [.ok [.lone 0xD800], .ok [.lone 0xD801]]
    else .error "absent"
  metadata _ := .ok (some true)
  identity path := .ok (if path.getLast? = some [.lone 0xD801] then 0 else path.length)

/-- The selection of every mod in it. -/
def twinSelection : ModSelection := .childModRoots (["C:".toList, "mods".toList].map OsStr.ofText)

/-- Its Mod Roots, in the order of one enumeration. -/
def twinRoots : List Path :=
  [["C:".toList, "mods".toList].map OsStr.ofText ++ [[.lone 0xD800]],
    ["C:".toList, "mods".toList].map OsStr.ofText ++ [[.lone 0xD801]]]

theorem resolved_iff_sample : ¬Resolved twinMods (fun c => [c.toLower]) twinSelection [] twinRoots := by
  rw [@resolved_iff twinMods (fun _ => false) (fun c => [c.toLower]) [] twinRoots twinSelection ⟨0, []⟩ (fun _ => rfl)
    (by decide +kernel)]
  intro huntied
  have hkept : ∀ name ∈ ([[.lone 0xD800], [.lone 0xD801]] : List OsStr), Kept twinMods (fun c => [c.toLower])
      (["C:".toList, "mods".toList].map OsStr.ofText) [] name := fun name hname =>
    ⟨⟨_, rfl, List.mem_map_of_mem hname⟩, by revert name; decide, by revert name; decide⟩
  exact absurd (huntied _ rfl [.lone 0xD800] [.lone 0xD801] (hkept _ (by decide)) (hkept _ (by decide)) rfl) (by decide)

/-- The listing of such a directory decides the order of its Mod Roots. -/
theorem twins_not_orderFree : ¬∀ (view : ModsView) (cancelled : Nat → Bool) (lower : Char → Text)
    (selection : ModSelection) (ignoredMods : List Text) (s : Selecting) (roots : List Path),
    (∀ n, cancelled n = false) → (resolveModRoots view cancelled lower selection ignoredMods s).1 = .done roots →
      Resolved view lower selection ignoredMods roots := by
  intro h
  have hresolved := h twinMods (fun _ => false) (fun c => [c.toLower]) twinSelection [] ⟨0, []⟩ twinRoots (fun _ => rfl)
    (by decide +kernel)
  have hbackwards := hresolved.orderFree (backwards twinMods) (fun _ => false) ⟨0, []⟩ (sameMods_backwards twinMods)
    fun _ => rfl
  exact absurd hbackwards (by decide +kernel)

end Cao.Selection
