import Cao.Selection.Resolve

/-!
# Mod Roots that do not overlap

* `Encloses`: one directory is or contains another, by its path or by its identity;
* `not_encloses`: what a containment check that fails rules out;
* `spec_listChildren`, `spec_resolveChildren`: what the two loops of a resolution that nothing cancels come to;
* **`admitted`**: the Mod Roots of the kept children, apart from each other and from the mods directory.
-/

namespace Cao.Selection

open Evidence (RunDiagnostic)
open Prog (Spec spec_bind spec_ofExcept)

variable {view : ModsView} {cancelled : Nat → Bool} {lower : Char → Text} {mods : Path} {ignored : List Text}

/-! ## Containment -/

theorem mem_ancestors {ancestor path : Path} : ancestor ∈ ancestors path ↔ ancestor ≠ [] ∧ ancestor <+: path := by
  unfold ancestors
  cases path with
  | nil => simp
  | cons name path =>
    rw [List.inits_cons, List.reverse_cons, List.dropLast_concat, List.mem_reverse]
    constructor
    · intro h
      obtain ⟨rest, hrest, rfl⟩ := List.mem_map.mp h
      exact ⟨List.cons_ne_nil _ _, (List.prefix_cons_inj name).mpr ((List.mem_inits _ _).mp hrest)⟩
    · rintro ⟨hne, hbelow⟩
      rcases List.prefix_cons_iff.mp hbelow with rfl | ⟨rest, rfl, hrest⟩
      · exact absurd rfl hne
      · exact List.mem_map_of_mem ((List.mem_inits _ _).mpr hrest)

/-- One directory is another or contains it: by its path, or by its identity. -/
def Encloses (view : ModsView) (a b : Path) : Prop :=
  a <+: b ∨ ∃ ancestor ∈ ancestors b, ∃ identity, view.identity ancestor = .ok identity ∧ view.identity a = .ok identity

theorem anyIdentified_false {boundary : Nat} {directories : List Path} (h : anyIdentified view boundary directories = .ok false) :
    ∀ directory ∈ directories, ∃ identity, view.identity directory = .ok identity ∧ identity ≠ boundary := by
  induction directories with
  | nil => exact nofun
  | cons directory directories ih =>
    unfold anyIdentified at h
    cases hidentity : view.identity directory with
    | error e =>
      rw [hidentity] at h
      cases h
    | ok identity =>
      simp only [hidentity, bind, Except.bind] at h
      split_ifs at h with heq
      · cases h
      · exact List.forall_mem_cons.mpr ⟨⟨identity, hidentity, heq⟩, ih h⟩

/-- **A containment check that fails rules out containment.** -/
theorem not_encloses {a b : Path} (hne : a ≠ []) (h : containsDirectory view a b = .ok false) : ¬Encloses view a b := by
  unfold containsDirectory at h
  cases hboundary : view.identity a with
  | error e =>
    rw [hboundary] at h
    cases h
  | ok boundary =>
    simp only [hboundary, bind, Except.bind] at h
    have hapart := anyIdentified_false h
    rintro (hbelow | ⟨ancestor, hancestor, identity, hidentity, ha⟩)
    · obtain ⟨identity, hidentity, hother⟩ := hapart a (mem_ancestors.mpr ⟨hne, hbelow⟩)
      rw [hboundary] at hidentity
      exact hother (Except.ok.inj hidentity).symm
    · obtain ⟨identity', hidentity', hother⟩ := hapart ancestor hancestor
      rw [hidentity] at hidentity'
      rw [hboundary] at ha
      exact hother ((Except.ok.inj hidentity').symm.trans (Except.ok.inj ha).symm)

/-! ## One child -/

theorem orIoFailure_ok {α : Type} {x : Except String α} {a : α} (h : orIoFailure x = .ok a) : x = .ok a := by
  cases x with
  | error e => cases h
  | ok b => exact congrArg Except.ok (Except.ok.inj h)

theorem refuseOverlap_ok {child resolved : Path} {roots : List Path} (h : refuseOverlap view child resolved roots = .ok ()) :
    ∀ existing ∈ roots, containsDirectory view existing resolved = .ok false ∧
      containsDirectory view resolved existing = .ok false := by
  induction roots with
  | nil => exact nofun
  | cons existing roots ih =>
    unfold refuseOverlap at h
    cases houter : orIoFailure (containsDirectory view existing resolved) with
    | error e =>
      rw [houter] at h
      cases h
    | ok outer =>
      cases outer with
      | true =>
        rw [houter] at h
        cases h
      | false =>
        cases hinner : orIoFailure (containsDirectory view resolved existing) with
        | error e =>
          simp only [houter, hinner, bind, Except.bind] at h
          cases h
        | ok inner =>
          cases inner with
          | true =>
            simp only [houter, hinner, bind, Except.bind] at h
            cases h
          | false =>
            simp only [houter, hinner, bind, Except.bind] at h
            exact List.forall_mem_cons.mpr ⟨⟨orIoFailure_ok houter, orIoFailure_ok hinner⟩, ih h⟩

/-- What a child that becomes a Mod Root resolves to. -/
structure Admits (view : ModsView) (mods : Path) (roots : List Path) (child : Child) (resolved : Path) : Prop where
  canonical : view.canonical child.path = .ok resolved
  bounded : 1 < resolved.length
  outside : containsDirectory view resolved mods = .ok false
  apart : ∀ existing ∈ roots, containsDirectory view existing resolved = .ok false ∧
    containsDirectory view resolved existing = .ok false

theorem admitRoot_ok {roots roots' : List Path} {child : Child} (h : admitRoot view mods roots child = .ok roots') :
    ∃ resolved, Admits view mods roots child resolved ∧ roots' = roots ++ [resolved] := by
  unfold admitRoot at h
  cases hcanonical : orIoFailure (view.canonical child.path) with
  | error e =>
    rw [hcanonical] at h
    cases h
  | ok resolved =>
    simp only [hcanonical, bind, Except.bind] at h
    by_cases hlength : resolved.length ≤ 1
    · simp only [if_pos hlength, pure, Except.pure] at h
      cases h
    · rw [if_neg hlength] at h
      cases houtside : orIoFailure (containsDirectory view resolved mods) with
      | error e =>
        simp only [houtside] at h
        cases h
      | ok holdsMods =>
        cases holdsMods with
        | true =>
          simp only [houtside] at h
          cases h
        | false =>
          cases hapart : refuseOverlap view child.path resolved roots with
          | error e =>
            simp only [houtside, hapart] at h
            cases h
          | ok u =>
            simp only [houtside, hapart, pure, Except.pure] at h
            cases h
            exact ⟨resolved, ⟨orIoFailure_ok hcanonical, not_le.mp hlength, orIoFailure_ok houtside,
              refuseOverlap_ok hapart⟩, rfl⟩

/-! ## All of them -/

/-- Mod Roots that are apart from one another and from the mods directory. -/
structure Separate (view : ModsView) (mods : Path) (roots : List Path) : Prop where
  proper : ∀ root ∈ roots, root ≠ []
  apart : roots.Pairwise fun a b => ¬Encloses view a b ∧ ¬Encloses view b a
  outside : ∀ root ∈ roots, ¬Encloses view root mods

theorem Separate.nodup {roots : List Path} (h : Separate view mods roots) : roots.Nodup :=
  h.apart.imp fun {a b} hapart (heq : a = b) => hapart.1 (.inl (heq ▸ List.prefix_rfl))

/-- **A child that is admitted keeps the Mod Roots apart.** -/
theorem Admits.separate {roots : List Path} {child : Child} {resolved : Path} (h : Admits view mods roots child resolved)
    (hroots : Separate view mods roots) : Separate view mods (roots ++ [resolved]) := by
  have hne : resolved ≠ [] := by
    intro hnil
    have := h.bounded
    rw [hnil] at this
    exact absurd this (by decide)
  refine ⟨?_, ?_, ?_⟩
  · exact List.forall_mem_append.mpr ⟨hroots.proper, by simpa using hne⟩
  · refine List.pairwise_append.mpr ⟨hroots.apart, List.pairwise_singleton _ _, fun a ha b hb => ?_⟩
    obtain rfl := List.mem_singleton.mp hb
    exact ⟨not_encloses (hroots.proper a ha) (h.apart a ha).1, not_encloses hne (h.apart a ha).2⟩
  · refine List.forall_mem_append.mpr ⟨hroots.outside, fun a ha => ?_⟩
    obtain rfl := List.mem_singleton.mp ha
    exact not_encloses hne h.outside

/-- What a child's path resolves to. -/
def Resolves (view : ModsView) (child : Child) (root : Path) : Prop := view.canonical child.path = .ok root

/-- **The Mod Roots of children, one for each and apart.** -/
theorem admitted (children : List Child) {roots roots' : List Path} (hroots : Separate view mods roots)
    (h : children.foldlM (admitRoot view mods) roots = .ok roots') :
    Separate view mods roots' ∧ ∃ resolved, roots' = roots ++ resolved ∧ List.Forall₂ (Resolves view) children resolved := by
  induction children generalizing roots with
  | nil =>
    cases h
    exact ⟨hroots, [], (List.append_nil _).symm, .nil⟩
  | cons child children ih =>
    rw [List.foldlM_cons] at h
    cases hchild : admitRoot view mods roots child with
    | error e =>
      rw [hchild] at h
      cases h
    | ok next =>
      rw [hchild] at h
      obtain ⟨root, hadmits, rfl⟩ := admitRoot_ok hchild
      obtain ⟨hseparate, resolved, rfl, hresolved⟩ := ih (hadmits.separate hroots) h
      exact ⟨hseparate, root :: resolved, (List.append_cons _ _ _).symm, .cons hadmits.canonical hresolved⟩

/-! ## The loops -/

/-- A listed entry that is a child directory. -/
def isChild (view : ModsView) (root : Path) (name : OsStr) : Bool :=
  !isStagingName name && decide (view.metadata (root ++ [name]) = .ok (some true))

/-- Listed names whose lookups all answer. -/
def Listed (view : ModsView) (root : Path) (entries : List (Except String OsStr)) (names : List OsStr) : Prop :=
  entries = names.map .ok ∧ ∀ name ∈ names, isStagingName name = false → ∃ found, view.metadata (root ++ [name]) = .ok found

theorem spec_isCancelled (hcalm : ∀ n, cancelled n = false) {ε : Type} {s : Selecting} {Q : Bool → Selecting → Prop}
    {E : ε → Selecting → Prop} {C : Selecting → Prop} (h : Q false { s with polls := s.polls + 1 }) :
    Spec (isCancelled cancelled) s Q E C := by
  unfold Spec isCancelled
  rw [hcalm]
  exact h

theorem Listed.cons {root : Path} {name : OsStr} {entries : List (Except String OsStr)} {names : List OsStr}
    (hname : isStagingName name = false → ∃ found, view.metadata (root ++ [name]) = .ok found)
    (h : Listed view root entries names) : Listed view root (.ok name :: entries) (name :: names) :=
  ⟨congrArg (Except.ok name :: ·) h.1, List.forall_mem_cons.mpr ⟨hname, h.2⟩⟩

theorem Listed.of_cons {root : Path} {name : OsStr} {entries : List (Except String OsStr)} {names : List OsStr}
    (h : Listed view root (.ok name :: entries) names) :
    ∃ rest, names = name :: rest ∧ Listed view root entries rest ∧
      (isStagingName name = false → ∃ found, view.metadata (root ++ [name]) = .ok found) := by
  obtain ⟨hentries, hfound⟩ := h
  cases names with
  | nil => cases hentries
  | cons name' rest =>
    obtain ⟨hname, hrest⟩ := List.cons.inj hentries
    obtain rfl := Except.ok.inj hname
    exact ⟨rest, rfl, ⟨hrest, fun a ha => hfound a (List.mem_cons_of_mem _ ha)⟩, hfound _ List.mem_cons_self⟩

/-- **The first loop**: the child directories of a listing, in its order. -/
theorem spec_listChildren (hcalm : ∀ n, cancelled n = false) (root : Path) (entries : List (Except String OsStr))
    (children : List Child) (s : Selecting) :
    Spec (listChildren view cancelled lower root entries children) s
      (fun found _ => ∃ names, Listed view root entries names ∧
        found = some (children ++ (names.filter (isChild view root)).map (.of lower root)))
      (fun _ _ => ∀ names, ¬Listed view root entries names) fun _ => False := by
  induction entries generalizing children s with
  | nil => exact ⟨[], ⟨rfl, nofun⟩, congrArg some (List.append_nil _).symm⟩
  | cons entry entries ih =>
    refine spec_bind.mpr (spec_isCancelled hcalm (spec_bind.mpr (spec_ofExcept.mpr ⟨fun name hname => ?_, fun e he => ?_⟩)))
    · obtain rfl := orIoFailure_ok hname
      have hrest : ∀ (added : List Child) (s' : Selecting),
          added = ([name].filter (isChild view root)).map (.of lower root) →
          (isStagingName name = false → ∃ found, view.metadata (root ++ [name]) = .ok found) →
          Spec (listChildren view cancelled lower root entries (children ++ added)) s'
            (fun found _ => ∃ names, Listed view root (.ok name :: entries) names ∧
              found = some (children ++ (names.filter (isChild view root)).map (.of lower root)))
            (fun _ _ => ∀ names, ¬Listed view root (.ok name :: entries) names) fun _ => False := by
        rintro added s' rfl hfound
        refine (ih _ s').mono (fun found _ h => ?_) (fun e _ h names hlisted => ?_) fun _ h => h
        · obtain ⟨names, hlisted, rfl⟩ := h
          refine ⟨name :: names, hlisted.cons hfound, ?_⟩
          rw [List.append_assoc, ← List.map_append, ← List.filter_append, List.singleton_append]
        · obtain ⟨rest, -, hrest, -⟩ := hlisted.of_cons
          exact h rest hrest
      cases hstaging : isStagingName name with
      | true =>
        have := hrest [] { s with polls := s.polls + 1 } (by simp [isChild, hstaging]) (by simp [hstaging])
        rwa [List.append_nil] at this
      | false =>
        refine spec_bind.mpr (spec_ofExcept.mpr ⟨fun found hfound => ?_, fun e he names hlisted => ?_⟩)
        · have hfound := orIoFailure_ok hfound
          by_cases hdirectory : found = some true
          · rw [if_pos hdirectory]
            exact hrest _ _ (by simp [isChild, hstaging, hfound, hdirectory]) fun _ => ⟨found, hfound⟩
          · rw [if_neg hdirectory]
            have := hrest [] { s with polls := s.polls + 1 } (by simp [isChild, hfound, hdirectory]) fun _ => ⟨found, hfound⟩
            rwa [List.append_nil] at this
        · obtain ⟨rest, -, -, hname⟩ := hlisted.of_cons
          obtain ⟨found, hfound⟩ := hname hstaging
          rw [hfound] at he
          cases he
    · intro names hlisted
      cases entry with
      | ok name => cases he
      | error detail =>
        obtain ⟨hentries, -⟩ := hlisted
        cases names <;> cases hentries

/-- **The second loop**: the Mod Roots of the children that no exclusion applies to. -/
theorem spec_resolveChildren (hcalm : ∀ n, cancelled n = false) (children : List Child) (roots : List Path) (s : Selecting) :
    Spec (resolveChildren view cancelled mods ignored children roots) s
      (fun roots' _ => (children.filter fun child => (modExclusion child ignored).isNone).foldlM (admitRoot view mods) roots =
        .ok roots')
      (fun e _ => (children.filter fun child => (modExclusion child ignored).isNone).foldlM (admitRoot view mods) roots =
        .error e) fun _ => False := by
  induction children generalizing roots s with
  | nil => rfl
  | cons child children ih =>
    refine spec_bind.mpr (spec_isCancelled hcalm ?_)
    rw [if_neg Bool.false_ne_true]
    cases hexcluded : modExclusion child ignored with
    | some diagnostic =>
      rw [List.filter_cons_of_neg (by simp [hexcluded])]
      exact spec_bind.mpr (Prog.spec_modify.mpr (ih roots _))
    | none =>
      rw [List.filter_cons_of_pos (by simp [hexcluded]), List.foldlM_cons]
      refine spec_bind.mpr (spec_ofExcept.mpr ⟨fun next hnext => ?_, fun e he => ?_⟩)
      · rw [hnext]
        exact ih next _
      · rw [he]
        rfl

end Cao.Selection
