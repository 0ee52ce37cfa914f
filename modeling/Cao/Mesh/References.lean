import Cao.Asset.Execute
import Cao.Ini.Encoding

/-!
# Mesh Reference Maintenance

How the TGA names that a Mesh references become DDS names (`mesh_references.rs`), in a Dry Run and in an Apply run
(`maintain_mesh_references` of `backend.rs`).

* `containsTga`, `replaceTga`: `.tga`, in any ASCII case and anywhere, becomes `.dds`;
* `Nif`: the strings of a Mesh, and the references that its shapes list, which may share them;
* `hasReferencedTgaTexture`, `replaceReferencedTgaTextureNames`: the Dry Run's predicate, and Apply's rewrite;
* **`containsTga_replaceTga`**: a rewritten name holds no `.tga`;
* `Passed`, **`passed_replaceReferenced`**: the rewrite of a Mesh, string by string;
* **`maintainMeshReferences_agrees`**: a Dry Run reports what Apply changes, and Apply leaves nothing to rewrite.
-/

namespace Cao.Mesh

open Asset (OperationResult)

/-! ## Names -/

/-- `TGA_EXTENSION`. -/
def tgaExtension : Bytes := [46, 116, 103, 97]

/-- `DDS_EXTENSION`. -/
def ddsExtension : Bytes := [46, 100, 100, 115]

/-- `matches_tga_at`. -/
def matchesTgaAt (value : Bytes) (position : Nat) : Bool :=
  eqIgnoreAsciiCase ((value.drop position).take 4) tgaExtension

/-- `contains_tga`. -/
def containsTga (value : Bytes) : Bool := (List.range value.length).any (matchesTgaAt value)

/-- `replace_tga`: a window of four bytes that holds `.tga` is replaced and passed, and any other moves one byte on. -/
def replaceTga : Bytes → Bytes
  | a :: b :: c :: d :: rest =>
    if matchesTgaAt (a :: b :: c :: d :: rest) 0 then ddsExtension ++ replaceTga rest
    else a :: replaceTga (b :: c :: d :: rest)
  | short => short

/-- Every occurrence, in any case. -/
example : replaceTga (bytes "a.TGA.tGab".toList) = bytes "a.dds.ddsb".toList := by decide

/-! ## The references of a Mesh -/

/-- A loaded Mesh: the strings of its texture sets, and what `texture_paths` lists of them, shape by shape. -/
@[ext]
structure Nif where
  strings : List Bytes
  references : List Nat
  inRange : ∀ slot ∈ references, slot < strings.length

namespace Nif

/-- `TexturePaths::get`. -/
def get (nif : Nif) (index : Nat) : Option Bytes := nif.references[index]?.bind fun slot => nif.strings[slot]?

/-- `TexturePaths::set`: every other index that refers to the same string sees the new value. -/
def set (nif : Nif) (index : Nat) (path : Bytes) : Nif where
  strings := match nif.references[index]? with
    | some slot => nif.strings.set slot path
    | none => nif.strings
  references := nif.references
  inRange slot hmem := by
    split <;> simpa using nif.inRange slot hmem

theorem strings_set {nif : Nif} {index slot : Nat} {path : Bytes} (h : nif.references[index]? = some slot) :
    (nif.set index path).strings = nif.strings.set slot path := by
  show (match nif.references[index]? with
    | some slot => nif.strings.set slot path
    | none => nif.strings) = _
  rw [h]

end Nif

section Eligible

variable (isEligible : Bytes → Bool)

/-- `has_referenced_tga_texture`. -/
def hasReferencedTgaTexture (nif : Nif) : Bool :=
  (List.range nif.references.length).any fun index =>
    let reference := (nif.get index).getD []
    containsTga reference && isEligible reference

/-- One index of `replace_referenced_tga_texture_names`: whether the Mesh changed, and the Mesh. -/
def replaceAt (state : Bool × Nif) (index : Nat) : Bool × Nif :=
  let reference := (state.2.get index).getD []
  if !containsTga reference || !isEligible reference then state else (true, state.2.set index (replaceTga reference))

/-- `replace_referenced_tga_texture_names`. -/
def replaceReferencedTgaTextureNames (nif : Nif) : Bool × Nif :=
  (List.range nif.references.length).foldl (replaceAt isEligible) (false, nif)

end Eligible

/-- `maintain_mesh_references`, of the loaded Mesh. -/
def maintainMeshReferences (dryRun : Bool) (withholds : Bytes → Bool) (nif : Nif) : OperationResult × Nif :=
  let isEligible := fun reference => !withholds reference
  if dryRun then (if hasReferencedTgaTexture isEligible nif then .changed else .unchanged, nif)
  else
    let (changed, nif) := replaceReferencedTgaTextureNames isEligible nif
    (if changed then .changed else .unchanged, nif)

/-! ## What replacing does to a name -/

section Names

variable {value rest : Bytes} {a b c d x : UInt8}

theorem containsTga_cons (a : UInt8) (value : Bytes) :
    containsTga (a :: value) = (matchesTgaAt (a :: value) 0 || containsTga value) := by
  unfold containsTga
  rw [List.length_cons, List.range_succ_eq_map, List.any_cons, List.any_map]
  rfl

theorem lower_eq_dot (x : UInt8) : (if 0x41 ≤ x ∧ x ≤ 0x5A then x + 0x20 else x) = 46 → x = 46 := by
  intro h
  split_ifs at h with hupper
  · have hsum := congrArg UInt8.toNat h
    rw [UInt8.le_iff_toNat_le, UInt8.le_iff_toNat_le] at hupper
    simp only [UInt8.toNat_add, UInt8.reduceToNat] at hsum hupper
    omega
  · exact h

/-- A match begins with a dot. -/
theorem head_of_matchesTgaAt (h : matchesTgaAt (x :: value) 0 = true) : x = 46 := by
  unfold matchesTgaAt eqIgnoreAsciiCase tgaExtension at h
  simp only [List.drop_zero, List.take_succ_cons, List.map_cons, beq_iff_eq, List.cons.injEq] at h
  exact lower_eq_dot x h.1

/-- A name holds no match where there is no dot. -/
theorem matchesTgaAt_eq_false (hx : x ≠ 46) : matchesTgaAt (x :: value) 0 = false := by
  rw [Bool.eq_false_iff]
  exact fun h => hx (head_of_matchesTgaAt h)

/-- What follows the dot of a match is no dot. -/
theorem noDot_of_matchesTgaAt (h : matchesTgaAt (x :: value) 0 = true) : ∀ y ∈ value.take 3, y ≠ 46 := by
  unfold matchesTgaAt eqIgnoreAsciiCase tgaExtension at h
  simp only [List.drop_zero, List.take_succ_cons, List.map_cons, beq_iff_eq, List.cons.injEq] at h
  have hmap := h.2
  rintro y hmem rfl
  have hlower := List.mem_map_of_mem (f := fun x : UInt8 => if 65 ≤ x ∧ x ≤ 90 then x + 32 else x) hmem
  rw [hmap] at hlower
  revert hlower
  decide

/-- A name too short for a window is left. -/
theorem replaceTga_short (h : ∀ a b c d rest, value = a :: b :: c :: d :: rest → False) : replaceTga value = value := by
  match value, h with
  | [], _ => rfl
  | [_], _ => rfl
  | [_, _], _ => rfl
  | [_, _, _], _ => rfl
  | a :: b :: c :: d :: rest, h => exact (h a b c d rest rfl).elim

theorem length_lt_of_short (h : ∀ a b c d rest, value = a :: b :: c :: d :: rest → False) : value.length < 4 := by
  match value, h with
  | [], _ => simp
  | [_], _ => simp
  | [_, _], _ => simp
  | [_, _, _], _ => simp
  | a :: b :: c :: d :: rest, h => exact (h a b c d rest rfl).elim

/-- A match takes four bytes. -/
theorem length_of_matchesTgaAt {position : Nat} (h : matchesTgaAt value position = true) : position + 4 ≤ value.length := by
  unfold matchesTgaAt eqIgnoreAsciiCase tgaExtension at h
  have hlength := congrArg List.length (beq_iff_eq.mp h)
  simp only [List.length_map, List.length_take, List.length_drop, List.length_cons, List.length_nil] at hlength
  omega

/-- A rewritten name is as long as before. -/
@[simp] theorem replaceTga_length (value : Bytes) : (replaceTga value).length = value.length := by
  induction value using replaceTga.induct with
  | case1 a b c d rest hmatch ih =>
    rw [replaceTga, if_pos hmatch, List.length_append, ih]
    simp only [ddsExtension, List.length_cons, List.length_nil]
    omega
  | case2 a b c d rest hmatch ih =>
    rw [replaceTga, if_neg hmatch, List.length_cons, ih]
    rfl
  | case3 short hshort => rw [replaceTga_short hshort]

/-- Where a rewritten name has no dot, it is as it was. -/
theorem take_replaceTga (value : Bytes) (count : Nat) (h : ∀ x ∈ (replaceTga value).take count, x ≠ 46) :
    (replaceTga value).take count = value.take count := by
  induction value using replaceTga.induct generalizing count with
  | case1 a b c d rest hmatch ih =>
    cases count with
    | zero => rfl
    | succ count =>
      rw [replaceTga, if_pos hmatch] at h
      exact absurd rfl (h 46 (by simp [ddsExtension]))
  | case2 a b c d rest hmatch ih =>
    cases count with
    | zero => rfl
    | succ count =>
      rw [replaceTga, if_neg hmatch] at h ⊢
      rw [List.take_succ_cons, List.take_succ_cons, ih count fun x hmem => h x (by simp [hmem])]
  | case3 short hshort => rw [replaceTga_short hshort]

/-- **A rewritten name holds no `.tga`.** -/
theorem containsTga_replaceTga (value : Bytes) : containsTga (replaceTga value) = false := by
  induction value using replaceTga.induct with
  | case1 a b c d rest hmatch ih =>
    have hdds : matchesTgaAt (46 :: 100 :: 100 :: 115 :: replaceTga rest) 0 = false := rfl
    rw [replaceTga, if_pos hmatch]
    show containsTga (46 :: 100 :: 100 :: 115 :: replaceTga rest) = false
    rw [containsTga_cons, containsTga_cons, containsTga_cons, containsTga_cons, hdds, ih,
      matchesTgaAt_eq_false (by decide), matchesTgaAt_eq_false (by decide), matchesTgaAt_eq_false (by decide)]
    rfl
  | case2 a b c d rest hmatch ih =>
    rw [replaceTga, if_neg hmatch, containsTga_cons, ih, Bool.or_false, Bool.eq_false_iff]
    -- a match here would be one of the name as it was
    intro hnew
    have htake := take_replaceTga (b :: c :: d :: rest) 3 (noDot_of_matchesTgaAt hnew)
    refine hmatch ?_
    unfold matchesTgaAt at hnew ⊢
    rw [List.drop_zero, List.take_succ_cons, htake] at hnew
    exact hnew
  | case3 short hshort =>
    rw [replaceTga_short hshort, Bool.eq_false_iff]
    intro hmatch
    unfold containsTga at hmatch
    obtain ⟨position, -, hposition⟩ := List.any_eq_true.mp hmatch
    have := length_of_matchesTgaAt hposition
    have := length_lt_of_short hshort
    omega

end Names

/-! ## What replacing does to a Mesh -/

section Rewriting

variable (isEligible : Bytes → Bool)

/-- Whether a name is rewritten. -/
def isRewritable (reference : Bytes) : Bool := containsTga reference && isEligible reference

/-- A string, after the references to it were rewritten. -/
def rewrite (reference : Bytes) : Bytes := if isRewritable isEligible reference then replaceTga reference else reference

variable {isEligible}

/-- A string is rewritten once. -/
theorem not_isRewritable_rewrite (reference : Bytes) : isRewritable isEligible (rewrite isEligible reference) = false := by
  unfold rewrite
  split_ifs with h
  · unfold isRewritable
    rw [containsTga_replaceTga, Bool.false_and]
  · simpa using h

theorem rewrite_length (reference : Bytes) : (rewrite isEligible reference).length = reference.length := by
  unfold rewrite
  split_ifs
  · exact replaceTga_length reference
  · rfl

/-- A rewritten string is another. -/
theorem rewrite_eq_self_iff (reference : Bytes) :
    rewrite isEligible reference = reference ↔ isRewritable isEligible reference = false := by
  constructor
  · intro h
    rw [← h]
    exact not_isRewritable_rewrite reference
  · intro h
    unfold rewrite
    rw [h]
    rfl

/-- What the indices that were passed make of a Mesh: the strings that they refer to are rewritten, each once. -/
structure Passed (isEligible : Bytes → Bool) (before : Nif) (slots : List Nat) (state : Bool × Nif) : Prop where
  references : state.2.references = before.references
  length : state.2.strings.length = before.strings.length
  strings : ∀ slot, state.2.strings[slot]? =
    if slot ∈ slots then before.strings[slot]?.map (rewrite isEligible) else before.strings[slot]?
  changed : state.1 = true ↔ ∃ slot ∈ slots, ∃ reference, before.strings[slot]? = some reference ∧
    isRewritable isEligible reference = true

/-- **One index passes the string that it refers to**, whether or not another index did before. -/
theorem Passed.replaceAt {before : Nif} {slots : List Nat} {state : Bool × Nif} {index slot : Nat}
    (h : Passed isEligible before slots state) (hslot : before.references[index]? = some slot) :
    Passed isEligible before (slots ++ [slot]) (replaceAt isEligible state index) := by
  have hlt := before.inRange slot (List.mem_of_getElem? hslot)
  obtain ⟨reference, hreference⟩ : ∃ reference, before.strings[slot]? = some reference :=
    ⟨_, List.getElem?_eq_getElem hlt⟩
  have hlive : state.2.get index = some (if slot ∈ slots then rewrite isEligible reference else reference) := by
    unfold Nif.get
    rw [h.references, hslot, Option.bind_some, h.strings, hreference]
    split_ifs <;> rfl
  have hif : ∀ r, (!containsTga r || !isEligible r) = !isRewritable isEligible r := fun r => (Bool.not_and _ _).symm
  unfold Mesh.replaceAt
  rw [hlive, Option.getD_some]
  dsimp only
  rw [hif]
  by_cases hmem : slot ∈ slots
  · -- another index did: nothing is left to rewrite
    have hsame : ∀ other, other ∈ slots ++ [slot] ↔ other ∈ slots := fun other => by
      rw [List.mem_append, List.mem_singleton]
      exact or_iff_left_of_imp fun heq => heq ▸ hmem
    rw [if_pos hmem, not_isRewritable_rewrite, Bool.not_false, if_pos rfl]
    refine ⟨h.references, h.length, fun other => ?_, h.changed.trans ?_⟩
    · simp only [hsame]
      exact h.strings other
    · simp only [hsame]
  · rw [if_neg hmem]
    by_cases hrewritable : isRewritable isEligible reference = true
    · rw [hrewritable, Bool.not_true, if_neg Bool.false_ne_true]
      have hset := @Nif.strings_set state.2 index slot (replaceTga reference) ((congrArg (·[index]?) h.references).trans hslot)
      refine ⟨h.references, ?_, fun other => ?_, iff_of_true rfl ⟨slot, by simp, reference, hreference, hrewritable⟩⟩
      · show (state.2.set index (replaceTga reference)).strings.length = _
        rw [hset, List.length_set, h.length]
      show (state.2.set index (replaceTga reference)).strings[other]? = _
      rw [hset, List.getElem?_set, h.length]
      by_cases hother : slot = other
      · subst hother
        rw [if_pos rfl, if_pos hlt, if_pos (by simp), hreference, Option.map_some, rewrite, if_pos hrewritable]
      · rw [if_neg hother, h.strings]
        simp [Ne.symm hother]
    · rw [Bool.not_eq_true] at hrewritable
      rw [hrewritable, Bool.not_false, if_pos rfl]
      refine ⟨h.references, h.length, fun other => ?_, h.changed.trans ⟨?_, ?_⟩⟩
      · rw [h.strings]
        by_cases hother : other = slot
        · subst hother
          rw [if_neg hmem, if_pos (by simp), hreference, Option.map_some, (rewrite_eq_self_iff reference).mpr hrewritable]
        · simp [hother]
      · rintro ⟨other, hother, hchanged⟩
        exact ⟨other, List.mem_append_left _ hother, hchanged⟩
      · rintro ⟨other, hother, name, hname, hchanged⟩
        rcases List.mem_append.mp hother with hother | hother
        · exact ⟨other, hother, name, hname, hchanged⟩
        · rw [List.mem_singleton.mp hother, hreference] at hname
          cases hname
          rw [hrewritable] at hchanged
          cases hchanged

/-- **All the references are passed.** -/
theorem passed_replaceReferenced (nif : Nif) :
    Passed isEligible nif nif.references (replaceReferencedTgaTextureNames isEligible nif) := by
  have h : ∀ count ≤ nif.references.length, Passed isEligible nif (nif.references.take count)
      ((List.range count).foldl (replaceAt isEligible) (false, nif)) := by
    intro count
    induction count with
    | zero => exact fun _ => ⟨rfl, rfl, by simp, by simp⟩
    | succ count ih =>
      intro hle
      rw [List.range_succ, List.foldl_concat, List.take_add_one, List.getElem?_eq_getElem (by omega)]
      exact (ih (by omega)).replaceAt (List.getElem?_eq_getElem (by omega))
  have hall := h nif.references.length (le_refl _)
  rwa [List.take_length] at hall

/-- The Dry Run's predicate. -/
theorem hasReferencedTgaTexture_iff (nif : Nif) : hasReferencedTgaTexture isEligible nif = true ↔
    ∃ slot ∈ nif.references, ∃ reference, nif.strings[slot]? = some reference ∧ isRewritable isEligible reference = true := by
  unfold hasReferencedTgaTexture
  rw [List.any_eq_true]
  constructor
  · rintro ⟨index, hindex, hrewritable⟩
    have hlt := List.mem_range.mp hindex
    have hslot : nif.references[index]? = some nif.references[index] := List.getElem?_eq_getElem hlt
    have hmem := List.getElem_mem hlt
    obtain ⟨reference, hreference⟩ : ∃ reference, nif.strings[nif.references[index]]? = some reference :=
      ⟨_, List.getElem?_eq_getElem (nif.inRange _ hmem)⟩
    have hget : nif.get index = some reference := by
      unfold Nif.get
      rw [hslot, Option.bind_some, hreference]
    rw [hget] at hrewritable
    exact ⟨_, hmem, reference, hreference, hrewritable⟩
  · rintro ⟨slot, hmem, reference, hreference, hrewritable⟩
    obtain ⟨index, hlt, rfl⟩ := List.getElem_of_mem hmem
    refine ⟨index, List.mem_range.mpr hlt, ?_⟩
    have hget : nif.get index = some reference := by
      unfold Nif.get
      rw [List.getElem?_eq_getElem hlt, Option.bind_some, hreference]
    rw [hget]
    exact hrewritable

end Rewriting

section Maintained

variable {withholds : Bytes → Bool} {nif : Nif}

theorem maintain_dryRun : maintainMeshReferences true withholds nif =
    (if hasReferencedTgaTexture (fun reference => !withholds reference) nif then .changed else .unchanged, nif) := rfl

theorem maintain_apply : maintainMeshReferences false withholds nif =
    (if (replaceReferencedTgaTextureNames (fun reference => !withholds reference) nif).1 then .changed else .unchanged,
      (replaceReferencedTgaTextureNames (fun reference => !withholds reference) nif).2) := rfl

/-- What a Mesh is left with. -/
theorem rewritten_not_rewritable {isEligible : Bytes → Bool} {slot : Nat} {reference : Bytes} (hmem : slot ∈ nif.references)
    (h : (replaceReferencedTgaTextureNames isEligible nif).2.strings[slot]? = some reference) :
    isRewritable isEligible reference = false := by
  rw [(passed_replaceReferenced nif).strings, if_pos hmem] at h
  obtain ⟨before, -, rfl⟩ := Option.map_eq_some_iff.mp h
  exact not_isRewritable_rewrite before

/-- A Mesh whose references need no rewriting. -/
theorem replaceReferenced_of_none {isEligible : Bytes → Bool}
    (h : ∀ slot ∈ nif.references, ∀ reference, nif.strings[slot]? = some reference → isRewritable isEligible reference = false) :
    replaceReferencedTgaTextureNames isEligible nif = (false, nif) := by
  have hpassed := @passed_replaceReferenced isEligible nif
  have hchanged : (replaceReferencedTgaTextureNames isEligible nif).1 = false := by
    rw [Bool.eq_false_iff]
    intro hchanged
    obtain ⟨slot, hmem, reference, hreference, hrewritable⟩ := hpassed.changed.mp hchanged
    rw [h slot hmem reference hreference] at hrewritable
    cases hrewritable
  have hstrings : (replaceReferencedTgaTextureNames isEligible nif).2.strings = nif.strings := by
    refine List.ext_getElem? fun slot => ?_
    rw [hpassed.strings]
    split_ifs with hmem
    · cases hreference : nif.strings[slot]? with
      | none => rfl
      | some reference => rw [Option.map_some, (rewrite_eq_self_iff reference).mpr (h slot hmem reference hreference)]
    · rfl
  refine Prod.ext hchanged ?_
  have hreferences := hpassed.references
  revert hstrings hreferences
  generalize (replaceReferencedTgaTextureNames isEligible nif).2 = after
  cases after
  cases nif
  rintro rfl rfl
  rfl

end Maintained

/-- **A Dry Run reports what Apply changes**, and leaves the Mesh; Apply rewrites the references that are not withheld,
each as long as before, keeps every other string, and leaves nothing to rewrite. -/
theorem maintainMeshReferences_agrees (withholds : Bytes → Bool) (nif : Nif) :
    let dryRun := maintainMeshReferences true withholds nif
    let apply := maintainMeshReferences false withholds nif
    (dryRun.1 = .changed ↔ apply.1 = .changed) ∧ dryRun.2 = nif ∧
      (∀ index reference, apply.2.get index = some reference → ¬ (containsTga reference = true ∧ withholds reference = false)) ∧
      apply.2.references = nif.references ∧
      (∀ slot : Nat, apply.2.strings[slot]? = if slot ∈ nif.references
        then nif.strings[slot]?.map fun reference =>
          if containsTga reference && !withholds reference then replaceTga reference else reference
        else nif.strings[slot]?) ∧
      (∀ slot : Nat, apply.2.strings[slot]?.map List.length = nif.strings[slot]?.map List.length) ∧
      maintainMeshReferences false withholds apply.2 = (.unchanged, apply.2) := by
  intro dryRun apply
  have hpassed := @passed_replaceReferenced (fun reference => !withholds reference) nif
  have hif : ∀ holds : Bool, ((if holds then OperationResult.changed else .unchanged) = .changed) ↔ holds = true := by decide
  refine ⟨?_, rfl, fun index reference hget => ?_, hpassed.references, hpassed.strings, fun slot => ?_, ?_⟩
  · rw [show dryRun.1 = _ from congrArg Prod.fst maintain_dryRun, show apply.1 = _ from congrArg Prod.fst maintain_apply,
      hif, hif, hpassed.changed, hasReferencedTgaTexture_iff]
  · obtain ⟨slot, hslot, hreference⟩ := Option.bind_eq_some_iff.mp hget
    have hmem : slot ∈ nif.references := hpassed.references ▸ List.mem_of_getElem? hslot
    have hnot := rewritten_not_rewritable hmem hreference
    rintro ⟨htga, hkept⟩
    simp [isRewritable, htga, hkept] at hnot
  · have hslot := hpassed.strings slot
    show Option.map List.length (replaceReferencedTgaTextureNames _ nif).2.strings[slot]? = _
    rw [hslot]
    split_ifs
    · rw [Option.map_map]
      refine Option.map_congr fun reference _ => ?_
      exact rewrite_length reference
    · rfl
  · have hnone := @replaceReferenced_of_none apply.2 (fun reference => !withholds reference)
      fun slot hmem reference hreference => rewritten_not_rewritable (hpassed.references ▸ hmem) hreference
    rw [maintain_apply, hnone]
    rfl

end Cao.Mesh
