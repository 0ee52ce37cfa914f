import Cao.Run.Attempt
import Cao.Lib.Decimal
import Mathlib.Data.List.MinMax

/-!
# The files of an Asset attempt

The tree outside staging with the identity of each file object, which a pin compares, and what an attempt
does to it: a staged file takes a destination's name, a pinned source is deleted, an Asset is renamed.

* `Entry`, `AssetTree`: what stands at a name, a file with its `FileIdentity`;
* `fingerprint`: FNV-1a, with the byte count;
* `putStaged`, `deleteEntry`, `renameAsset`: the three changes;
* **`has_putStaged`**, **`has_deleteEntry`**, **`has_renameAsset`**: what each leaves;
* **`occupied_lt`**: how many quarantine names can be taken.
-/

namespace Cao.Asset

/-! ## The tree -/

/-- What stands at a name that is no directory. -/
inductive Entry
  /-- A file object, its bytes and its number of hard links. -/
  | file (identity : Nat) (data : Bytes) (links : Nat)
  /-- A symbolic link, a junction or any other reparse point. -/
  | link
  /-- Neither a directory nor a file. -/
  | other
  deriving DecidableEq, Repr

/-- The tree outside staging. -/
abbrev AssetTree {K : Type} (volume : Volume K) := PathTree volume.toNaming Entry

/-- One more than the identity of what stands at a name. -/
def Entry.bound : Node Entry → Nat
  | .leaf (.file identity _ _) => identity + 1
  | _ => 0

/-- `fingerprint`: the byte count and FNV-1a. -/
def fingerprint (data : Bytes) : Nat × UInt64 :=
  (data.length, data.foldl (fun hash byte => (hash ^^^ byte.toUInt64) * 1099511628211) 14695981039346656037)

/-- The fingerprint of a file that is not empty. -/
def usableFingerprint (data : Bytes) : Option (Nat × UInt64) :=
  if (fingerprint data).1 ≠ 0 then some (fingerprint data) else none

variable {K : Type} {V : Volume K} {tree tree' : AssetTree V} {p q : Path} {entry : Entry}

/-- An identity that no file of the tree has: a staged file is an object of its own. -/
def freshIdentity (tree : AssetTree V) : Nat := (tree.entries.map fun e => Entry.bound e.2).foldr max 0

/-- **A staged file's identity is no other file's.** -/
theorem lt_freshIdentity {identity links : Nat} {data : Bytes} (h : tree.Has p (.leaf (.file identity data links))) :
    identity < freshIdentity tree := by
  have hmem : identity + 1 ∈ tree.entries.map fun e => Entry.bound e.2 := List.mem_map.mpr ⟨_, h, rfl⟩
  exact List.le_max_of_le' 0 hmem (Nat.le_refl _)

variable [DecidableEq K]

/-- The entry a path names, with its spelling. -/
def leafAt (tree : AssetTree V) (path : Path) : Option (Path × Entry) :=
  match tree.find path with
  | some (q, .leaf entry) => some (q, entry)
  | _ => none

/-- `rename_by_handle` of a staged file over a destination: an entry there is replaced, but no directory. -/
def putStaged (data : Bytes) (destination : Path) (tree : AssetTree V) : Option (AssetTree V) :=
  let staged := Node.leaf (Entry.file (freshIdentity tree) data 1)
  match tree.find destination with
  | some (q, .leaf _) => ((tree.erase q).bind fun tree => tree.create destination staged).map (·.2)
  | some (_, .dir) => none
  | none => (tree.create destination staged).map (·.2)

/-- `delete_by_handle` of an opened entry. -/
def deleteEntry (q : Path) (tree : AssetTree V) : Option (AssetTree V) := tree.erase q

/-- `rename_by_handle` of an opened entry to a free name. -/
def renameAsset (q : Path) (entry : Entry) (candidate : Path) (tree : AssetTree V) : Option (AssetTree V) :=
  ((tree.erase q).bind fun tree => tree.create candidate (.leaf entry)).map (·.2)

/-! ## What the changes leave -/

theorem leafAt_eq_some (hp : p ≠ []) : leafAt tree p = some (q, entry) ↔
    tree.Has q (.leaf entry) ∧ q.map V.fold = p.map V.fold := by
  unfold leafAt
  rw [← PathTree.find_eq_some hp]
  cases hf : tree.find p with
  | none => simp
  | some e =>
    obtain ⟨r, _ | b⟩ := e
    · simp
    · simp

theorem leafAt_ne_nil (h : leafAt tree p = some (q, entry)) : p ≠ [] := by
  rintro rfl
  simp [leafAt] at h

theorem has_of_leafAt (h : leafAt tree p = some (q, entry)) : tree.Has q (.leaf entry) :=
  ((leafAt_eq_some (leafAt_ne_nil h)).mp h).1

theorem fold_of_leafAt (h : leafAt tree p = some (q, entry)) : q.map V.fold = p.map V.fold :=
  ((leafAt_eq_some (leafAt_ne_nil h)).mp h).2

/-- **A staged file takes one name**, and what stood there is gone. -/
theorem has_putStaged {data : Bytes} {destination : Path} (h : putStaged data destination tree = some tree') :
    ∃ q, q.map V.fold = destination.map V.fold ∧ ∀ p n, tree'.Has p n ↔
      p = q ∧ n = .leaf (.file (freshIdentity tree) data 1) ∨
        tree.Has p n ∧ p.map V.fold ≠ destination.map V.fold := by
  unfold putStaged at h
  split at h
  · next r entry hf =>
    obtain ⟨⟨q, _⟩, hbind, rfl⟩ := Option.map_eq_some_iff.mp h
    obtain ⟨erased, herase, hcreate⟩ := Option.bind_eq_some_iff.mp hbind
    obtain ⟨hhas, -, -, hfold, hfree, -⟩ := PathTree.create_eq_some hcreate
    refine ⟨q, hfold, fun p n => ?_⟩
    rw [hhas, or_comm]
    refine or_congr_right ?_
    rw [PathTree.has_erase herase]
    refine and_congr_right fun hp => not_congr ⟨?_, fun he => ?_⟩
    · rintro rfl
      exact PathTree.fold_of_find hf
    · by_cases hd : destination = []
      · subst hd
        exact absurd (List.map_eq_nil_iff.mp he) hp.ne_nil
      · exact (hp.unique ((PathTree.find_eq_some hd).mp hf).1 (he.trans (PathTree.fold_of_find hf).symm)).1
  · cases h
  · next hf =>
    obtain ⟨⟨q, _⟩, hcreate, rfl⟩ := Option.map_eq_some_iff.mp h
    obtain ⟨hhas, -, -, hfold, hfree, -⟩ := PathTree.create_eq_some hcreate
    refine ⟨q, hfold, fun p n => ?_⟩
    rw [hhas, or_comm]
    refine or_congr_right (iff_self_and.mpr fun hp he => ?_)
    have hd : destination ≠ [] := by
      rintro rfl
      exact hp.ne_nil (List.map_eq_nil_iff.mp he)
    exact (PathTree.find_eq_none hd).mp hf _ _ hp he

omit [DecidableEq K] in
/-- **A deletion takes one entry.** -/
theorem has_deleteEntry (h : deleteEntry q tree = some tree') {n : Node Entry} :
    tree'.Has p n ↔ tree.Has p n ∧ p ≠ q := PathTree.has_erase h

/-- **A rename moves one entry.** -/
theorem has_renameAsset {candidate : Path} (h : renameAsset q entry candidate tree = some tree') :
    ∃ r, r.map V.fold = candidate.map V.fold ∧ ∀ p n, tree'.Has p n ↔
      p = r ∧ n = .leaf entry ∨ tree.Has p n ∧ p ≠ q := by
  obtain ⟨⟨r, _⟩, hbind, rfl⟩ := Option.map_eq_some_iff.mp h
  obtain ⟨erased, herase, hcreate⟩ := Option.bind_eq_some_iff.mp hbind
  obtain ⟨hhas, -, -, hfold, -⟩ := PathTree.create_eq_some hcreate
  refine ⟨r, hfold, fun p n => ?_⟩
  rw [hhas, or_comm, PathTree.has_erase herase]

/-! ## Quarantine names -/

/-- The name of a quarantined Asset: `.caobad`, then `.caobad.1` and so on. -/
def quarantineName (path : Path) : Nat → Path
  | 0 => path.dropLast ++ [path.getLast?.getD [] ++ OsStr.ofText ".caobad".toList]
  | n + 1 => path.dropLast ++ [path.getLast?.getD [] ++
      OsStr.ofText (".caobad.".toList ++ Nat.toDigits 10 (n + 1))]

/-- A number that no occupied quarantine name reaches. -/
def quarantineBound (tree : AssetTree V) : Nat :=
  10 ^ (tree.entries.map fun e => (e.1.getLast?.getD []).length).foldr max 0

omit [DecidableEq K] in
theorem length_of_fold (h : p.map V.fold = q.map V.fold) :
    (p.getLast?.getD []).length = (q.getLast?.getD []).length := by
  have hl := congrArg List.getLast? h
  rw [List.getLast?_map, List.getLast?_map] at hl
  cases hp : p.getLast? with
  | none =>
    rw [hp] at hl
    have hq : q.getLast? = none := Option.map_eq_none_iff.mp hl.symm
    rw [hq]
  | some a =>
    rw [hp] at hl
    obtain ⟨b, hb, hab⟩ := Option.map_eq_some_iff.mp hl.symm
    rw [hb]
    exact (V.length b a hab).symm

theorem digits_le_length (path : Path) (n : Nat) :
    (Nat.toDigits 10 n).length ≤ ((quarantineName path n).getLast?.getD []).length := by
  cases n with
  | zero => simp [quarantineName, OsStr.ofText]
  | succ n =>
    simp only [quarantineName, OsStr.ofText, List.getLast?_concat, Option.getD_some, List.length_append,
      List.length_map]
    omega

/-- **An occupied quarantine name is below the bound**: its number is part of an entry's name. -/
theorem occupied_lt {path : Path} {n : Nat} {e : Path × Node Entry}
    (h : tree.find (quarantineName path n) = some e) : n < quarantineBound tree := by
  have hne : quarantineName path n ≠ [] := by cases n <;> simp [quarantineName]
  obtain ⟨hhas, hfold⟩ := (PathTree.find_eq_some hne).mp (show _ = some (e.1, e.2) from h)
  have hlen : (Nat.toDigits 10 n).length ≤ (e.1.getLast?.getD []).length :=
    (digits_le_length path n).trans_eq (length_of_fold hfold).symm
  have hmax : (e.1.getLast?.getD []).length ≤
      (tree.entries.map fun e => (e.1.getLast?.getD []).length).foldr max 0 :=
    List.le_max_of_le' 0 (List.mem_map.mpr ⟨_, hhas, rfl⟩) le_rfl
  refine lt_of_lt_of_le ?_ (Nat.pow_le_pow_right (by decide) hmax)
  have hpos : 0 < (e.1.getLast?.getD []).length := by
    have : 0 < (Nat.toDigits 10 n).length := List.length_pos_of_ne_nil Nat.toDigits_ne_nil
    omega
  exact (Nat.length_toDigits_le_iff (by decide) hpos).mp hlen

end Cao.Asset
