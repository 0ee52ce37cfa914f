import Cao.Pack.Write
import Cao.Pack.Bounds

/-!
# The keys of packed files

What the name a source is stored under says of its path.

* `IsFilePath`: the path of a file, of names without separators;
* `Keyed`, **`keyed_of_archiveKey`**: the folder and the file name a key splits into are those of the path.
-/

namespace Cao.Pack

/-- A name in a path: it is not empty, and holds no separator. -/
def IsName (name : OsStr) : Prop := name ≠ [] ∧ CodePoint.char '\\' ∉ name ∧ CodePoint.char '/' ∉ name

instance : DecidablePred IsName := fun name => by unfold IsName; infer_instance

/-- The path of a file: it is made of names, at least one of them a folder's. -/
def IsFilePath (path : Path) : Prop := path.dropLast ≠ [] ∧ ∀ name ∈ path, IsName name

instance : DecidablePred IsFilePath := fun path => by unfold IsFilePath; infer_instance

/-! ## Computing a list -/

section MapM

variable {α β ε : Type} {f : α → Except ε β} {l : List α}

theorem forall₂_of_mapM_ok {l' : List β} (h : l.mapM f = .ok l') : List.Forall₂ (fun a b => f a = .ok b) l l' := by
  induction l generalizing l' with
  | nil =>
    obtain rfl : [] = l' := Except.ok.inj h
    exact .nil
  | cons a l ih =>
    rw [List.mapM_cons] at h
    cases ha : f a with
    | error e => simp [ha, bind, Except.bind] at h
    | ok b =>
      cases hl : l.mapM f with
      | error e => simp [ha, hl, bind, Except.bind] at h
      | ok bs =>
        simp only [ha, hl, bind, Except.bind, pure, Except.pure, Except.ok.injEq] at h
        subst h
        exact .cons ha (ih hl)

theorem exists_of_mapM_error {e : ε} (h : l.mapM f = .error e) : ∃ a ∈ l, f a = .error e := by
  induction l with
  | nil => cases h
  | cons a l ih =>
    rw [List.mapM_cons] at h
    cases ha : f a with
    | error e' =>
      simp only [ha, bind, Except.bind, Except.error.injEq] at h
      exact ⟨a, List.mem_cons_self, h ▸ ha⟩
    | ok b =>
      cases hl : l.mapM f with
      | ok bs => simp [ha, hl, bind, Except.bind, pure, Except.pure] at h
      | error e' =>
        simp only [ha, hl, bind, Except.bind, Except.error.injEq] at h
        obtain ⟨a', hmem, ha'⟩ := ih (h ▸ hl)
        exact ⟨a', List.mem_cons_of_mem _ hmem, ha'⟩

end MapM

/-! ## Texts of paths -/

theorem ofText_nil : OsStr.ofText [] = [] := rfl

theorem mem_ofText {s : Text} {c : Char} : CodePoint.char c ∈ OsStr.ofText s ↔ c ∈ s := by
  simp [OsStr.ofText]

theorem ofText_append (s t : Text) : OsStr.ofText (s ++ t) = OsStr.ofText s ++ OsStr.ofText t := by
  simp [OsStr.ofText]

theorem nativeText_singleton (name : OsStr) : nativeText [name] = name := List.intercalate_singleton

/-- A text that is cut in two is made of two texts. -/
theorem ofText_eq_append {s : Text} {a b : OsStr} (h : OsStr.ofText s = a ++ b) :
    ∃ t u, a = OsStr.ofText t ∧ b = OsStr.ofText u ∧ s = t ++ u := by
  obtain ⟨t, u, rfl, rfl, rfl⟩ := List.map_eq_append_iff.mp h
  exact ⟨t, u, rfl, rfl, rfl⟩

/-- A path's bytes are at least those of what is left of its beginning. -/
theorem nameBytes_append_le (root : Path) (relative : Path) : nameBytes relative ≤ nameBytes (root ++ relative) := by
  induction relative using List.reverseRecOn with
  | nil => exact Nat.zero_le _
  | append_singleton folder name ih =>
    rw [← List.append_assoc]
    by_cases h : folder = []
    · subst h
      simp only [List.nil_append, List.append_nil]
      by_cases hroot : root = []
      · rw [hroot, List.nil_append]
      · rw [nameBytes_concat hroot]
        omega
    · rw [nameBytes_concat h, nameBytes_concat (by simp [h])]
      omega

/-- A path of names has bytes. -/
theorem nameBytes_pos {path : Path} (hne : path ≠ []) (h : ∀ name ∈ path, IsName name) : 0 < nameBytes path := by
  obtain ⟨folder, name, rfl⟩ := (path.eq_nil_or_concat').resolve_left hne
  have hname : 0 < nameBytes [name] := by
    unfold nameBytes
    rw [nativeText_singleton]
    obtain ⟨point, rest, rfl⟩ := List.exists_cons_of_ne_nil (h name (by simp)).1
    have hlossy : OsStr.lossy (point :: rest) ≠ [] := by simp [OsStr.lossy]
    obtain ⟨c, s, hs⟩ := List.exists_cons_of_ne_nil hlossy
    rw [hs, utf8_cons, List.length_append, String.length_utf8EncodeChar]
    exact Nat.add_pos_left c.utf8Size_pos _
  by_cases hfolder : folder = []
  · rwa [hfolder, List.nil_append]
  · rw [nameBytes_concat hfolder]
    omega

theorem nameBytes_of_ofText {path : Path} {s : Text} (h : nativeText path = OsStr.ofText s) :
    nameBytes path = textBytes s := by
  unfold nameBytes textBytes
  rw [h, OsStr.lossy_ofText]

theorem char_notMem_nativeText {c : Char} (hc : c ≠ '\\') {path : Path} (h : ∀ name ∈ path, CodePoint.char c ∉ name) :
    CodePoint.char c ∉ nativeText path := by
  induction path using List.reverseRecOn with
  | nil => simp [nativeText]
  | append_singleton folder name ih =>
    have hname := h name (by simp)
    have ih := ih fun other hother => h other (by simp [hother])
    by_cases hfolder : folder = []
    · rw [hfolder, List.nil_append, nativeText_singleton]
      exact hname
    · rw [nativeText_concat hfolder]
      simp [ih, hname, hc]

/-! ## Keys -/

theorem splitKey_of_notMem {name : Text} (h : '\\' ∉ name) : splitKey name = ([], name) := if_neg h

/-- A key is split at its last separator. -/
theorem splitKey_append {directory name : Text} (h : '\\' ∉ name) :
    splitKey (directory ++ '\\' :: name) = (directory, name) := by
  have hname : ((directory ++ '\\' :: name).reverse.takeWhile (· ≠ '\\')).reverse = name := by
    rw [List.reverse_append, List.reverse_cons, List.append_assoc, List.singleton_append,
      List.takeWhile_append_of_pos]
    · simp
    · intro c hc
      have : c ≠ '\\' := fun heq => h (heq ▸ List.mem_reverse.mp hc)
      simpa using this
  unfold splitKey
  rw [if_pos (by simp)]
  simp only [hname]
  have hlength : (directory ++ '\\' :: name).length - name.length - 1 = directory.length := by
    rw [List.length_append, List.length_cons]
    omega
  rw [hlength, List.take_left]

/-- What a key says of the path it was made of: the path beneath the root, and its folder and name where it is not the
root itself. -/
structure Keyed (root path : Path) (key : Text) : Prop where
  text : ∃ relative, path = root ++ relative ∧ nativeText relative = OsStr.ofText key
  atRoot : path = root → splitKey key = ([], [])
  split : ∀ directories name, path = root ++ (directories ++ [name]) →
    nativeText directories = OsStr.ofText (splitKey key).1 ∧ name = OsStr.ofText (splitKey key).2

/-- **A key is the text of the path beneath the root**, split into its folder and its name. -/
theorem keyed_of_archiveKey {path root : Path} {key : Text} (hpath : ∀ name ∈ path, IsName name)
    (h : archiveKey path root = .ok key) : Keyed root path key := by
  unfold archiveKey at h
  cases hrelative : relativeTo root path with
  | none => simp [hrelative] at h
  | some relative =>
    obtain rfl := relativeTo_eq_some.mp hrelative
    simp only [hrelative] at h
    cases htext : (nativeText relative).toStr with
    | none => simp [htext] at h
    | some text =>
      simp only [htext, Except.ok.injEq] at h
      have hnative := OsStr.eq_ofText_of_toStr htext
      have hslash : '/' ∉ text := by
        rw [← mem_ofText, ← hnative]
        exact char_notMem_nativeText (by decide) fun name hname => (hpath name (by simp [hname])).2.2
      have hmap : text.map (fun c => if c = '/' then '\\' else c) = text :=
        (List.map_congr_left fun c hc => if_neg fun heq : c = '/' => hslash (heq ▸ hc)).trans (List.map_id text)
      obtain rfl : key = text := h.symm.trans hmap
      clear htext h hmap hslash
      refine ⟨⟨relative, rfl, hnative⟩, fun hroot => ?_, fun directories name hsplit => ?_⟩
      · obtain rfl : relative = [] := by simpa using hroot
        obtain rfl : key = [] := OsStr.ofText_injective hnative.symm
        rfl
      · obtain rfl : relative = directories ++ [name] := List.append_cancel_left hsplit
        have hname := hpath name (by simp)
        by_cases hdirectories : directories = []
        · subst hdirectories
          rw [List.nil_append, nativeText_singleton] at hnative
          subst hnative
          rw [splitKey_of_notMem fun hmem => hname.2.1 (mem_ofText.mpr hmem)]
          exact ⟨rfl, rfl⟩
        · rw [nativeText_concat hdirectories] at hnative
          obtain ⟨directory, rest, hdirectory, hrest, rfl⟩ := ofText_eq_append hnative.symm
          obtain ⟨separator, text, hseparator, htext, rfl⟩ := ofText_eq_append (a := [CodePoint.char '\\']) hrest.symm
          obtain rfl : separator = ['\\'] := OsStr.ofText_injective hseparator.symm
          subst htext
          clear hnative hrest
          rw [List.singleton_append, splitKey_append fun hmem => hname.2.1 (mem_ofText.mpr hmem)]
          exact ⟨hdirectory, rfl⟩

end Cao.Pack
