import Cao.Text
import Mathlib.Data.List.Induction

/-!
# Paths as stacks of segments

A path is cleaned by pushing its segments on a stack: a segment that stands for nothing is skipped, and `..` takes
the segment before it away. The result holds its `..`s first, beneath a root none, and then ordinary segments; cleaned
once more, it stays as it is.

* `Ordinary`, `Normal`: the segments that are kept, and the stacks that cleaning leaves;
* `Pushes`: what a way of pushing must do; **`Pushes.normal`** and **`Pushes.foldl_normal`**: it leaves normal stacks,
  and keeps them;
* `Normal.foldl_splitOn`: a normal stack, written and split again.
-/

namespace Cao.Segments

/-- `..`. -/
abbrev up : Text := ['.', '.']

/-- A segment that stands for itself. -/
structure Ordinary (segment : Text) : Prop where
  nonempty : segment ≠ []
  notHere : segment ≠ ['.']
  notUp : segment ≠ up
  noSlash : '/' ∉ segment
  noBackslash : '\\' ∉ segment

/-- `..`s that no segment and no root stands before, and then ordinary segments. -/
def Normal (rooted : Bool) (segments : List Text) : Prop :=
  ∃ ups ordinary, segments = List.replicate ups up ++ ordinary ∧ (rooted = true → ups = 0) ∧
    ∀ segment ∈ ordinary, Ordinary segment

section Normal

variable {rooted : Bool} {segments : List Text} {segment : Text}

theorem normal_nil : Normal rooted [] := ⟨0, [], rfl, fun _ => rfl, by simp⟩

theorem Normal.append (h : Normal rooted segments) (hs : Ordinary segment) : Normal rooted (segments ++ [segment]) := by
  obtain ⟨ups, ordinary, rfl, hroot, hall⟩ := h
  refine ⟨ups, ordinary ++ [segment], by simp, hroot, fun s hmem => ?_⟩
  rcases List.mem_append.mp hmem with hmem | hmem
  · exact hall s hmem
  · rwa [List.mem_singleton.mp hmem]

/-- A stack ends in an ordinary segment, or is only `..`s. -/
theorem Normal.eq_append_or_ups (h : Normal rooted segments) :
    (∃ below last, segments = below ++ [last] ∧ Ordinary last ∧ Normal rooted below) ∨
      ∃ ups, segments = List.replicate ups up ∧ (rooted = true → ups = 0) := by
  obtain ⟨ups, ordinary, rfl, hroot, hall⟩ := h
  induction ordinary using List.reverseRecOn with
  | nil => exact .inr ⟨ups, by simp, hroot⟩
  | append_singleton below last =>
    have hbelow : ∀ s ∈ below, Ordinary s := fun s hmem => hall s (List.mem_append_left _ hmem)
    exact .inl ⟨List.replicate ups up ++ below, last, by simp, hall last (by simp), ups, below, rfl, hroot, hbelow⟩

theorem Normal.mem (h : Normal rooted segments) (hmem : segment ∈ segments) : segment = up ∨ Ordinary segment := by
  obtain ⟨ups, ordinary, rfl, -, hall⟩ := h
  rcases List.mem_append.mp hmem with hmem | hmem
  · exact .inl (List.eq_of_mem_replicate hmem)
  · exact .inr (hall segment hmem)

theorem Normal.nonempty (h : Normal rooted segments) (hmem : segment ∈ segments) : segment ≠ [] := by
  rcases h.mem hmem with rfl | hs
  · simp
  · exact hs.nonempty

theorem Normal.noSlash (h : Normal rooted segments) (hmem : segment ∈ segments) : '/' ∉ segment := by
  rcases h.mem hmem with rfl | hs
  · decide
  · exact hs.noSlash

theorem Normal.noBackslash (h : Normal rooted segments) (hmem : segment ∈ segments) : '\\' ∉ segment := by
  rcases h.mem hmem with rfl | hs
  · decide
  · exact hs.noBackslash

theorem Normal.join_noBackslash (h : Normal rooted segments) : '\\' ∉ ['/'].intercalate segments := by
  intro hmem
  rcases mem_intercalate.mp hmem with ⟨hc, -⟩ | ⟨segment, hmem, hc⟩
  · exact absurd hc (by decide)
  · exact h.noBackslash hmem hc

/-- The text of a stack begins with no separator. -/
theorem Normal.join_head (h : Normal rooted segments) : (['/'].intercalate segments).head? ≠ some '/' := by
  intro hhead
  cases segments with
  | nil => cases hhead
  | cons first segments =>
    obtain ⟨c, name, hname⟩ := List.exists_cons_of_ne_nil (h.nonempty List.mem_cons_self)
    have hc : c ≠ '/' := by
      rintro rfl
      exact h.noSlash List.mem_cons_self (by simp [hname])
    rw [hname] at hhead
    cases segments with
    | nil => exact hc (by simpa using hhead)
    | cons second segments =>
      rw [List.intercalate_cons_cons] at hhead
      exact hc (by simpa using hhead)

end Normal

/-! ## Pushing -/

/-- A way of pushing a segment on a stack. -/
structure Pushes (rooted : Bool) (push : List Text → Text → List Text) : Prop where
  skips : ∀ stack segment, segment = [] ∨ segment = ['.'] → push stack segment = stack
  adds : ∀ stack segment, Ordinary segment → push stack segment = stack ++ [segment]
  climbs : rooted = false → ∀ ups, push (List.replicate ups up) up = List.replicate (ups + 1) up
  goesUp : ∀ stack, Normal rooted stack → Normal rooted (push stack up)

section Pushes

variable {rooted : Bool} {push : List Text → Text → List Text} {stack segments : List Text}

/-- **Pushing leaves a normal stack.** -/
theorem Pushes.normal (hpush : Pushes rooted push) (h : Normal rooted stack)
    (hsegments : ∀ s ∈ segments, '/' ∉ s ∧ '\\' ∉ s) : Normal rooted (segments.foldl push stack) := by
  induction segments generalizing stack with
  | nil => exact h
  | cons s segments ih =>
    rw [List.foldl_cons]
    refine ih ?_ fun s' hmem => hsegments s' (List.mem_cons_of_mem _ hmem)
    obtain ⟨hslash, hback⟩ := hsegments s List.mem_cons_self
    by_cases hskip : s = [] ∨ s = ['.']
    · rwa [hpush.skips _ _ hskip]
    · by_cases hup : s = up
      · rw [hup]
        exact hpush.goesUp _ h
      · have hs : Ordinary s := ⟨fun hn => hskip (.inl hn), fun hn => hskip (.inr hn), hup, hslash, hback⟩
        rw [hpush.adds _ _ hs]
        exact h.append hs

theorem Pushes.foldl_ordinary (hpush : Pushes rooted push) (h : ∀ s ∈ segments, Ordinary s) :
    segments.foldl push stack = stack ++ segments := by
  induction segments generalizing stack with
  | nil => simp
  | cons s segments ih =>
    rw [List.foldl_cons, hpush.adds _ _ (h s List.mem_cons_self), ih fun s' hmem => h s' (List.mem_cons_of_mem _ hmem),
      List.append_assoc, List.singleton_append]

theorem Pushes.foldl_ups (hpush : Pushes rooted push) (hroot : rooted = false) (ups done : Nat) :
    (List.replicate ups up).foldl push (List.replicate done up) = List.replicate (done + ups) up := by
  induction ups generalizing done with
  | zero => rfl
  | succ ups ih =>
    rw [List.replicate_succ, List.foldl_cons, hpush.climbs hroot, ih, Nat.add_right_comm, Nat.add_assoc]

/-- **Pushing a normal stack's segments builds it.** -/
theorem Pushes.foldl_normal (hpush : Pushes rooted push) (h : Normal rooted segments) :
    segments.foldl push [] = segments := by
  obtain ⟨ups, ordinary, rfl, hroot, hall⟩ := h
  rw [List.foldl_append, hpush.foldl_ordinary hall]
  congr 1
  by_cases hr : rooted = true
  · rw [hroot hr]
    rfl
  · simpa using hpush.foldl_ups (by simpa using hr) ups 0

/-- A normal stack, written and split again. -/
theorem Normal.foldl_splitOn (h : Normal rooted segments) (hpush : Pushes rooted push) :
    ((['/'].intercalate segments).splitOn '/').foldl push [] = segments := by
  by_cases hne : segments = []
  · subst hne
    simpa using hpush.skips [] [] (.inl rfl)
  · rw [List.splitOn_intercalate '/' (fun s hmem => h.noSlash hmem) hne]
    exact hpush.foldl_normal h

/-- A separator at the end adds nothing. -/
theorem Pushes.foldl_trailing (hpush : Pushes rooted push) (text : Text) :
    ((text ++ ['/']).splitOn '/').foldl push [] = (text.splitOn '/').foldl push [] := by
  rw [List.splitOn_append_cons_self, List.splitOn_nil, List.foldl_append, List.foldl_cons, List.foldl_nil,
    hpush.skips _ _ (.inl rfl)]

end Pushes

theorem splitOn_slash_cons (text : Text) : ('/' :: text).splitOn '/' = [] :: text.splitOn '/' := by
  have h := List.splitOn_append_cons_self (a := '/') [] text
  rwa [List.nil_append, List.splitOn_nil, List.singleton_append] at h

/-- The segments of a text without `\`. -/
theorem splitOn_noSeparator {text : Text} (h : '\\' ∉ text) : ∀ s ∈ text.splitOn '/', '/' ∉ s ∧ '\\' ∉ s :=
  fun _ hmem => ⟨notMem_of_mem_splitOn hmem, fun hc => h (mem_of_mem_splitOn hmem hc)⟩

end Cao.Segments
