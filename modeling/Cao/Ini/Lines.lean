import Cao.Ini.Encoding
import Cao.Lib.Loop

/-!
# The lines of a settings file

The reader of Qt's INI format finds logical lines (`cao_profiles::ini::read::read_line`): up to a CR, LF or
`;` outside quotes.

* `LineScan.step`, `LineScan.loop`: the reader's loop, **`LineScan.step_next`**;
* `readLine`: the next logical line, and the bytes after it.
-/

namespace Cao.Ini

/-- `is_space`. -/
def isSpace (b : UInt8) : Bool := b == 0x09 || b == 0x0A || b == 0x0D || b == 0x20

/-- A byte that ends a line. -/
def isNewline (b : UInt8) : Bool := b == 0x0A || b == 0x0D

/-- `is_special`: the bytes a line's reader stops on. -/
def isSpecial (b : UInt8) : Bool :=
  isNewline b || b == byte '"' || b == byte ';' || b == byte '=' || b == byte '\\'

/-- `skip_comment`: the end of a comment's line, and any whitespace after it. -/
def skipComment (rest : Bytes) : Bytes := (rest.dropWhile fun b => !isNewline b).dropWhile isSpace

/-! ## Lines -/

/-- One logical line, with the place of its first unquoted `=`. -/
structure Line where
  text : Bytes
  equals : Option Nat

/-- `read_line`'s state: the bytes from the line's start on that are read, and those that are not. -/
structure LineScan where
  text : Bytes
  equals : Option Nat
  inQuotes : Bool
  rest : Bytes

/-- The byte that a `\` escapes is read with it, and CRLF and LFCR are one. -/
def escapedLength : Bytes → Nat
  | [] => 0
  | [_] => 1
  | e :: b :: _ => if isNewline e ∧ isNewline b ∧ e ≠ b then 2 else 1

namespace LineScan

/-- That many more bytes are read. -/
def take (s : LineScan) (n : Nat) : LineScan := { s with text := s.text ++ s.rest.take n, rest := s.rest.drop n }

/-- The first unquoted `=`, where one is read next. -/
def marked (s : LineScan) : Option Nat := if !s.inQuotes ∧ s.equals = none then some s.text.length else s.equals

/-- One pass of `read_line`. -/
def step (s : LineScan) : Pass LineScan LineScan :=
  match s.rest with
  | [] => .done s
  | c :: rest =>
    -- A `#` at the start of a line is a comment, like `;`.
    if s.text = [] ∧ c = byte '#' then .next { s with rest := skipComment s.rest }
    else if !isSpecial c then .next (s.take 1)
    else if c = byte '=' then .next { s.take 1 with equals := s.marked }
    else if isNewline c then
      if s.text = [] then .next { s with rest }
      else if !s.inQuotes then .done s
      else .next (s.take 1)
    else if c = byte '\\' then .next (s.take (1 + escapedLength rest))
    else if c = byte '"' then .next { s.take 1 with inQuotes := !s.inQuotes }
    else if s.text = [] then .next { s with rest := skipComment rest }
    else if !s.inQuotes then .done s
    else .next (s.take 1)

theorem length_skipComment_le (rest : Bytes) : (skipComment rest).length ≤ rest.length :=
  Nat.le_trans (List.length_dropWhile_le _ _) (List.length_dropWhile_le _ _)

/-- **A pass reads at least a byte**, and keeps what it reads. -/
theorem step_next {s s' : LineScan} (h : s.step = .next s') :
    s'.rest.length < s.rest.length ∧ s'.text.length + s'.rest.length ≤ s.text.length + s.rest.length := by
  have htake : ∀ n, 0 < n → s.rest ≠ [] → (s.take n).rest.length < s.rest.length ∧
      (s.take n).text.length + (s.take n).rest.length ≤ s.text.length + s.rest.length := by
    intro n hn hne
    have hpos : 0 < s.rest.length := List.length_pos_iff.mpr hne
    simp only [take, List.length_drop, List.length_append, List.length_take]
    omega
  unfold step at h
  cases hrest : s.rest with
  | nil => rw [hrest] at h; cases h
  | cons c rest =>
    rw [hrest] at h
    have hcomment := length_skipComment_le rest
    have htake := fun n hn => htake n hn (by rw [hrest]; exact List.cons_ne_nil _ _)
    rw [hrest] at htake
    dsimp only at h
    split_ifs at h with hash hspecial hequals hnewline hstart hquotes hescape hquote hstart hquotes
    · cases h
      obtain ⟨htext, rfl⟩ := hash
      have hdrop : skipComment (byte '#' :: rest) = skipComment rest := rfl
      simp only [hdrop, List.length_cons]
      omega
    · cases h
      exact htake 1 (by omega)
    · cases h
      exact htake 1 (by omega)
    · cases h
      simp only [List.length_cons]
      omega
    · cases h
      exact htake 1 (by omega)
    · cases h
      exact htake _ (by omega)
    · cases h
      exact htake 1 (by omega)
    · cases h
      simp only [List.length_cons]
      omega
    · cases h
      exact htake 1 (by omega)

/-- The loop of `read_line`. -/
def loop : Loop LineScan LineScan where
  body := step
  size s := s.rest.length
  shrinks h := (step_next h).1

end LineScan

/-- `read_line`: the next logical line, and the bytes after it. -/
def readLine (data : Bytes) : Option Line × Bytes :=
  let s := LineScan.loop.run ⟨[], none, false, data.dropWhile isSpace⟩
  (if s.text = [] then none else some ⟨s.text, s.equals⟩, s.rest)

theorem readLine_some {data rest : Bytes} {line : Line} (h : readLine data = (some line, rest)) :
    line.text ≠ [] ∧ line.text.length + rest.length ≤ data.length := by
  have hrun : ∀ s : LineScan, (LineScan.loop.run s).text.length + (LineScan.loop.run s).rest.length ≤
      s.text.length + s.rest.length := by
    intro s
    refine @Loop.run_invariant _ _ LineScan.loop (fun t => t.text.length + t.rest.length ≤ s.text.length + s.rest.length)
      (fun t => t.text.length + t.rest.length ≤ s.text.length + s.rest.length)
      (fun t t' ht hnext => Nat.le_trans (LineScan.step_next hnext).2 ht) (fun t r ht hdone => ?_) s (Nat.le_refl _)
    have hsame : r = t := by
      have hstep : t.step = .done r := hdone
      unfold LineScan.step at hstep
      split at hstep
      · cases hstep; rfl
      · dsimp only at hstep
        split_ifs at hstep <;> cases hstep <;> rfl
    rw [hsame]
    exact ht
  have hrun := hrun ⟨[], none, false, data.dropWhile isSpace⟩
  have hspace : (data.dropWhile isSpace).length ≤ data.length := List.length_dropWhile_le _ _
  unfold readLine at h
  dsimp only at h
  obtain ⟨hline, hrest⟩ := Prod.mk.inj h
  split_ifs at hline with hempty
  cases hline
  rw [hrest, List.length_nil, Nat.zero_add] at hrun
  exact ⟨hempty, Nat.le_trans hrun hspace⟩

end Cao.Ini
