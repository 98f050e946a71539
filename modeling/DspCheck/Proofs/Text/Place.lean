import DspCheck.Diagnostic.Basic
import DspCheck.Text.Lines
import Mathlib.Data.List.DropRight

/-!
# Places in a text

A place is given by the text before it.  This module defines its line and its column without any
scanner, and the diagnostic that is put at a place.

Scanners count bytes and columns count scalars: both agree at the end of a prefix
(`scalarsBefore_append`).
-/

namespace DspCheck
namespace Text

/-- The line, from 1 on, of the place behind a text. -/
def lineBehind (before : Text) : Nat :=
  1 + before.count '\n'

/-- The part of a text behind its last line feed. -/
def lastLine (t : Text) : Text :=
  t.rtakeWhile (· ≠ '\n')

/-- The column in scalars, from 1 on, of the place behind a text. -/
def columnBehind (before : Text) : Nat :=
  1 + (lastLine before).length

theorem byteSize_pos {t : Text} (h : t ≠ []) : 0 < byteSize t := by
  cases t with
  | nil =>
      exact absurd rfl h
  | cons c t =>
      have hc := c.utf8Size_pos
      rw [byteSize_cons]
      omega

theorem scalarsBefore_cons (c : Char) (t : Text) {n : Nat} (hn : 0 < n) :
    scalarsBefore (c :: t) n = 1 + scalarsBefore t (n - c.utf8Size) := by
  cases n with
  | zero =>
      omega
  | succ n =>
      rfl

/-- The scalars before the end of a prefix are those of the prefix. -/
@[simp] theorem scalarsBefore_append (s t : Text) :
    scalarsBefore (s ++ t) (byteSize s) = s.length := by
  induction s with
  | nil =>
      cases t <;> rfl
  | cons c s ih =>
      have hc := c.utf8Size_pos
      rw [byteSize_cons, List.cons_append, scalarsBefore_cons c _ (by omega),
        Nat.add_sub_cancel_left, ih, List.length_cons, Nat.add_comm]

theorem utf8Size_of_isAscii {c : Char} (h : isAscii c = true) : c.utf8Size = 1 := by
  rw [Char.utf8Size_eq_one_iff, UInt32.le_iff_toNat_le]
  have hc : c.toNat < 128 := by simpa [isAscii] using h
  exact Nat.le_of_lt_succ hc

theorem scalarsBefore_zero (t : Text) : scalarsBefore t 0 = 0 := by
  cases t <;> rfl

/-- The scalars before a position in the first part of a text are scalars of that part. -/
theorem scalarsBefore_append_of_le {s : Text} {n : Nat} (h : n ≤ byteSize s) (t : Text) :
    scalarsBefore (s ++ t) n = scalarsBefore s n ∧ scalarsBefore s n ≤ s.length := by
  induction s generalizing n with
  | nil =>
      obtain rfl : n = 0 := Nat.le_zero.1 h
      rw [scalarsBefore_zero, scalarsBefore_zero]
      exact ⟨rfl, Nat.le_refl 0⟩
  | cons c s ih =>
      cases n with
      | zero =>
          exact ⟨rfl, Nat.zero_le _⟩
      | succ n =>
          rw [byteSize_cons] at h
          have hpos : 0 < n + 1 := Nat.succ_pos n
          obtain ⟨heq, hle⟩ := ih (n := n + 1 - c.utf8Size) (by omega)
          rw [List.cons_append, scalarsBefore_cons c _ hpos, scalarsBefore_cons c _ hpos, heq,
            List.length_cons]
          exact ⟨rfl, by omega⟩

/-- The scalars before a position in the second part of a text. -/
theorem scalarsBefore_append_add (s t : Text) (n : Nat) :
    scalarsBefore (s ++ t) (byteSize s + n) = s.length + scalarsBefore t n := by
  induction s with
  | nil =>
      rw [byteSize_nil, Nat.zero_add, List.nil_append, List.length_nil, Nat.zero_add]
  | cons c s ih =>
      have hc := c.utf8Size_pos
      rw [byteSize_cons, List.cons_append, scalarsBefore_cons c _ (by omega),
        show c.utf8Size + byteSize s + n - c.utf8Size = byteSize s + n by omega, ih,
        List.length_cons]
      omega

theorem length_eq_byteSize {t : Text} (h : ∀ c ∈ t, isAscii c = true) :
    t.length = byteSize t := by
  induction t with
  | nil =>
      rfl
  | cons c t ih =>
      rw [List.forall_mem_cons] at h
      rw [List.length_cons, byteSize_cons, utf8Size_of_isAscii h.1, ih h.2, Nat.add_comm]

/-- Two ways to cut a text behind the same number of bytes are one. -/
theorem append_inj_of_byteSize {s s' t t' : Text} (h : s ++ t = s' ++ t')
    (hsize : byteSize s = byteSize s') : s = s' ∧ t = t' := by
  have empty : ∀ {u v : Text}, byteSize (u ++ v) = byteSize u → v = [] := by
    intro u v hv
    by_contra hne
    have hpos := byteSize_pos hne
    rw [byteSize_append] at hv
    omega
  rcases List.append_eq_append_iff.1 h with ⟨u, rfl, rfl⟩ | ⟨u, rfl, rfl⟩
  · obtain rfl := empty hsize.symm
    exact ⟨(List.append_nil s).symm, rfl⟩
  · obtain rfl := empty hsize
    exact ⟨List.append_nil s', rfl⟩

@[simp] theorem lastLine_nil : lastLine [] = [] := rfl

@[simp] theorem lastLine_append_newline (t : Text) : lastLine (t ++ ['\n']) = [] := by
  simp [lastLine]

/-- Behind the start of a line stands what has been added to it. -/
theorem lastLine_append {s t : Text} (hs : lastLine s = []) (ht : '\n' ∉ t) :
    lastLine (s ++ t) = t := by
  have hall : ∀ c ∈ t.reverse, decide (c ≠ '\n') = true := by
    intro c hc
    rw [decide_eq_true_eq]
    rintro rfl
    exact ht (List.mem_reverse.1 hc)
  have hnone : s.reverse.takeWhile (fun c => decide (c ≠ '\n')) = [] := by
    simpa [lastLine, List.rtakeWhile] using hs
  rw [lastLine, List.rtakeWhile, List.reverse_append, List.takeWhile_append_of_pos hall, hnone]
  simp

/-- The number of the line does not change on it. -/
theorem lineBehind_append {s t : Text} (ht : '\n' ∉ t) :
    lineBehind (s ++ t) = lineBehind s := by
  simp [lineBehind, List.count_append, List.count_eq_zero.2 ht]

/-- A line feed starts the next line. -/
theorem lineBehind_newline {s t : Text} (ht : '\n' ∉ t) :
    lineBehind (s ++ t ++ ['\n']) = lineBehind s + 1 := by
  simp [lineBehind, List.count_append, List.count_eq_zero.2 ht]
  omega

end Text

namespace Diagnostic

/-- The diagnostic put at the text `under` that stands behind `before`. -/
def putAt (d : Diagnostic) (before under : Text) : Diagnostic :=
  { d with
    line := Text.lineBehind before
    column := Text.columnBehind before
    span? := some (Span.between (Text.byteSize before)
      (Text.byteSize before + Text.byteSize under)) }

end Diagnostic
end DspCheck
