import DspCheck.Diagnostic.Finding
import DspCheck.Proofs.Text.Place

/-!
# Replacements on a line

A replacement puts other bytes in the place of a span.  Positions behind the span move with what
stands there.

`Replacement.Carries` says that the remarks on a line are made again after a replacement: as they
were before the span, and moved behind it.
-/

namespace DspCheck

/-- The bytes of a span give way to a number of others. -/
structure Replacement where
  span : Span
  added : Nat

namespace Replacement

/-- Where a position is after a replacement. -/
def move (e : Replacement) (position : Nat) : Nat :=
  if e.span.stop ≤ position then position - e.span.length + e.added else position

/-- The replacement of a text that stands behind another one. -/
def ofTexts (front old new : Text) : Replacement :=
  ⟨Span.between (Text.byteSize front) (Text.byteSize front + Text.byteSize old),
    Text.byteSize new⟩

section Texts

variable {front old new : Text}

@[simp] theorem start_ofTexts : (ofTexts front old new).span.start = Text.byteSize front := rfl

@[simp] theorem stop_ofTexts :
    (ofTexts front old new).span.stop = Text.byteSize front + Text.byteSize old :=
  Span.stop_between_of_le (Nat.le_add_right _ _)

theorem move_of_le (hold : old ≠ []) {n : Nat} (hn : n ≤ Text.byteSize front) :
    (ofTexts front old new).move n = n := by
  have hpos := Text.byteSize_pos hold
  rw [move, stop_ofTexts, if_neg (by omega)]

theorem move_add (k : Nat) :
    (ofTexts front old new).move (Text.byteSize front + Text.byteSize old + k) =
      Text.byteSize front + Text.byteSize new + k := by
  rw [move, Span.length, stop_ofTexts, start_ofTexts, if_pos (by omega)]
  show _ + Text.byteSize new = _
  omega

end Texts

/-- A remark after a replacement on its line. -/
def remark (e : Replacement) (m : Remark) : Remark :=
  { m with start := e.move m.start, stop := e.move m.stop }

/-- The remarks on a line are made again after a replacement.  None of them starts inside the bytes
that give way. -/
structure Carries (e : Replacement) (ms ms' : List Remark) : Prop where
  eq : ms' = ms.map e.remark
  clear : ∀ m ∈ ms, m.start ≤ e.span.start ∨ e.span.stop ≤ m.start

end Replacement

namespace Remark

/-- A remark behind as many bytes. -/
def shift (k : Nat) (m : Remark) : Remark :=
  { m with start := k + m.start, stop := k + m.stop }

end Remark

namespace Replacement

theorem carries_nil (e : Replacement) : e.Carries [] [] :=
  ⟨rfl, fun _ h => absurd h List.not_mem_nil⟩

theorem Carries.append {e : Replacement} {ms ms' ns ns' : List Remark} (hm : e.Carries ms ms')
    (hn : e.Carries ns ns') : e.Carries (ms ++ ns) (ms' ++ ns') := by
  constructor
  · rw [hm.eq, hn.eq, List.map_append]
  · exact List.forall_mem_append.2 ⟨hm.clear, hn.clear⟩

section Texts

variable {front old new : Text}

/-- Remarks that end before the replaced text are not changed. -/
theorem carries_of_le (hold : old ≠ []) {ms : List Remark}
    (h : ∀ m ∈ ms, m.start ≤ Text.byteSize front ∧ m.stop ≤ Text.byteSize front) :
    (ofTexts front old new).Carries ms ms := by
  constructor
  · conv_lhs => rw [← List.map_id ms]
    refine List.map_congr_left fun m hm => ?_
    rw [remark, move_of_le hold (h m hm).1, move_of_le hold (h m hm).2]
    rfl
  · exact fun m hm => Or.inl (h m hm).1

/-- Remarks behind the replaced text move with what they are about. -/
theorem carries_shift (ms : List Remark) :
    (ofTexts front old new).Carries
      (ms.map (Remark.shift (Text.byteSize front + Text.byteSize old)))
      (ms.map (Remark.shift (Text.byteSize front + Text.byteSize new))) := by
  constructor
  · rw [List.map_map]
    refine List.map_congr_left fun m _ => ?_
    simp only [Function.comp_apply, remark, Remark.shift, move_add]
  · intro m hm
    obtain ⟨n, -, rfl⟩ := List.mem_map.1 hm
    exact Or.inr (by rw [stop_ofTexts]; exact Nat.le_add_right _ _)

end Texts

theorem carries_filterMap {α : Type} {e : Replacement} {f g : α → Option Remark} {xs : List α}
    (h : ∀ x ∈ xs, e.Carries (f x).toList (g x).toList) :
    e.Carries (xs.filterMap f) (xs.filterMap g) := by
  induction xs with
  | nil =>
      exact e.carries_nil
  | cons x xs ih =>
      rw [List.forall_mem_cons] at h
      have happend := h.1.append (ih h.2)
      have hcons : ∀ k : α → Option Remark,
          (x :: xs).filterMap k = (k x).toList ++ xs.filterMap k := by
        intro k
        rw [List.filterMap_cons]
        cases k x <;> rfl
      rwa [hcons, hcons]

end Replacement

end DspCheck
