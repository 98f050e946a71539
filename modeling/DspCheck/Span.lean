/-!
# Spans

A span is a half-open range of bytes of a text.
-/

namespace DspCheck

/-- The bytes from `start` up to `stop`. -/
structure Span where
  start : Nat
  stop : Nat
  le : start ≤ stop
  deriving DecidableEq, Repr

namespace Span

/-- The span between two positions; empty at the first one if they are out of order. -/
def between (start stop : Nat) : Span :=
  ⟨start, max stop start, Nat.le_max_right ..⟩

/-- Number of bytes. -/
def length (s : Span) : Nat :=
  s.stop - s.start

/-- Whether the span has no bytes. -/
def isEmpty (s : Span) : Bool :=
  s.start = s.stop

/-- The least span that covers two spans. -/
def union (s t : Span) : Span :=
  between (min s.start t.start) (max s.stop t.stop)

@[simp] theorem start_between (m n : Nat) : (between m n).start = m := rfl

theorem stop_between_of_le {m n : Nat} (h : m ≤ n) : (between m n).stop = n :=
  Nat.max_eq_left h

theorem stop_union (s t : Span) : (s.union t).stop = max s.stop t.stop :=
  stop_between_of_le (Nat.le_trans (Nat.min_le_left ..) (Nat.le_trans s.le (Nat.le_max_left ..)))

theorem union_comm (s t : Span) : s.union t = t.union s := by
  simp [union, Nat.min_comm, Nat.max_comm]

end Span
end DspCheck
