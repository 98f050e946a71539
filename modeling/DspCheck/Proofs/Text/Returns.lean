import DspCheck.Proofs.Text.Lines

/-!
# Carriage returns at the ends of lines

A text may end its lines in line feeds alone, or in a carriage return and a line feed each
(`withReturns`).  The parts between the line feeds of the second form are those of the first one,
with a carriage return at the end of each but the last (`rawLines_withReturns`).  So both have the
same lines, unless there are carriage returns in the text already (`lines_withReturns`).
-/

namespace DspCheck
namespace Text

/-- A text with a carriage return before each line feed. -/
def withReturns (t : Text) : Text :=
  t.flatMap fun c => if c = '\n' then ['\r', '\n'] else [c]

/-- Parts between line feeds, with a carriage return before each line feed. -/
def returned : List Text → List Text
  | [] => []
  | [last] => [last]
  | raw :: next :: raws => (raw ++ ['\r']) :: returned (next :: raws)

theorem returned_cons (raw : Text) {raws : List Text} (h : raws ≠ []) :
    returned (raw :: raws) = (raw ++ ['\r']) :: returned raws := by
  obtain ⟨next, rest, rfl⟩ := List.exists_cons_of_ne_nil h
  rfl

theorem returned_modifyHead_cons (c : Char) (raws : List Text) :
    returned (raws.modifyHead (c :: ·)) = (returned raws).modifyHead (c :: ·) := by
  match raws with
  | [] => rfl
  | [_] => rfl
  | _ :: _ :: _ => rfl

theorem rawLines_withReturns (t : Text) : rawLines (withReturns t) = returned (rawLines t) := by
  induction t with
  | nil =>
      rfl
  | cons c t ih =>
      rw [withReturns, List.flatMap_cons, ← withReturns]
      by_cases hc : c = '\n'
      · subst hc
        rw [← List.nil_append ('\n' :: t), rawLines_append_newline [] t]
        have hsplit : rawLines (['\r', '\n'] ++ withReturns t) =
            rawLines ['\r'] ++ rawLines (withReturns t) := rawLines_append_newline ['\r'] _
        rw [if_pos rfl, hsplit, ih]
        exact (returned_cons [] (rawLines_ne_nil t)).symm
      · have hcons : ∀ u : Text, rawLines (c :: u) = (rawLines u).modifyHead (c :: ·) := by
          intro u
          rw [rawLines, List.splitOnP_cons_eq_if_modifyHead, if_neg (by simpa using hc), rawLines]
        rw [if_neg hc, List.singleton_append, hcons, hcons, ih, returned_modifyHead_cons]

theorem notMem_of_mem_rawLines_of_notMem {c : Char} {t raw : Text} (h : c ∉ t)
    (hraw : raw ∈ rawLines t) : c ∉ raw := by
  intro hc
  have hpart := isInfix_join_of_mem "\n" hraw
  rw [join_rawLines] at hpart
  exact h (hpart.subset hc)

/-- The line of a part is the same with a carriage return at its end. -/
theorem dropReturn_concat_return {raw : Text} (h : '\r' ∉ raw) :
    dropReturn (raw ++ ['\r']) = dropReturn raw := by
  rw [dropReturn_of_getLast? fun hlast => h (List.mem_of_getLast? hlast), dropReturn]
  simp

theorem linesOf_returned {raws : List Text} (h : ∀ raw ∈ raws, '\r' ∉ raw) :
    linesOf (returned raws) = linesOf raws := by
  induction raws with
  | nil =>
      rfl
  | cons raw raws ih =>
      rw [List.forall_mem_cons] at h
      cases raws with
      | nil =>
          rfl
      | cons next raws =>
          have hne : returned (next :: raws) ≠ [] := by
            cases raws <;> exact List.cons_ne_nil _ _
          obtain ⟨next', raws', hreturned⟩ := List.exists_cons_of_ne_nil hne
          rw [returned, hreturned, linesOf, ← hreturned, ih h.2, dropReturn_concat_return h.1]
          · rfl
          · exact List.cons_ne_nil _ _

/-- Both ways to end lines give the same lines. -/
theorem lines_withReturns {t : Text} (h : '\r' ∉ t) : lines (withReturns t) = lines t := by
  rw [lines, rawLines_withReturns, lines]
  exact linesOf_returned fun _ => notMem_of_mem_rawLines_of_notMem h

end Text
end DspCheck
