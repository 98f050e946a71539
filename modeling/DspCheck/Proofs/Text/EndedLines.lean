import DspCheck.Text.Lines

/-!
# Lines with their ends

A list of lines is the lines of a text if each of them is ended by its only line feed, but for the
last one, which may do without (`AreEnded`).  So a text is cut into lines in one way
(`endedLines_eq_iff`), and any lines of it that stand together are the lines of what they make up
(`endedLines_flatten_of_mem`).
-/

namespace DspCheck
namespace Text

/-- Lines of which each has a line feed at its end and nowhere else; the last one may have none. -/
inductive AreEnded : List Text → Prop
  | nil : AreEnded []
  | last {line : Text} (hne : line ≠ []) (hline : '\n' ∉ line) : AreEnded [line]
  | cons {line : Text} {ls : List Text} (hline : '\n' ∉ line) (hls : AreEnded ls) :
      AreEnded ((line ++ ['\n']) :: ls)

theorem endedLines_newline_cons (t : Text) : endedLines ('\n' :: t) = ['\n'] :: endedLines t :=
  if_pos rfl

theorem endedLines_cons {c : Char} (hc : c ≠ '\n') (t : Text) :
    endedLines (c :: t) =
      ((endedLines t).head?.elim [c] (c :: ·)) :: (endedLines t).tail := by
  rw [endedLines, if_neg hc]
  cases endedLines t <;> rfl

/-- A line that has a line feed at its end is the first one. -/
theorem endedLines_append {line : Text} (hline : '\n' ∉ line) (t : Text) :
    endedLines (line ++ '\n' :: t) = (line ++ ['\n']) :: endedLines t := by
  induction line with
  | nil =>
      exact endedLines_newline_cons t
  | cons c line ih =>
      rw [List.mem_cons, not_or] at hline
      rw [List.cons_append, endedLines_cons (Ne.symm hline.1), ih hline.2]
      rfl

/-- A text without line feeds is one line. -/
theorem endedLines_of_notMem {line : Text} (hne : line ≠ []) (hline : '\n' ∉ line) :
    endedLines line = [line] := by
  induction line with
  | nil =>
      exact absurd rfl hne
  | cons c line ih =>
      rw [List.mem_cons, not_or] at hline
      rw [endedLines_cons (Ne.symm hline.1)]
      cases line with
      | nil =>
          rfl
      | cons d line =>
          rw [ih (List.cons_ne_nil d line) hline.2]
          rfl

theorem areEnded_endedLines (t : Text) : AreEnded (endedLines t) := by
  induction t with
  | nil =>
      exact AreEnded.nil
  | cons c t ih =>
      by_cases hc : c = '\n'
      · subst hc
        rw [endedLines_newline_cons]
        exact AreEnded.cons List.not_mem_nil ih
      · have hmem : ∀ {line : Text}, '\n' ∉ line → '\n' ∉ c :: line := fun h hmem =>
          (List.mem_cons.1 hmem).elim (fun heq => hc heq.symm) h
        rw [endedLines_cons hc]
        generalize endedLines t = ls at ih
        cases ih with
        | nil =>
            exact AreEnded.last (List.cons_ne_nil c []) (hmem List.not_mem_nil)
        | last _ hline =>
            exact AreEnded.last (List.cons_ne_nil c _) (hmem hline)
        | cons hline hls =>
            exact AreEnded.cons (hmem hline) hls

theorem AreEnded.endedLines_flatten {ls : List Text} (h : AreEnded ls) :
    endedLines ls.flatten = ls := by
  induction h with
  | nil =>
      rfl
  | last hne hline =>
      rw [List.flatten_singleton, endedLines_of_notMem hne hline]
  | cons hline hls ih =>
      rw [List.flatten_cons, List.append_assoc, List.singleton_append, endedLines_append hline, ih]

/-- A text is cut into lines with their ends in one way. -/
theorem endedLines_eq_iff {t : Text} {ls : List Text} :
    endedLines t = ls ↔ ls.flatten = t ∧ AreEnded ls := by
  constructor
  · rintro rfl
    exact ⟨flatten_endedLines t, areEnded_endedLines t⟩
  · rintro ⟨rfl, hended⟩
    exact hended.endedLines_flatten

theorem AreEnded.of_append {ls ls' : List Text} (h : AreEnded (ls ++ ls')) :
    AreEnded ls ∧ AreEnded ls' := by
  generalize happend : ls ++ ls' = all at h
  induction h generalizing ls with
  | nil =>
      obtain ⟨rfl, rfl⟩ := List.append_eq_nil_iff.1 happend
      exact ⟨AreEnded.nil, AreEnded.nil⟩
  | last hne hline =>
      rcases List.append_eq_singleton_iff.1 happend with ⟨rfl, rfl⟩ | ⟨rfl, rfl⟩
      · exact ⟨AreEnded.nil, AreEnded.last hne hline⟩
      · exact ⟨AreEnded.last hne hline, AreEnded.nil⟩
  | cons hline hls ih =>
      rcases List.append_eq_cons_iff.1 happend with ⟨rfl, rfl⟩ | ⟨front, rfl, hfront⟩
      · exact ⟨AreEnded.nil, AreEnded.cons hline hls⟩
      · obtain ⟨hbefore, hbehind⟩ := ih hfront.symm
        exact ⟨AreEnded.cons hline hbefore, hbehind⟩

/-- Lines of a text that stand together are the lines of what they make up. -/
theorem endedLines_flatten_of_mem {t : Text} {gs : List (List Text)}
    (hgs : gs.flatten = endedLines t) {ls : List Text} (hls : ls ∈ gs) :
    endedLines ls.flatten = ls := by
  obtain ⟨before, behind, rfl⟩ := List.append_of_mem hls
  have hended : AreEnded (before.flatten ++ (ls ++ behind.flatten)) := by
    have h := areEnded_endedLines t
    rwa [← hgs, List.flatten_append, List.flatten_cons] at h
  exact endedLines_eq_iff.2 ⟨rfl, hended.of_append.2.of_append.1⟩

end Text
end DspCheck
