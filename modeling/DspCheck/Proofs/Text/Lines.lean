import DspCheck.Text.Lines

/-!
# Cutting a text into lines and joining lines

`Text.join "\n"` and `Text.rawLines` undo each other: joining the parts between the line feeds gives
the text back (`join_rawLines`), and texts without line feeds are the parts of their join
(`rawLines_join`).

A line is followed by its end (`lineEnd`), which is a carriage return or nothing
(`dropReturn_append_lineEnd`).
-/

namespace DspCheck
namespace Text

theorem join_cons_cons (separator s t : Text) (ts : List Text) :
    join separator (s :: t :: ts) = s ++ separator ++ join separator (t :: ts) := rfl

/-- The first text, and each other one behind a separator. -/
theorem join_cons (separator t : Text) (ts : List Text) :
    join separator (t :: ts) = t ++ ts.flatMap (separator ++ ·) := by
  induction ts generalizing t with
  | nil =>
      simp [join]
  | cons u ts ih =>
      rw [join_cons_cons, ih, List.flatMap_cons]
      simp

theorem mem_join {separator : Text} {ts : List Text} {c : Char} (h : c ∈ join separator ts) :
    c ∈ separator ∨ ∃ t ∈ ts, c ∈ t := by
  cases ts with
  | nil =>
      cases h
  | cons t ts =>
      rw [join_cons, List.mem_append, List.mem_flatMap] at h
      rcases h with h | ⟨u, hu, h⟩
      · exact Or.inr ⟨t, List.mem_cons_self, h⟩
      · rcases List.mem_append.1 h with h | h
        · exact Or.inl h
        · exact Or.inr ⟨u, List.mem_cons_of_mem t hu, h⟩

theorem isInfix_join_of_mem (separator : Text) {t : Text} {ts : List Text} (ht : t ∈ ts) :
    t <:+: join separator ts := by
  cases ts with
  | nil =>
      cases ht
  | cons u ts =>
      rw [join_cons]
      rcases List.mem_cons.1 ht with rfl | ht
      · exact (List.prefix_append t _).isInfix
      · obtain ⟨front, back, rfl⟩ := List.append_of_mem ht
        rw [List.flatMap_append, List.flatMap_cons]
        exact ⟨u ++ front.flatMap (separator ++ ·) ++ separator, back.flatMap (separator ++ ·),
          by simp⟩

theorem join_eq_intercalate (separator : Text) (ts : List Text) :
    join separator ts = separator.intercalate ts := by
  cases ts with
  | nil =>
      rfl
  | cons t ts =>
      induction ts generalizing t with
      | nil =>
          simp [join]
      | cons u ts ih =>
          rw [join_cons_cons, ih u, List.intercalate_cons_cons]

/-- The number of bytes of a join depends on the numbers of bytes only. -/
theorem byteSize_join (separator : Text) {ts us : List Text}
    (h : ts.map byteSize = us.map byteSize) :
    byteSize (join separator ts) = byteSize (join separator us) := by
  have tail : ∀ ts : List Text, byteSize (ts.flatMap (separator ++ ·)) =
      ((ts.map byteSize).map (byteSize separator + ·)).sum := by
    intro ts
    induction ts with
    | nil =>
        rfl
    | cons t ts ih =>
        rw [List.flatMap_cons, byteSize_append, byteSize_append, ih]
        simp
  match ts, us, h with
  | [], [], _ => rfl
  | t :: ts, u :: us, h =>
      obtain ⟨hhead, hrest⟩ := List.cons.inj h
      rw [join_cons, join_cons, byteSize_append, byteSize_append, tail, tail, hhead, hrest]

theorem rawLines_eq_splitOn (t : Text) : rawLines t = t.splitOn '\n' := by
  rw [rawLines, List.splitOn_eq_splitOnP]
  congr 1

theorem rawLines_ne_nil (t : Text) : rawLines t ≠ [] :=
  List.splitOnP_ne_nil _ t

/-- Joining the parts between the line feeds gives the text back. -/
theorem join_rawLines (t : Text) : join "\n" (rawLines t) = t := by
  rw [rawLines_eq_splitOn, join_eq_intercalate]
  exact List.intercalate_splitOn '\n'

/-- Texts without line feeds are the parts of their join. -/
theorem rawLines_join {ts : List Text} (hne : ts ≠ []) (h : ∀ t ∈ ts, '\n' ∉ t) :
    rawLines (join "\n" ts) = ts := by
  rw [rawLines_eq_splitOn, join_eq_intercalate]
  exact List.splitOn_intercalate '\n' h hne

/-- The parts between the occurrences of a character do not have it. -/
theorem notMem_of_mem_splitOn {c : Char} {t part : Text} (h : part ∈ t.splitOn c) :
    c ∉ part := by
  rw [List.splitOn_eq_splitOnP] at h
  induction t generalizing part with
  | nil =>
      rw [List.splitOnP_nil, List.mem_singleton] at h
      simp [h]
  | cons d t ih =>
      rw [List.splitOnP_cons_eq_if_modifyHead] at h
      split at h
      · rcases List.mem_cons.1 h with rfl | h
        · simp
        · exact ih h
      · next hd =>
          cases hl : t.splitOnP (· == c) with
          | nil =>
              exact absurd hl (List.splitOnP_ne_nil _ t)
          | cons first rest =>
              rw [hl] at ih h
              rcases List.mem_cons.1 h with rfl | h
              · have hfirst := ih List.mem_cons_self
                simp only [beq_iff_eq] at hd
                simp [hfirst, Ne.symm hd]
              · exact ih (List.mem_cons_of_mem first h)

/-- No part has a line feed. -/
theorem notMem_of_mem_rawLines {t raw : Text} (h : raw ∈ rawLines t) : '\n' ∉ raw := by
  rw [rawLines_eq_splitOn] at h
  exact notMem_of_mem_splitOn h

theorem unlines_cons (l : Text) (ls : List Text) :
    unlines (l :: ls) = l ++ ['\n'] ++ unlines ls := rfl

theorem byteSize_unlines_cons (l : Text) (ls : List Text) :
    byteSize (unlines (l :: ls)) = byteSize l + 1 + byteSize (unlines ls) := by
  have hnewline : byteSize ['\n'] = 1 := rfl
  rw [unlines_cons, byteSize_append, byteSize_append, hnewline]

/-- Lines that each end in a line feed have one more part behind them, an empty one. -/
theorem unlines_eq_join (ls : List Text) : unlines ls = join "\n" (ls ++ [[]]) := by
  induction ls with
  | nil =>
      rfl
  | cons l ls ih =>
      rw [unlines_cons, ih]
      cases ls with
      | nil =>
          simp [join]
      | cons m ls =>
          rfl

/-- The carriage return at the end of a line, if there is one. -/
def lineEnd (line : Text) : Text :=
  if line.getLast? = some '\r' then ['\r'] else []

theorem lineEnd_cases (line : Text) : lineEnd line = [] ∨ lineEnd line = ['\r'] := by
  unfold lineEnd
  split
  · exact Or.inr rfl
  · exact Or.inl rfl

@[simp] theorem dropReturn_append_lineEnd (line : Text) :
    dropReturn line ++ lineEnd line = line := by
  unfold dropReturn lineEnd
  split
  · next h =>
      obtain ⟨front, rfl⟩ := List.getLast?_eq_some_iff.1 h
      simp
  · simp

/-- A text that does not end in a carriage return is the line before its own end. -/
theorem dropReturn_of_getLast? {line : Text} (h : line.getLast? ≠ some '\r') :
    dropReturn line = line :=
  if_neg h

theorem isPrefix_dropReturn (line : Text) : dropReturn line <+: line :=
  ⟨lineEnd line, dropReturn_append_lineEnd line⟩

theorem notMem_dropReturn {c : Char} {line : Text} (h : c ∉ line) : c ∉ dropReturn line :=
  fun hmem => h ((isPrefix_dropReturn line).subset hmem)

/-- Each line begins a part between line feeds. -/
theorem exists_raw_of_mem_lines {t line : Text} (h : line ∈ lines t) :
    ∃ raw ∈ rawLines t, line <+: raw := by
  have key : ∀ raws : List Text, line ∈ linesOf raws → ∃ raw ∈ raws, line <+: raw := by
    intro raws
    induction raws with
    | nil =>
        intro h
        cases h
    | cons raw raws ih =>
        intro h
        cases raws with
        | nil =>
            rw [linesOf] at h
            split at h
            · cases h
            · rw [List.mem_singleton.1 h]
              exact ⟨raw, List.mem_cons_self, List.prefix_refl raw⟩
        | cons next raws =>
            rcases List.mem_cons.1 h with rfl | h
            · exact ⟨raw, List.mem_cons_self, isPrefix_dropReturn raw⟩
            · obtain ⟨raw', hraw', hline⟩ := ih h
              exact ⟨raw', List.mem_cons_of_mem raw hraw', hline⟩
  exact key _ h

/-- No line has a line feed. -/
theorem newline_notMem_of_mem_lines {t line : Text} (h : line ∈ lines t) : '\n' ∉ line := by
  obtain ⟨raw, hraw, hline⟩ := exists_raw_of_mem_lines h
  exact fun hmem => notMem_of_mem_rawLines hraw (hline.subset hmem)

/-- A line stands in its text. -/
theorem isInfix_of_mem_lines {t line : Text} (h : line ∈ lines t) : line <:+: t := by
  obtain ⟨raw, hraw, hline⟩ := exists_raw_of_mem_lines h
  have hjoin := hline.isInfix.trans (isInfix_join_of_mem "\n" hraw)
  rwa [join_rawLines] at hjoin

/-- A text has no more lines than characters. -/
theorem length_lines_le (t : Text) : (lines t).length ≤ t.length := by
  have key : ∀ raws : List Text, (linesOf raws).length ≤ (join "\n" raws).length := by
    intro raws
    induction raws with
    | nil =>
        exact Nat.le_refl 0
    | cons raw raws ih =>
        cases raws with
        | nil =>
            rw [linesOf]
            split
            · exact Nat.zero_le _
            · next h =>
                exact List.length_pos_iff.2 h
        | cons next raws =>
            have hbreak : ("\n".toList : Text).length = 1 := rfl
            change (dropReturn raw :: linesOf (next :: raws)).length ≤ _
            rw [join_cons_cons, List.length_cons, List.length_append, List.length_append, hbreak]
            omega
  have hjoin := key (rawLines t)
  rwa [join_rawLines] at hjoin

/-- The parts of lines that are written with line feeds behind them, and of what follows the last
one. -/
theorem rawLines_unlines {ls : List Text} (h : ∀ l ∈ ls, '\n' ∉ l) :
    rawLines (unlines ls) = ls ++ [[]] := by
  rw [unlines_eq_join]
  refine rawLines_join (by simp) ?_
  rw [List.forall_mem_append, List.forall_mem_singleton]
  exact ⟨h, List.not_mem_nil⟩

/-- Lines that are written with their ends are the lines that are read. -/
theorem lines_unlines {ls : List Text} (h : ∀ l ∈ ls, '\n' ∉ l ∧ l.getLast? ≠ some '\r') :
    lines (unlines ls) = ls := by
  have key : ∀ ls : List Text, (∀ l ∈ ls, l.getLast? ≠ some '\r') →
      linesOf (ls ++ [[]]) = ls := by
    intro ls
    induction ls with
    | nil =>
        intro _
        rfl
    | cons l ls ih =>
        intro hends
        rw [List.forall_mem_cons] at hends
        obtain ⟨m, ms, hm⟩ := List.exists_cons_of_ne_nil (List.append_ne_nil_of_right_ne_nil ls
          (List.cons_ne_nil ([] : Text) []))
        rw [List.cons_append, hm, linesOf, ← hm, ih hends.2, dropReturn_of_getLast? hends.1]
        simp
  rw [lines, rawLines_unlines fun l hl => (h l hl).1]
  exact key ls fun l hl => (h l hl).2

/-- The parts between line feeds are lines with their ends, if others stand behind them. -/
theorem linesOf_append (raws : List Text) {rest : List Text} (h : rest ≠ []) :
    linesOf (raws ++ rest) = raws.map dropReturn ++ linesOf rest := by
  obtain ⟨next, others, rfl⟩ := List.exists_cons_of_ne_nil h
  induction raws with
  | nil =>
      rfl
  | cons raw raws ih =>
      cases raws with
      | nil =>
          rfl
      | cons raw' raws =>
          exact congrArg (dropReturn raw :: ·) ih

/-- A line feed between two texts is between their parts. -/
theorem rawLines_append_newline (s t : Text) :
    rawLines (s ++ '\n' :: t) = rawLines s ++ rawLines t :=
  List.splitOnP_append_cons s t rfl

/-- The parts of a text, each with a line feed behind it, are the text with one more line feed. -/
theorem unlines_rawLines (t : Text) : unlines (rawLines t) = t ++ ['\n'] := by
  rw [unlines_eq_join, show [[]] = rawLines [] from rfl, ← rawLines_append_newline, join_rawLines]

/-- A text has one part more than line feeds. -/
theorem length_rawLines (t : Text) : (rawLines t).length = t.count '\n' + 1 := by
  induction t with
  | nil =>
      rfl
  | cons c t ih =>
      rw [rawLines, List.splitOnP_cons_eq_if_modifyHead, ← rawLines]
      by_cases hc : c = '\n' <;> simp [hc, ih]

/-- Behind a line feed the lines of a text start afresh. -/
theorem lines_append {s : Text} (hs : s = [] ∨ s.getLast? = some '\n') (t : Text) :
    lines (s ++ t) = lines s ++ lines t := by
  rcases hs with rfl | hlast
  · rfl
  · obtain ⟨front, rfl⟩ := List.getLast?_eq_some_iff.1 hlast
    have hlines : ∀ u, lines (front ++ '\n' :: u) =
        (rawLines front).map dropReturn ++ lines u := by
      intro u
      rw [lines, rawLines_append_newline, linesOf_append _ (rawLines_ne_nil u), lines]
    rw [List.append_assoc, List.singleton_append, hlines t, hlines []]
    simp [lines, rawLines, linesOf]

end Text
end DspCheck
