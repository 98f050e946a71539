import DspCheck.Proofs.Remedy.Reports
import DspCheck.Proofs.Renaming.Source
import DspCheck.Proofs.Text.Run
import DspCheck.Remedy.Standard

/-!
# Reports as compilers write them

A compiler starts a report with the place of the error, as in `synth.dsp : 12 : ERROR : ...`, and
more lines may follow (`CompilerReport`).  Two scanners look for the error marker in its output: the
one that cuts it into reports goes by lines with their ends, and the one that reads the line number
goes by lines without them, in a report that has lost the blanks at its end.  They agree about such
output, whatever stands in the names of files: each report is found with the number of its line.

Main statement: `Explanation.ofOutput_flatMap_text`.
-/

namespace DspCheck

namespace Text

/-- A text does not reach over a character that it does not have. -/
theorem prefix_of_prefix_append_cons {c : Char} {s t u : Text} (hc : c ∉ s)
    (h : s <+: t ++ c :: u) : s <+: t := by
  rcases Nat.lt_or_ge t.length s.length with hlt | hle
  · have hmem : t ++ [c] <+: s := by
      refine List.prefix_of_prefix_length_le ⟨u, by simp⟩ h ?_
      rw [List.length_append, List.length_singleton]
      omega
    exact absurd (hmem.subset (List.mem_append_right t List.mem_cons_self)) hc
  · exact List.prefix_of_prefix_length_le h (List.prefix_append t _) hle

/-- Where a text does not occur before a character that it does not have, it is found behind that
character. -/
theorem breakAt?_append_cons {c : Char} {s t : Text} (hne : s ≠ []) (hc : c ∉ s)
    (ht : ¬ s <:+: t) (u : Text) :
    breakAt? s (t ++ c :: u) = (breakAt? s u).map fun p => (t ++ c :: p.1, p.2) := by
  have hafter : ∀ v : Text, ¬ s <+: v → after? s (v ++ c :: u) = none := by
    intro v hv
    cases hrest : after? s (v ++ c :: u) with
    | none =>
        rfl
    | some rest =>
        exact absurd (prefix_of_prefix_append_cons hc ⟨rest, (after?_eq_some_iff.1 hrest).symm⟩) hv
  induction t with
  | nil =>
      have hnil := hafter [] fun h => hne (List.prefix_nil.1 h)
      rw [List.nil_append] at hnil ⊢
      rw [breakAt?, hnil]
      rfl
  | cons d t ih =>
      have hhead := hafter (d :: t) fun h => ht h.isInfix
      have htail := ih fun h => ht (List.infix_cons h)
      rw [List.cons_append] at hhead ⊢
      rw [breakAt?, hhead, htail, Option.map_map]
      rfl

/-- What ends in a character that is no blank is kept when the blanks at the end are cut off. -/
theorem exists_trimEnd_append {s : Text} (hs : EndsAt isBlank s.reverse) (t : Text) :
    ∃ rest, trimEnd (s ++ t) = s ++ rest := by
  have hkeep : s.reverse.dropWhile isBlank = s.reverse := dropWhile_eq_self_iff.2 hs
  rw [trimEnd, List.reverse_append, List.dropWhile_append, hkeep]
  split
  · exact ⟨[], by simp⟩
  · exact ⟨(t.reverse.dropWhile isBlank).reverse, by simp⟩

/-- The first line of a text starts as the text does. -/
theorem exists_lines_append {s : Text} (hne : s ≠ []) (hbreak : '\n' ∉ s)
    (hreturn : s.getLast? ≠ some '\r') (t : Text) :
    ∃ rest ls, lines (s ++ t) = (s ++ rest) :: ls := by
  obtain ⟨first, raws, hraws⟩ := List.exists_cons_of_ne_nil (rawLines_ne_nil t)
  have hjoin : join "\n" ((s ++ first) :: raws) = s ++ t := by
    rw [← join_rawLines t, hraws, join_cons, join_cons, List.append_assoc]
  have hnone : ∀ raw ∈ (s ++ first) :: raws, '\n' ∉ raw := by
    have hall : ∀ raw ∈ first :: raws, '\n' ∉ raw := fun raw h =>
      notMem_of_mem_rawLines (hraws ▸ h)
    rw [List.forall_mem_cons] at hall ⊢
    exact ⟨fun h => (List.mem_append.1 h).elim hbreak hall.1, hall.2⟩
  have hlines : lines (s ++ t) = linesOf ([s ++ first] ++ raws) := by
    rw [lines, ← hjoin, rawLines_join (List.cons_ne_nil _ _) hnone, List.singleton_append]
  rcases eq_or_ne raws [] with rfl | hraws
  · rw [List.append_nil, linesOf, if_neg (List.append_ne_nil_of_left_ne_nil hne first)] at hlines
    exact ⟨first, [], hlines⟩
  · rw [linesOf_append _ hraws, List.map_singleton, List.singleton_append] at hlines
    rcases eq_or_ne first [] with rfl | hfirst
    · rw [List.append_nil, dropReturn_of_getLast? hreturn] at hlines
      exact ⟨[], _, by rw [hlines, List.append_nil]⟩
    · rw [dropReturn_append s hfirst] at hlines
      exact ⟨dropReturn first, _, hlines⟩

/-- Lines that each end in a line feed are the lines with their ends. -/
theorem areEnded_map {ls : List Text} (h : ∀ l ∈ ls, '\n' ∉ l) :
    AreEnded (ls.map (· ++ ['\n'])) := by
  induction ls with
  | nil =>
      exact AreEnded.nil
  | cons l ls ih =>
      rw [List.forall_mem_cons] at h
      exact AreEnded.cons h.1 (ih h.2)

end Text

namespace Explanation

/-- The number in a place is the last part between colons that is made of digits. -/
theorem placeLine?_append {n : Nat} (hn : n ≤ maxLine) (file : Text) :
    placeLine? (file ++ " : " ++ Text.decimal n ++ " : ") = some n := by
  have hdigit : ∀ c ∈ Text.decimal n, c.isDigit = true := fun c => Text.isDigit_of_mem_decimal
  have htrim : Text.trim (' ' :: (Text.decimal n ++ [' '])) = Text.decimal n := by
    have hblank : ∀ c ∈ [' '], Text.isBlank c = true := List.forall_mem_singleton.2 rfl
    refine Text.trim_between hblank hblank (Text.trim_of_forall fun c hc => ?_)
      (Text.decimal_ne_nil n)
    exact Ident.not_isBlank_of_isPart (Ident.isPart_of_isDigit (hdigit c hc))
  have hnumber : isNumber (Text.decimal n) = true := by
    simp only [isNumber, Bool.and_eq_true, decide_eq_true_eq, List.all_eq_true]
    exact ⟨Text.decimal_ne_nil n, hdigit⟩
  have hcolon : ∀ c ∈ ' ' :: (Text.decimal n ++ [' ']), (c == ':') = false := by
    simp only [List.forall_mem_cons, List.forall_mem_append]
    refine ⟨rfl, fun c hc => ?_, rfl, List.forall_mem_nil _⟩
    exact beq_eq_false_iff_ne.2 fun heq => by cases heq ▸ hdigit c hc
  have hcut : ∀ s t : Text, (s ++ ':' :: t).splitOn ':' = s.splitOn ':' ++ t.splitOn ':' := by
    intro s t
    simp only [List.splitOn_eq_splitOnP]
    exact List.splitOnP_append_cons s t (beq_self_eq_true ':')
  have hsplit : (file ++ " : " ++ Text.decimal n ++ " : ").splitOn ':' =
      (file ++ [' ']).splitOn ':' ++ [' ' :: (Text.decimal n ++ [' ']), [' ']] := by
    have hassoc : file ++ " : " ++ Text.decimal n ++ " : " =
        (file ++ [' ']) ++ ':' :: ((' ' :: (Text.decimal n ++ [' '])) ++ ':' :: [' ']) := by
      simp [show " : ".toList = [' ', ':', ' '] from rfl]
    have hnumber : (' ' :: (Text.decimal n ++ [' '])).splitOn ':' =
        [' ' :: (Text.decimal n ++ [' '])] := by
      rw [List.splitOn_eq_splitOnP, List.splitOnP_eq_singleton hcolon]
    rw [hassoc, hcut, hcut, hnumber]
    rfl
  have hblank : isNumber (Text.trim [' ']) = false := by decide
  rw [placeLine?, hsplit, List.map_append, List.reverse_append]
  simp only [List.map_cons, List.map_nil, List.reverse_cons, List.reverse_nil, List.nil_append,
    List.cons_append, List.find?_cons, hblank, htrim, hnumber, Text.digitsValue_decimal, if_pos hn]

end Explanation

/-- A report as a compiler writes it: the place of an error with a message, and more lines. -/
structure CompilerReport where
  file : Text
  line : Nat
  message : Text
  more : List Text
  newline_notMem_file : '\n' ∉ file
  file_unmarked : ¬ Explanation.HasMarker file
  line_le : line ≤ Explanation.maxLine
  newline_notMem_message : '\n' ∉ message
  newline_notMem_more : ∀ l ∈ more, '\n' ∉ l
  more_unmarked : ∀ l ∈ more, ¬ Explanation.HasMarker l

namespace CompilerReport

open Explanation

/-- The place before the marker. -/
def place (r : CompilerReport) : Text :=
  r.file ++ " : " ++ Text.decimal r.line ++ " : "

/-- The line with the marker. -/
def headline (r : CompilerReport) : Text :=
  r.place ++ marker ++ " : " ++ r.message

/-- The lines of a report. -/
def lines (r : CompilerReport) : List Text :=
  r.headline :: r.more

/-- The text of a report. -/
def text (r : CompilerReport) : Text :=
  Text.unlines r.lines

/-- The lines of a report with their ends. -/
def endedLines (r : CompilerReport) : List Text :=
  r.lines.map (· ++ ['\n'])

theorem flatten_endedLines (r : CompilerReport) : r.endedLines.flatten = r.text :=
  (List.flatMap_def ..).symm

variable (r : CompilerReport)

theorem newline_notMem_place : '\n' ∉ r.place := by
  have hdecimal : '\n' ∉ Text.decimal r.line := Text.notMem_decimal rfl r.line
  simp only [place, List.mem_append, not_or]
  exact ⟨⟨⟨r.newline_notMem_file, by decide⟩, hdecimal⟩, by decide⟩

theorem newline_notMem_lines : ∀ l ∈ r.lines, '\n' ∉ l := by
  rw [lines, List.forall_mem_cons]
  refine ⟨?_, r.newline_notMem_more⟩
  simp only [headline, List.mem_append, not_or]
  exact ⟨⟨⟨r.newline_notMem_place, by decide⟩, by decide⟩, r.newline_notMem_message⟩

/-- The marker is found behind the place and not before. -/
theorem breakAt?_place_append (rest : Text) :
    Text.breakAt? marker (r.place ++ marker ++ rest) = some (r.place, rest) := by
  have hdecimal : 'E' ∉ Text.decimal r.line := Text.notMem_decimal rfl r.line
  have hbehind : 'E' ∉ ':' :: ' ' :: (Text.decimal r.line ++ " : ") := by
    simp only [List.mem_cons, List.mem_append, not_or]
    exact ⟨by decide, by decide, hdecimal, by decide⟩
  have hsplit : ∀ t : Text, r.place ++ t =
      r.file ++ ' ' :: (':' :: ' ' :: (Text.decimal r.line ++ " : ") ++ t) := by
    intro t
    simp [place, show " : ".toList = [' ', ':', ' '] from rfl]
  have hplace := hsplit []
  rw [List.append_nil, List.append_nil] at hplace
  rw [List.append_assoc, hsplit, ← List.append_assoc,
    Text.breakAt?_append_cons (by decide) (by decide) r.file_unmarked]
  conv_rhs => rw [hplace]
  exact congrArg (Option.map _) (Text.breakAt?_append hbehind _ rest)

/-- The first line of a report is its only one with the marker. -/
theorem isGroup_endedLines : IsGroup r.endedLines := by
  refine ⟨_, _, rfl, ?_, fun l hl => ?_⟩
  · exact ⟨r.place, " : " ++ r.message ++ ['\n'], by simp [headline]⟩
  · obtain ⟨line, hline, rfl⟩ := List.mem_map.1 hl
    have hbreak : '\n' ∉ marker := by decide
    rw [← isMarked_eq_false_iff, isMarked, Text.contains,
      Text.breakAt?_append_cons (by decide) hbreak (r.more_unmarked line hline)]
    rfl

/-- A report without the blanks at its end has the number of its line. -/
theorem lineOf?_trimEnd_text : lineOf? (Text.trimEnd r.text) = some r.line := by
  obtain ⟨rest, hrest⟩ : ∃ rest, Text.trimEnd r.text = r.place ++ marker ++ rest := by
    have htext : r.text = (r.place ++ marker) ++ (" : " ++ r.message ++ ['\n'] ++
        Text.unlines r.more) := by
      simp [text, lines, headline, Text.unlines_cons]
    rw [htext]
    refine Text.exists_trimEnd_append ?_ _
    rw [List.reverse_append]
    exact Text.endsAt_cons (by decide) _
  have hmarked : r.place ++ marker ≠ [] := by
    simp [marker]
  have hbreak : '\n' ∉ r.place ++ marker := fun h =>
    (List.mem_append.1 h).elim r.newline_notMem_place (by decide)
  have hlast : (r.place ++ marker).getLast? ≠ some '\r' := by
    rw [List.getLast?_append, show marker.getLast? = some 'R' from rfl, Option.some_or]
    decide
  obtain ⟨rest', ls, hlines⟩ := Text.exists_lines_append hmarked hbreak hlast rest
  have hfirst : isMarked (r.place ++ marker ++ rest') = true :=
    isMarked_iff.2 ⟨r.place, rest', rfl⟩
  have hfind : (Text.lines (Text.trimEnd r.text)).find? isMarked =
      some (r.place ++ marker ++ rest') := by
    rw [hrest, hlines, List.find?_cons_of_pos hfirst]
  rw [lineOf?, hfind, Option.bind_eq_bind, Option.bind_some, breakAt?_place_append,
    Option.bind_eq_bind, Option.bind_some]
  exact placeLine?_append r.line_le r.file

end CompilerReport

namespace Explanation

/-- The lines of reports behind each other are the lines of each of them. -/
theorem endedLines_flatMap_text (rs : List CompilerReport) :
    Text.endedLines (rs.flatMap CompilerReport.text) =
      (rs.map CompilerReport.endedLines).flatten := by
  have hended : (rs.map CompilerReport.endedLines).flatten =
      (rs.flatMap CompilerReport.lines).map (· ++ ['\n']) := by
    rw [List.map_flatMap, List.flatMap_def]
    rfl
  have htext : rs.flatMap CompilerReport.text =
      (rs.map CompilerReport.endedLines).flatten.flatten := by
    rw [List.flatten_flatten, List.map_map, List.flatMap_def]
    exact congrArg List.flatten
      (List.map_congr_left fun r _ => (r.flatten_endedLines).symm)
  rw [htext]
  refine Text.AreEnded.endedLines_flatten (hended ▸ Text.areEnded_map fun l hl => ?_)
  obtain ⟨r, -, hl⟩ := List.mem_flatMap.1 hl
  exact r.newline_notMem_lines l hl

/-- The output of a compiler that is made of reports is cut into them, and each is explained with
the number of its line. -/
theorem ofOutput_flatMap_text (c : RemedyCatalog) {rs : List CompilerReport} (hne : rs ≠ []) :
    (ofOutput c (rs.flatMap CompilerReport.text)).map (fun e => (e.report, e.line?)) =
      rs.map fun r => (Text.trimEnd r.text, some r.line) := by
  obtain ⟨first, later, rfl⟩ := List.exists_cons_of_ne_nil hne
  have hgroups : ∀ g ∈ first.endedLines :: later.map CompilerReport.endedLines, IsGroup g := by
    rw [List.forall_mem_cons, List.forall_mem_map]
    exact ⟨first.isGroup_endedLines, fun r _ => r.isGroup_endedLines⟩
  have hlines : Text.endedLines ((first :: later).flatMap CompilerReport.text) =
      [] ++ List.flatten (first.endedLines :: later.map CompilerReport.endedLines) :=
    endedLines_flatMap_text _
  have hpieces : pieces ((first :: later).flatMap CompilerReport.text) =
      (first :: later).map CompilerReport.text := by
    rw [pieces_of_groups hlines (List.forall_mem_nil _) hgroups, List.nil_append, ← List.map_cons,
      List.map_map]
    exact List.map_congr_left fun r _ => r.flatten_endedLines
  rw [ofOutput, reports, hpieces, List.map_map, List.map_map, List.map_map]
  refine List.map_congr_left fun r _ => ?_
  have hreport : (ofReport c (Text.trimEnd r.text)).report = Text.trimEnd r.text := by
    rw [ofReport]
    split <;> rfl
  have hline : (ofReport c (Text.trimEnd r.text)).line? = lineOf? (Text.trimEnd r.text) := by
    rw [ofReport]
    split <;> rfl
  exact Prod.ext hreport (hline.trans r.lineOf?_trimEnd_text)

/-- Reports with colons, digits and blanks in the names of their files, with a second marker in a
message, and with blanks at their ends. -/
def tangledReports : List CompilerReport :=
  [{ file := "a 7: b : 12\r"
     line := 30
     message := "ERROR : 4 : ERR\r"
     more := ["see x.dsp : 9 :", "", " "]
     newline_notMem_file := by decide
     file_unmarked := isMarked_eq_false_iff.1 (by decide)
     line_le := by decide
     newline_notMem_message := by decide
     newline_notMem_more := by decide
     more_unmarked := by
       simp only [← isMarked_eq_false_iff]
       decide },
   { file := ""
     line := maxLine
     message := ""
     more := []
     newline_notMem_file := by decide
     file_unmarked := isMarked_eq_false_iff.1 (by decide)
     line_le := Nat.le_refl maxLine
     newline_notMem_message := by decide
     newline_notMem_more := by decide
     more_unmarked := List.forall_mem_nil _ }]

/-- The theorem at these reports. -/
theorem ofOutput_flatMap_text_tangled :
    tangledReports ≠ [] ∧
    (ofOutput .standard (tangledReports.flatMap CompilerReport.text)).map
        (fun e => (e.report, e.line?)) =
      [("a 7: b : 12\r : 30 : ERROR : ERROR : 4 : ERR\r\nsee x.dsp : 9 :".toList, some 30),
        (" : 4294967295 : ERROR :".toList, some 4294967295)] := by
  have hne : tangledReports ≠ [] := List.cons_ne_nil _ _
  refine ⟨hne, (ofOutput_flatMap_text _ hne).trans ?_⟩
  rfl

end Explanation
end DspCheck
