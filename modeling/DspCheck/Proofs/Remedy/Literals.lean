import DspCheck.Proofs.Text.Trim
import DspCheck.Remedy.Scan
import Mathlib.Data.List.Infix

/-!
# The strings on a line of source

A text is written as a string literal with a backslash before each quote and each backslash
(`written`).  The reader undoes that and stands outside behind the closing quote
(`readFrom_written`).  It passes over whatever starts neither a literal nor a comment
(`readFrom_glue`).

Main statement: the strings on a line that is made of literals and glue are the texts that have been
written (`onLine_written`).
-/

namespace DspCheck
namespace Literals

/-! ## Strings as literals -/

/-- A character inside of a string literal. -/
def escape (c : Char) : Text :=
  if c = '\\' ∨ c = '"' then ['\\', c] else [c]

/-- A text as a string literal. -/
def written (t : Text) : Text :=
  '"' :: (t.flatMap escape ++ ['"'])

/-- What stands around literals: no other literal and no comment starts in it. -/
structure IsGlue (t : Text) : Prop where
  quote : '"' ∉ t
  apostrophe : '\'' ∉ t
  comment : ¬ "//" <:+: t

theorem isGlue_iff {t : Text} : IsGlue t ↔ '"' ∉ t ∧ '\'' ∉ t ∧ ¬ "//" <:+: t :=
  ⟨fun h => ⟨h.quote, h.apostrophe, h.comment⟩, fun h => ⟨h.1, h.2.1, h.2.2⟩⟩

instance : DecidablePred IsGlue := fun _ => decidable_of_iff' _ isGlue_iff

/-- The reader undoes what is written for a character. -/
theorem readFrom_escape (content : Text) (c : Char) (t : Text) :
    readFrom (.string false content) (escape c ++ t) =
      readFrom (.string false (content ++ [c])) t := by
  by_cases hc : c = '\\' ∨ c = '"'
  · have hsame : unescape c = c := by
      rcases hc with rfl | rfl <;> rfl
    rw [escape, if_pos hc, List.cons_append, List.cons_append, List.nil_append]
    simp [readFrom, hsame]
  · rw [not_or] at hc
    rw [escape, if_neg (not_or.2 hc), List.singleton_append]
    simp [readFrom, hc.1, hc.2]

theorem readFrom_flatMap_escape (content t s : Text) :
    readFrom (.string false content) (t.flatMap escape ++ s) =
      readFrom (.string false (content ++ t)) s := by
  induction t generalizing content with
  | nil =>
      rw [List.flatMap_nil, List.nil_append, List.append_nil]
  | cons c t ih =>
      rw [List.flatMap_cons, List.append_assoc, readFrom_escape, ih, List.append_assoc,
        List.singleton_append]

/-- The reader stands outside again behind a literal. -/
theorem readFrom_written (t s : Text) :
    readFrom .outside (written t ++ s) = finish t ++ readFrom .outside s := by
  have hopen : readFrom .outside (written t ++ s) =
      readFrom (.string false []) (t.flatMap escape ++ '"' :: s) := by
    simp [written, readFrom]
  rw [hopen, readFrom_flatMap_escape, List.nil_append]
  simp [readFrom]

/-- The reader passes over glue.  What follows it must not make a comment of a slash at its end. -/
theorem readFrom_glue {g t : Text} (hg : IsGlue g) (ht : t.head? ≠ some '/') :
    readFrom .outside (g ++ t) = readFrom .outside t := by
  induction g with
  | nil =>
      rfl
  | cons c g ih =>
      have hquote := hg.quote
      have happostrophe := hg.apostrophe
      rw [List.mem_cons, not_or] at hquote happostrophe
      have hslash : ¬ (c = '/' && (g ++ t).head? = some '/') = true := by
        rw [Bool.and_eq_true, decide_eq_true_eq, decide_eq_true_eq]
        rintro ⟨rfl, hhead⟩
        cases g with
        | nil =>
            exact ht hhead
        | cons d g =>
            cases hhead
            exact hg.comment ⟨[], g, rfl⟩
      have hrest : IsGlue g := {
        quote := hquote.2
        apostrophe := happostrophe.2
        comment := fun h => hg.comment (h.trans (List.suffix_cons c g).isInfix) }
      rw [List.cons_append, readFrom, if_neg (Ne.symm happostrophe.1), if_neg (Ne.symm hquote.1),
        if_neg hslash, ih hrest]

theorem finish_eq (t : Text) :
    finish t = if Text.isAllBlank t then [] else [Text.trim t] := by
  rw [finish]
  exact if_congr Text.trim_eq_nil_iff rfl rfl

/-- The strings on a line that is made of literals and of glue around them are the texts that have
been written and are not blank, without the blanks at their ends. -/
theorem onLine_written {first : Text} {parts : List (Text × Text)} (hfirst : IsGlue first)
    (hparts : ∀ p ∈ parts, IsGlue p.2) :
    onLine (first ++ parts.flatMap fun p => written p.1 ++ p.2) =
      ((parts.map Prod.fst).filter fun t => !Text.isAllBlank t).map Text.trim := by
  rw [onLine]
  induction parts generalizing first with
  | nil =>
      exact readFrom_glue hfirst (by simp)
  | cons p parts ih =>
      rw [List.forall_mem_cons] at hparts
      rw [List.flatMap_cons, List.append_assoc, readFrom_glue hfirst (by simp [written]),
        readFrom_written, ih hparts.1 hparts.2, finish_eq, List.map_cons]
      by_cases hblank : Text.isAllBlank p.1 = true <;> simp [hblank]

/-- Backslashes before quotes, what looks like a comment or a character inside of literals, and
slashes and backslashes around them. -/
theorem onLine_written_tangled :
    onLine "f(\"\\\\\", / \" it's // \\\"so\\\"\\\\\" /\"\t \") \\\"\\\\n\";" =
      ["\\".toList, "it's // \"so\"\\".toList, "\\n".toList] := by
  let parts : List (Text × Text) :=
    [("\\", ", / "), (" it's // \"so\"\\", " /"), ("\t ", ") \\"), ("\\n", ";")]
  have hfirst : IsGlue "f(" := by decide
  have hparts : ∀ p ∈ parts, IsGlue p.2 := by decide
  exact onLine_written hfirst hparts

/-! ## All strings on a line -/

theorem of_mem_finish {content t : Text} (h : t ∈ finish content) : t ≠ [] ∧ Text.trim t = t := by
  rw [finish] at h
  split at h
  · cases h
  · next hne =>
      rw [List.mem_singleton] at h
      rw [h]
      exact ⟨hne, Text.trim_trim content⟩

theorem of_mem_readFrom {place : Place} {line t : Text} (h : t ∈ readFrom place line) :
    t ≠ [] ∧ Text.trim t = t := by
  fun_induction readFrom place line with
  | case1 | case4 =>
      cases h
  | case12 _ _ _ _ _ ih =>
      rcases List.mem_append.1 h with hfinish | hrest
      · exact of_mem_finish hfinish
      · exact ih hrest
  | case2 | case3 | case5 | case6 | case7 | case8 | case9 | case10 | case11 | case13 =>
      rename_i ih
      exact ih h

/-- The strings on a line are not empty and have no blanks at their ends. -/
theorem of_mem_onLine {line t : Text} (h : t ∈ onLine line) : t ≠ [] ∧ Text.trim t = t :=
  of_mem_readFrom h

end Literals
end DspCheck
