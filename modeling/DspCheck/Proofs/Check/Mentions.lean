import DspCheck.Check.Division
import DspCheck.Proofs.Text.Alone

/-!
# Words that a line mentions

Guard words and import directives are looked for on masked lines.  They may be any text, not only
identifiers.

* A line mentions a word if the word stands alone at an occurrence that is taken.  This finds every
  word that stands alone if and only if the word does not overlap itself
  (`forall_hasWord_iff`).
* The words of the standard rules do not overlap themselves.  So a line mentions one of them if and
  only if one stands alone on it (`Line.mentions_standard_iff`).
* A word such as `a.a` overlaps itself, and it is missed behind an occurrence that does not stand
  alone (`not_forall_hasWord_iff_standsAlone`).
-/

namespace DspCheck

/-! ## All words -/

/-- A word is found at the occurrences that are taken.  These are enough for every text if and only
if the word does not overlap itself. -/
theorem forall_hasWord_iff {word : Text} (hword : word ≠ []) :
    (∀ t, Text.hasWord word t = true ↔
        ∃ b r, Text.StandsAlone word t b r ∧ Text.Taken word t b) ∧
      ((∀ t, Text.hasWord word t = true ↔ ∃ b r, Text.StandsAlone word t b r) ↔
        ¬ Text.OverlapsAtBreak word) := by
  refine ⟨Text.hasWord_iff_taken hword, ?_, Text.hasWord_iff hword⟩
  intro hall hoverlap
  obtain ⟨t, b, r, halone, hmissed⟩ := Text.exists_hasWord_eq_false hoverlap
  rw [(hall t).2 ⟨b, r, halone⟩] at hmissed
  cases hmissed

/-- Two words with a dot: one is found wherever it stands alone, the other is not. -/
theorem forall_hasWord_iff_dotted :
    (∀ t, Text.hasWord "ma.EPSILON" t = true ↔ ∃ b r, Text.StandsAlone "ma.EPSILON" t b r) ∧
      ¬ ∀ t, Text.hasWord "a.a" t = true ↔ ∃ b r, Text.StandsAlone "a.a" t b r := by
  have hepsilon := forall_hasWord_iff (show ("ma.EPSILON" : Text) ≠ [] by decide)
  have hoverlap := forall_hasWord_iff (show ("a.a" : Text) ≠ [] by decide)
  refine ⟨hepsilon.2.2 (by decide), fun hall => ?_⟩
  exact hoverlap.2.1 hall (by decide)

/-- A program with a word that overlaps itself: behind its first occurrence, which a letter touches,
it stands alone. -/
def dottedWord : Text :=
  "process = xa.a.a / g;"

/-- So not every word that stands alone on a line is found there. -/
theorem not_forall_hasWord_iff_standsAlone :
    ¬ ∀ source word : Text, word ≠ [] → ∀ l ∈ Line.ofSource source,
      (Text.hasWord word l.code = true ↔ ∃ b r, Text.StandsAlone word l.code b r) := by
  intro h
  have hline : Line.ofSource dottedWord = [⟨1, 0, 0, dottedWord, dottedWord⟩] := by
    decide
  have hfound := h dottedWord "a.a" (by decide) ⟨1, 0, 0, dottedWord, dottedWord⟩
    (by rw [hline]; exact List.mem_cons_self)
  have halone : Text.StandsAlone "a.a" dottedWord "process = xa." " / g;" :=
    ⟨by decide, by decide, by decide⟩
  exact absurd (hfound.2 ⟨_, _, halone⟩) (by decide)

namespace Line

/-! ## Words that do not overlap themselves -/

/-- A line mentions one of some words that do not overlap themselves if and only if one of them
stands alone on it. -/
theorem mentions_iff {words : List Text}
    (h : ∀ word ∈ words, word ≠ [] ∧ ¬ Text.OverlapsAtBreak word) (l : Line) :
    l.mentions words = true ↔ ∃ word ∈ words, ∃ b r, Text.StandsAlone word l.code b r := by
  rw [mentions, List.any_eq_true]
  refine exists_congr fun word => and_congr_right fun hmem => ?_
  obtain ⟨hword, hoverlap⟩ := h word hmem
  exact Text.hasWord_iff hword hoverlap l.code

/-- So it is with the words of the standard rules. -/
theorem mentions_standard_iff {words : List Text}
    (h : words = Rules.standard.guards ∨ words = Rules.standard.imports) (l : Line) :
    l.mentions words = true ↔ ∃ word ∈ words, ∃ b r, Text.StandsAlone word l.code b r := by
  rcases h with rfl | rfl
  · exact mentions_iff (by decide) l
  · exact mentions_iff (by decide) l

end Line

end DspCheck
