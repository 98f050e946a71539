import DspCheck.Proofs.Text.Lines
import DspCheck.Proofs.Text.Run
import DspCheck.Proofs.Text.Word
import DspCheck.Report.Plain

/-!
# The layout of plain reports

A reader finds the parts of a plain report by how its lines start: the result stands on the first
line, each error has a line with its number, and each list stands under a title.  Messages,
suggestions and samples say anything, but they never start a line: something stands before each of
them, and the lines of samples are indented.  So the first character of a line tells it from headers
of errors (`filter_errorLines`) and from titles (`head?_of_mem_front`, `head?_of_marked`).

Main statement: `isLaidOut_plainReport`.
-/

namespace DspCheck
namespace Verdict

variable {remedies : RemedyCatalog} {v : Verdict} {d : Diagnostic}

/-- No message and no suggestion of a verdict is broken into lines. -/
structure IsUnbroken (v : Verdict) : Prop where
  message : ∀ d ∈ v.errors ++ v.warnings, '\n' ∉ d.message
  suggestion : ∀ d ∈ v.errors ++ v.warnings, ∀ s ∈ d.suggestion?, '\n' ∉ s
  suggestions : ∀ s ∈ v.suggestions, '\n' ∉ s

/-- The line that the report of an error starts with; the first error has number 0 here. -/
def errorHeader (number : Nat) (d : Diagnostic) : Text :=
  "ERROR " ++ Text.decimal (number + 1) ++ " (" ++ location d ++ "): " ++ d.message

/-- Items are listed under a title in some lines. -/
structure IsListed (title : Text) (items ls : List Text) : Prop where
  /-- The title is one of the lines if there are items, and only once. -/
  count : ls.count title = if items = [] then 0 else 1
  /-- The items follow the title, and a blank line follows them, or nothing. -/
  listed : items ≠ [] → ∃ before after, ls = before ++ title :: (items ++ after) ∧
    (after = [] ∨ after.head? = some [])
  marked : ∀ item ∈ items, ("- " : Text) <+: item

/-- Lines are laid out as a report of a verdict. -/
structure IsLaidOut (v : Verdict) (ls : List Text) : Prop where
  /-- The first line says whether there are errors, and how many errors and warnings. -/
  result : ls.head? = some ("VALIDATION " ++ (if v.errors = [] then "PASSED" else "FAILED" : Text)
    ++ ": " ++ Text.decimal v.errors.length ++ " error(s), " ++ Text.decimal v.warnings.length
    ++ " warning(s)")
  /-- The lines that start as headers of errors are those of the errors. -/
  errors : ls.filter (Text.startsWith "ERROR ") = v.errors.mapIdx errorHeader
  warnings : IsListed "WARNINGS:" (v.warnings.map warningLine) ls
  suggestions : IsListed "SUGGESTIONS:" (v.suggestions.map adviceLine) ls

/-! ## Lines of each kind -/

theorem cases_of_mem_errorLines {number : Nat} {l : Text} (h : l ∈ errorLines remedies number d) :
    l = [] ∨ l = errorHeader number d ∨ l ∈ suggestionLines d.suggestion? ∨
      l ∈ sampleLines (goodSample? remedies d) := by
  rw [errorLines, List.mem_cons, List.mem_cons, List.mem_append] at h
  exact h

theorem cases_of_mem_sectionLines {title : Text} {items : List Text} {l : Text}
    (h : l ∈ sectionLines title items) : l = [] ∨ l = title ∨ l ∈ items := by
  rw [sectionLines] at h
  split at h
  · cases h
  · simpa using h

/-! ## Lines without line feeds -/

theorem newline_notMem_decimal (n : Nat) : '\n' ∉ Text.decimal n :=
  Text.notMem_decimal rfl n

theorem newline_notMem_location (d : Diagnostic) : '\n' ∉ location d := by
  have hcode : '\n' ∉ codePart d.code? := by
    cases d.code? with
    | none =>
        exact List.not_mem_nil
    | some code =>
        cases code <;> decide
  rw [location]
  split
  · rw [List.mem_append, not_or]
    exact ⟨by decide, hcode⟩
  · simp [hcode, newline_notMem_decimal]

theorem newline_notMem_resultLine (v : Verdict) : '\n' ∉ v.resultLine := by
  have hword : '\n' ∉ (if v.isValid then "PASSED" else "FAILED" : Text) := by
    split <;> decide
  unfold resultLine
  simp only [List.mem_append, hword, newline_notMem_decimal, or_false]
  decide

theorem newline_notMem_of_mem_sampleLines {sample? : Option Text} {l : Text}
    (h : l ∈ sampleLines sample?) : '\n' ∉ l := by
  cases sample? with
  | none =>
      cases h
  | some sample =>
      rcases List.mem_cons.1 h with rfl | h
      · decide
      · obtain ⟨line, hline, rfl⟩ := List.mem_map.1 h
        simp [Text.newline_notMem_of_mem_lines hline]

theorem newline_notMem_of_mem_suggestionLines {suggestion? : Option Text}
    (hsuggestion : ∀ s ∈ suggestion?, '\n' ∉ s) {l : Text} (h : l ∈ suggestionLines suggestion?) :
    '\n' ∉ l := by
  cases suggestion? with
  | none =>
      cases h
  | some s =>
      cases List.mem_singleton.1 h
      simp [hsuggestion s rfl]

theorem newline_notMem_of_mem_errorLines {number : Nat} (hmessage : '\n' ∉ d.message)
    (hsuggestion : ∀ s ∈ d.suggestion?, '\n' ∉ s) {l : Text}
    (h : l ∈ errorLines remedies number d) : '\n' ∉ l := by
  rcases cases_of_mem_errorLines h with rfl | rfl | h | h
  · exact List.not_mem_nil
  · unfold errorHeader
    simp [hmessage, newline_notMem_decimal, newline_notMem_location]
  · exact newline_notMem_of_mem_suggestionLines hsuggestion h
  · exact newline_notMem_of_mem_sampleLines h

theorem newline_notMem_warningLine (hmessage : '\n' ∉ d.message)
    (hsuggestion : ∀ s ∈ d.suggestion?, '\n' ∉ s) : '\n' ∉ warningLine d := by
  have hpart : '\n' ∉ suggestionPart d.suggestion? := by
    cases hs : d.suggestion? with
    | none =>
        exact List.not_mem_nil
    | some s =>
        simp [suggestionPart, hsuggestion s hs]
  unfold warningLine
  simp [hmessage, hpart, newline_notMem_location]

theorem newline_notMem_of_mem_plainLines (hv : v.IsUnbroken) {l : Text}
    (h : l ∈ v.plainLines remedies) : '\n' ∉ l := by
  rw [plainLines, List.mem_append, List.mem_append, List.mem_append, List.mem_singleton] at h
  rcases h with ((rfl | herror) | hwarning) | hadvice
  · exact newline_notMem_resultLine v
  · obtain ⟨ls, hls, hl⟩ := List.mem_flatten.1 herror
    obtain ⟨k, hk, rfl⟩ := List.mem_mapIdx.1 hls
    have hd := List.mem_append_left v.warnings (List.getElem_mem hk)
    exact newline_notMem_of_mem_errorLines (hv.message _ hd) (hv.suggestion _ hd) hl
  · rcases cases_of_mem_sectionLines hwarning with rfl | rfl | hl
    · exact List.not_mem_nil
    · decide
    · obtain ⟨d, hd, rfl⟩ := List.mem_map.1 hl
      have hd := List.mem_append_right v.errors hd
      exact newline_notMem_warningLine (hv.message d hd) (hv.suggestion d hd)
  · rcases cases_of_mem_sectionLines hadvice with rfl | rfl | hl
    · exact List.not_mem_nil
    · decide
    · obtain ⟨s, hs, rfl⟩ := List.mem_map.1 hl
      simp [adviceLine, hv.suggestions s hs]

/-- The lines of a report are those that it is made of, and an empty one behind the last line
feed. -/
theorem rawLines_plainReport (hv : v.IsUnbroken) (remedies : RemedyCatalog) :
    Text.rawLines (v.plainReport remedies) = v.plainLines remedies ++ [[]] :=
  Text.rawLines_unlines fun _ => newline_notMem_of_mem_plainLines hv

/-! ## How lines start -/

theorem head?_of_mem_sampleLines {sample? : Option Text} {l : Text}
    (h : l ∈ sampleLines sample?) : l.head? = some ' ' := by
  cases sample? with
  | none =>
      cases h
  | some sample =>
      rcases List.mem_cons.1 h with rfl | h
      · rfl
      · obtain ⟨line, -, rfl⟩ := List.mem_map.1 h
        rfl

theorem head?_of_mem_suggestionLines {suggestion? : Option Text} {l : Text}
    (h : l ∈ suggestionLines suggestion?) : l.head? = some ' ' := by
  cases suggestion? with
  | none =>
      cases h
  | some suggestion =>
      rw [List.mem_singleton.1 h]
      rfl

theorem startsWith_error_eq_false {l : Text} (h : l.head? ≠ some 'E') :
    Text.startsWith "ERROR " l = false := by
  rw [← Bool.not_eq_true, Text.startsWith_iff]
  rintro ⟨rest, rfl⟩
  exact h rfl

/-- Of the lines about an error, the header is the only one that starts as a header. -/
theorem filter_errorLines (remedies : RemedyCatalog) (number : Nat) (d : Diagnostic) :
    (errorLines remedies number d).filter (Text.startsWith "ERROR ") = [errorHeader number d] := by
  have hheader : Text.startsWith "ERROR " (errorHeader number d) = true := by
    rw [Text.startsWith_iff]
    unfold errorHeader
    simp only [List.append_assoc]
    exact List.prefix_append _ _
  have hrest : (suggestionLines d.suggestion? ++ sampleLines (goodSample? remedies d)).filter
      (Text.startsWith "ERROR ") = [] := by
    refine List.filter_eq_nil_iff.2 fun l hl => ?_
    have hhead : l.head? = some ' ' := by
      rcases List.mem_append.1 hl with hl | hl
      · exact head?_of_mem_suggestionLines hl
      · exact head?_of_mem_sampleLines hl
    rw [startsWith_error_eq_false (by rw [hhead]; decide)]
    decide
  rw [errorLines, List.filter_cons_of_neg (by decide)]
  exact (List.filter_cons_of_pos hheader).trans (by rw [hrest])

/-- How the lines of a report start, apart from the titles of its lists. -/
def leads : List (Option Char) :=
  [none, some 'V', some 'E', some ' ', some '-']

/-- The lines before the lists. -/
def front (remedies : RemedyCatalog) (v : Verdict) : List Text :=
  v.resultLine :: (v.errors.mapIdx (errorLines remedies)).flatten

theorem head?_resultLine (v : Verdict) : v.resultLine.head? = some 'V' := by
  unfold resultLine
  rfl

theorem head?_of_mem_front {l : Text} (h : l ∈ v.front remedies) :
    l.head? ∈ leads := by
  rcases List.mem_cons.1 h with rfl | h
  · rw [head?_resultLine]
    decide
  · obtain ⟨ls, hls, hl⟩ := List.mem_flatten.1 h
    obtain ⟨k, hk, rfl⟩ := List.mem_mapIdx.1 hls
    rcases cases_of_mem_errorLines hl with rfl | rfl | hl | hl
    · decide
    · change some 'E' ∈ leads
      decide
    · rw [head?_of_mem_suggestionLines hl]
      decide
    · rw [head?_of_mem_sampleLines hl]
      decide

theorem filter_front (remedies : RemedyCatalog) (v : Verdict) :
    (v.front remedies).filter (Text.startsWith "ERROR ") = v.errors.mapIdx errorHeader := by
  have hresult : ¬ Text.startsWith "ERROR " v.resultLine = true := by
    rw [startsWith_error_eq_false (by rw [head?_resultLine]; decide)]
    decide
  rw [front, List.filter_cons_of_neg hresult, List.mapIdx_eq_zipIdx_map,
    List.mapIdx_eq_zipIdx_map, ← List.flatMap_def, List.filter_flatMap, List.map_eq_flatMap]
  exact List.flatMap_congr fun e _ => filter_errorLines remedies e.2 e.1

/-! ## Lists under their titles -/

theorem head?_sectionLines (title : Text) (items : List Text) :
    sectionLines title items = [] ∨ (sectionLines title items).head? = some [] := by
  rw [sectionLines]
  split
  · exact Or.inl rfl
  · exact Or.inr rfl

theorem head?_of_marked {item : Text} (h : ("- " : Text) <+: item) : item.head? = some '-' := by
  obtain ⟨rest, rfl⟩ := h
  rfl

section Lists

variable {title other : Text} {items before after : List Text}

theorem notMem_of_leads (htitle : title.head? ∉ leads)
    (hmarked : ∀ item ∈ items, ("- " : Text) <+: item) : title ∉ items := by
  intro h
  rw [head?_of_marked (hmarked title h)] at htitle
  exact htitle (by decide)

theorem ne_nil_of_leads (htitle : title.head? ∉ leads) : title ≠ [] := by
  rintro rfl
  exact htitle (by decide)

theorem notMem_sectionLines (htitle : title.head? ∉ leads) (hne : title ≠ other)
    (hmarked : ∀ item ∈ items, ("- " : Text) <+: item) : title ∉ sectionLines other items := by
  intro h
  rcases cases_of_mem_sectionLines h with hnil | hother | hitem
  · exact ne_nil_of_leads htitle hnil
  · exact hne hother
  · exact notMem_of_leads htitle hmarked hitem

theorem filter_sectionLines (htitle : title.head? ∉ leads)
    (hmarked : ∀ item ∈ items, ("- " : Text) <+: item) :
    (sectionLines title items).filter (Text.startsWith "ERROR ") = [] := by
  refine List.filter_eq_nil_iff.2 fun l hl => ?_
  have hhead : l.head? ≠ some 'E' := by
    rcases cases_of_mem_sectionLines hl with rfl | rfl | hitem
    · decide
    · intro h
      rw [h] at htitle
      exact htitle (by decide)
    · rw [head?_of_marked (hmarked l hitem)]
      decide
  rw [startsWith_error_eq_false hhead]
  decide

/-- Items that are marked are listed where no other line is the title. -/
theorem isListed_append (htitle : title.head? ∉ leads)
    (hmarked : ∀ item ∈ items, ("- " : Text) <+: item) (hbefore : title ∉ before)
    (hafter : title ∉ after) (hend : after = [] ∨ after.head? = some []) :
    IsListed title items (before ++ sectionLines title items ++ after) := by
  constructor
  · rw [List.count_append, List.count_append, List.count_eq_zero.2 hbefore,
      List.count_eq_zero.2 hafter, sectionLines]
    split
    · rfl
    · rw [List.count_cons_of_ne (Ne.symm (ne_nil_of_leads htitle)), List.count_cons_self,
        List.count_eq_zero.2 (notMem_of_leads htitle hmarked)]
  · intro hne
    refine ⟨before ++ [[]], after, ?_, hend⟩
    rw [sectionLines, if_neg hne]
    simp
  · exact hmarked

end Lists

theorem marked_warningLine (d : Diagnostic) : ("- " : Text) <+: warningLine d := by
  unfold warningLine
  simp only [List.append_assoc]
  exact List.prefix_append _ _

/-- A report is laid out as such, whatever its messages, suggestions and samples say. -/
theorem isLaidOut_plainReport (hv : v.IsUnbroken) (remedies : RemedyCatalog) :
    ∃ ls, Text.rawLines (v.plainReport remedies) = ls ++ [[]] ∧ v.IsLaidOut ls := by
  refine ⟨_, rawLines_plainReport hv remedies, ?_⟩
  have hlines : v.plainLines remedies = v.front remedies ++
      sectionLines "WARNINGS:" (v.warnings.map warningLine) ++
      sectionLines "SUGGESTIONS:" (v.suggestions.map adviceLine) := rfl
  have hwarnings : ∀ item ∈ v.warnings.map warningLine, ("- " : Text) <+: item :=
    List.forall_mem_map.2 fun d _ => marked_warningLine d
  have hadvice : ∀ item ∈ v.suggestions.map adviceLine, ("- " : Text) <+: item :=
    List.forall_mem_map.2 fun s _ => List.prefix_append _ s
  have hfront : ∀ title : Text, title.head? ∉ leads → title ∉ v.front remedies :=
    fun title htitle h => htitle (head?_of_mem_front h)
  have hwarningsTitle : ("WARNINGS:" : Text).head? ∉ leads := by decide
  have hadviceTitle : ("SUGGESTIONS:" : Text).head? ∉ leads := by decide
  rw [hlines]
  constructor
  · unfold front resultLine isValid
    cases v.errors <;> rfl
  · rw [List.filter_append, List.filter_append, filter_front,
      filter_sectionLines hwarningsTitle hwarnings, filter_sectionLines hadviceTitle hadvice,
      List.append_nil, List.append_nil]
  · exact isListed_append hwarningsTitle hwarnings (hfront _ hwarningsTitle)
      (notMem_sectionLines hwarningsTitle (by decide) hadvice) (head?_sectionLines _ _)
  · have hbefore : ("SUGGESTIONS:" : Text) ∉ v.front remedies ++
        sectionLines "WARNINGS:" (v.warnings.map warningLine) := by
      rw [List.mem_append, not_or]
      exact ⟨hfront _ hadviceTitle, notMem_sectionLines hadviceTitle (by decide) hwarnings⟩
    have hlisted := isListed_append hadviceTitle hadvice hbefore List.not_mem_nil (Or.inl rfl)
    rw [List.append_nil] at hlisted
    exact hlisted

/-- A verdict with texts that look like lines of a report. -/
def deceptive : Verdict :=
  ⟨[{ Diagnostic.ofCode .unknownFunction "WARNINGS:" with
      line := 3, suggestion? := some "ERROR 2 (line 4): another one" }],
    [Diagnostic.plain .warning "SUGGESTIONS:"], ["", "ERROR 2 (line 4): another one"]⟩

/-- A remedy with a sample that looks like the lines of a report. -/
def deceptiveRemedies : RemedyCatalog :=
  .ofList "made up" [("unknown_function", {
    rule := ⟨"undefined symbol"⟩, message := [], cause := [], fix := [], badSample? := none,
    goodSample? := some "ERROR 2 (line 4): another one\n\nWARNINGS:\r\n- none" })]

theorem isLaidOut_plainReport_deceptive :
    deceptive.IsUnbroken ∧ ∃ ls,
      Text.rawLines (deceptive.plainReport deceptiveRemedies) = ls ++ [[]] ∧
      deceptive.IsLaidOut ls ∧
      ls = ["VALIDATION FAILED: 1 error(s), 1 warning(s)".toList, "",
        "ERROR 1 (line 3, E100): WARNINGS:", "  Suggestion: ERROR 2 (line 4): another one",
        "  Corrected example:", "    ERROR 2 (line 4): another one", "    ", "    WARNINGS:",
        "    - none", "", "WARNINGS:", "- whole program: SUGGESTIONS:", "", "SUGGESTIONS:", "- ",
        "- ERROR 2 (line 4): another one"] := by
  have hv : deceptive.IsUnbroken := ⟨by decide, by decide, by decide⟩
  obtain ⟨ls, hlines, hlaid⟩ := isLaidOut_plainReport hv deceptiveRemedies
  refine ⟨hv, ls, hlines, hlaid, ?_⟩
  have hparts : ls = deceptive.plainLines deceptiveRemedies :=
    List.append_cancel_right (hlines.symm.trans (rawLines_plainReport hv deceptiveRemedies))
  rw [hparts]
  decide +kernel

end Verdict
end DspCheck
