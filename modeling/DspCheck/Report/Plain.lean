import DspCheck.Check.Validation
import DspCheck.Remedy.Basic
import DspCheck.Text.Lines

/-!
# Plain reports

A plain report says a verdict in full, for a reader that is a program: the result on the first
line, then each error with its suggestion and the corrected sample of its remedy, then the warnings
and the suggestions.
-/

namespace DspCheck
namespace Verdict

/-- The part of a place that names the kind of problem. -/
def codePart : Option Code → Text
  | none => []
  | some code => ", " ++ code.tag

/-- The place of a diagnostic. -/
def location (d : Diagnostic) : Text :=
  if d.line = 0 then "whole program" ++ codePart d.code?
  else "line " ++ Text.decimal d.line ++ codePart d.code?

/-- The corrected sample for a diagnostic. -/
def goodSample? (remedies : RemedyCatalog) (d : Diagnostic) : Option Text := do
  let code ← d.code?
  let id ← code.remedyId?
  let remedy ← remedies.get? id
  remedy.goodSample?

/-- The first line of a report. -/
def resultLine (v : Verdict) : Text :=
  "VALIDATION " ++ (if v.isValid then "PASSED" else "FAILED" : Text) ++ ": "
    ++ Text.decimal v.errors.length ++ " error(s), " ++ Text.decimal v.warnings.length
    ++ " warning(s)"

/-- The lines that suggest what to do about an error. -/
def suggestionLines : Option Text → List Text
  | none => []
  | some suggestion => ["  Suggestion: " ++ suggestion]

/-- The lines that show a corrected sample. -/
def sampleLines : Option Text → List Text
  | none => []
  | some sample => "  Corrected example:" :: (Text.lines sample).map ("    ".toList ++ ·)

/-- The lines about an error; the first error has number 0 here. -/
def errorLines (remedies : RemedyCatalog) (number : Nat) (d : Diagnostic) : List Text :=
  [] :: ("ERROR " ++ Text.decimal (number + 1) ++ " (" ++ location d ++ "): " ++ d.message)
    :: (suggestionLines d.suggestion? ++ sampleLines (goodSample? remedies d))

/-- The part of a warning that suggests what to do about it. -/
def suggestionPart : Option Text → Text
  | none => []
  | some suggestion => " (" ++ suggestion ++ ")"

/-- The line about a warning. -/
def warningLine (d : Diagnostic) : Text :=
  "- " ++ location d ++ ": " ++ d.message ++ suggestionPart d.suggestion?

/-- The line about a suggestion. -/
def adviceLine (suggestion : Text) : Text :=
  "- " ++ suggestion

/-- The lines of a list under its title; none if the list is empty. -/
def sectionLines (title : Text) (items : List Text) : List Text :=
  if items = [] then [] else [] :: title :: items

/-- The lines of the plain report of a verdict. -/
def plainLines (remedies : RemedyCatalog) (v : Verdict) : List Text :=
  [v.resultLine] ++ (v.errors.mapIdx (errorLines remedies)).flatten
    ++ sectionLines "WARNINGS:" (v.warnings.map warningLine)
    ++ sectionLines "SUGGESTIONS:" (v.suggestions.map adviceLine)

/-- The plain report of a verdict. -/
def plainReport (remedies : RemedyCatalog) (v : Verdict) : Text :=
  Text.unlines (v.plainLines remedies)

end Verdict
end DspCheck
