import DspCheck.Remedy.Basic
import DspCheck.Text.Lines

/-!
# Explaining compiler errors

The output of a compiler is cut into *reports*.  A report starts with a line that contains the
error marker, and the lines without it belong to the report before them; those at the very start
belong to the first report.  Each report is explained by the first remedy for it.
-/

namespace DspCheck

/-- A compiler error with its explanation. -/
structure Explanation where
  /-- The report of the compiler. -/
  report : Text
  /-- The id of the remedy, if there is one for the error. -/
  remedyId? : Option Text
  message : Text
  cause : Text
  fix : Text
  badSample? : Option Text
  goodSample? : Option Text
  /-- The line of the program that the compiler names. -/
  line? : Option Nat
  deriving DecidableEq, Repr

namespace Explanation

/-- The text that marks an error in the output of the compiler. -/
def marker : Text := "ERROR"

/-- The message about an error without a remedy. -/
def genericMessage : Text := "Unrecognized compiler error"

/-- The advice about an error without a remedy. -/
def genericFix : Text :=
  "Check the spelling of identifiers and library functions, make sure the libraries you use are "
    ++ "imported, and verify that signal counts match across composition operators."

/-- The greatest line number that is reported. -/
def maxLine : Nat := Nat.pow 2 32 - 1

/-- Whether a line of output starts a report. -/
def isMarked (line : Text) : Bool :=
  Text.contains marker line

/-- Whether a part of a place may be a line number. -/
def isNumber (t : Text) : Bool :=
  t ≠ [] && t.all Char.isDigit

/-- The line number in the place that precedes the marker on a line, as in `file : 12 : `: the last
part between colons that is a number. -/
def placeLine? (place : Text) : Option Nat :=
  let parts := (place.splitOn ':').map Text.trim
  match parts.reverse.find? isNumber with
  | none => none
  | some digits =>
      let n := Text.digitsValue digits
      if n ≤ maxLine then some n else none

/-- The line number of a report, from its first marked line. -/
def lineOf? (report : Text) : Option Nat := do
  let line ← (Text.lines report).find? isMarked
  let (place, _) ← Text.breakAt? marker line
  placeLine? place

/-- The explanation of one error. -/
def ofReport (c : RemedyCatalog) (report : Text) : Explanation :=
  match c.firstFor? report with
  | some (id, r) =>
      ⟨report, some id, r.message, r.cause, r.fix, r.badSample?, r.goodSample?, lineOf? report⟩
  | none =>
      ⟨report, none, genericMessage, report, genericFix, none, none, lineOf? report⟩

/-- Lines of output, with their ends, as the lines before the first marked one and the groups
that marked lines start. -/
def groups : List Text → List Text × List (List Text)
  | [] => ([], [])
  | line :: lines =>
      let (lead, later) := groups lines
      if isMarked line then ([], (line :: lead) :: later) else (line :: lead, later)

/-- The pieces of the output of a compiler, one for each report; a text without marked lines is one
piece. -/
def pieces (output : Text) : List Text :=
  match groups (Text.endedLines output) with
  | (lead, []) => [lead.flatten]
  | (lead, first :: later) => (lead ++ first).flatten :: later.map List.flatten

/-- The reports in the output of a compiler. -/
def reports (output : Text) : List Text :=
  (pieces output).map Text.trimEnd

/-- The explanations of all errors in the output of a compiler. -/
def ofOutput (c : RemedyCatalog) (output : Text) : List Explanation :=
  (reports output).map (ofReport c)

/-- Nothing is lost between the groups. -/
theorem flatten_groups (lines : List Text) :
    (groups lines).1 ++ (groups lines).2.flatten = lines := by
  induction lines with
  | nil => rfl
  | cons line lines ih =>
      simp only [groups]
      split <;> simp [ih]

/-- Nothing is lost between the pieces. -/
theorem flatten_pieces (output : Text) : (pieces output).flatten = output := by
  have h := congrArg List.flatten (flatten_groups (Text.endedLines output))
  rw [Text.flatten_endedLines] at h
  simp only [pieces]
  generalize groups (Text.endedLines output) = g at h
  obtain ⟨lead, later⟩ := g
  cases later with
  | nil => simpa using h
  | cons first later => simpa [List.flatten_flatten] using h

end Explanation
end DspCheck
