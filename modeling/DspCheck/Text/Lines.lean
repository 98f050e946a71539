import DspCheck.Text.Basic

/-!
# Lines

A line feed ends a line, and one carriage return before it belongs to the line's end.  Three views
of the lines of a text are used:

* `rawLines`: the parts between line feeds, carriage returns kept, so that offsets can be counted;
* `lines`: the lines as they are read, without a line after a last line feed;
* `endedLines`: the lines with their ends kept, which together are the whole text.
-/

namespace DspCheck
namespace Text

/-- The parts of a text between its line feeds. -/
def rawLines (t : Text) : List Text :=
  t.splitOnP (· = '\n')

/-- A line without one carriage return at its end. -/
def dropReturn (line : Text) : Text :=
  if line.getLast? = some '\r' then line.dropLast else line

/-- The lines that parts between line feeds are: only the last part has no line feed after it. -/
def linesOf : List Text → List Text
  | [] => []
  | [last] => if last = [] then [] else [last]
  | line :: rest => dropReturn line :: linesOf rest

/-- The lines of a text. -/
def lines (t : Text) : List Text :=
  linesOf (rawLines t)

/-- The lines of a text with their ends. -/
def endedLines : Text → List Text
  | [] => []
  | c :: t =>
      if c = '\n' then [c] :: endedLines t
      else
        match endedLines t with
        | [] => [[c]]
        | line :: rest => (c :: line) :: rest

/-- Nothing is lost between the lines with their ends. -/
theorem flatten_endedLines (t : Text) : (endedLines t).flatten = t := by
  induction t with
  | nil => rfl
  | cons c t ih =>
      simp only [endedLines]
      split
      · simp [ih]
      · split
        · next h =>
            rw [h] at ih
            simpa using ih
        · next h =>
            rw [h] at ih
            simpa using ih

/-- The text of a list of lines, each with a line feed after it. -/
def unlines (ls : List Text) : Text :=
  ls.flatMap (· ++ ['\n'])

end Text
end DspCheck
