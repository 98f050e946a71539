import DspCheck.Catalog.Basic
import DspCheck.Remedy.Explanation
import DspCheck.Text.Lines

/-!
# What commands say

The lines that commands write about functions and about compiler errors.
-/

namespace DspCheck

namespace Text

/-- The lines of a text behind the same number of blanks. -/
def indented (blanks : Nat) (t : Text) : List Text :=
  (lines t).map (List.replicate blanks ' ' ++ ·)

end Text

namespace Explanation

/-- The lines that show a program under a title. -/
def sampleLines (title : Text) : Option Text → List Text
  | none => []
  | some sample => ("  " ++ title ++ ":") :: Text.indented 4 sample

/-- The part of the first line that names the line of the program. -/
def linePart : Option Nat → Text
  | none => []
  | some line => " (line " ++ Text.decimal line ++ ")"

/-- The part of the first line that names the remedy. -/
def remedyPart : Option Text → Text
  | none => []
  | some id => " [" ++ id ++ "]"

/-- The lines about a compiler error. -/
def lines (e : Explanation) : List Text :=
  [e.message ++ linePart e.line? ++ remedyPart e.remedyId?, "  cause: " ++ e.cause,
      "  fix: " ++ e.fix]
    ++ sampleLines "before" e.badSample? ++ sampleLines "after" e.goodSample?

/-- The text about compiler errors, an empty line between two of them. -/
def wording (es : List Explanation) : Text :=
  Text.join "\n" (es.map fun e => Text.unlines e.lines)

end Explanation

namespace Signature

/-- Lines under a title, after an empty line; none if there are no lines. -/
def titled (title : Text) (ls : List Text) : List Text :=
  if ls = [] then [] else [] :: title :: ls

/-- The line about a parameter. -/
def paramLine (entry : Text × Text) : Text :=
  "  " ++ entry.1 ++ ": " ++ entry.2

/-- The lines about a function. -/
def lines (s : Signature) : List Text :=
  [s.callForm,
      "  inputs: " ++ Text.decimal s.inputs ++ ", outputs: " ++ Text.decimal s.outputs]
    ++ (if s.description = [] then [] else [[], s.description])
    ++ titled "Parameters:" (s.paramDocs.entries.map paramLine)
    ++ (if s.sample = [] then [] else [] :: "Example:" :: Text.indented 2 s.sample)

/-- The first sentence of the description. -/
def summary (s : Signature) : Text :=
  match Text.breakAt? ". " s.description with
  | none => s.description
  | some (first, _) => first

/-- The line about a function in a list of functions. -/
def listLine (s : Signature) : Text :=
  s.callForm ++ "  " ++ s.summary

end Signature

namespace Catalog

/-- The number of names that are offered for one that is not found. -/
def offered : Nat := 5

/-- The full names that resemble a name with a dot. -/
def closeNames (c : Catalog) (name : Text) : List Text :=
  match Text.breakAt? "." name with
  | none => []
  | some (library, function) => c.suggestions library function offered

/-- The lines about a name that is not found. -/
def missingLines (c : Catalog) (name : Text) : List Text :=
  ("no function or library named " ++ Text.quoted name)
    :: (if c.closeNames name = [] then []
        else ["did you mean: " ++ Text.join ", " (c.closeNames name)])

/-- The lines about a function or a library, and whether there is one of that name. -/
def lookupLines (c : Catalog) (name : Text) : Bool × List Text :=
  match c.get? name with
  | some s => (true, s.lines)
  | none =>
      if c.hasLibrary name then (true, (c.functionsIn name).map Signature.listLine)
      else (false, c.missingLines name)

end Catalog
end DspCheck
