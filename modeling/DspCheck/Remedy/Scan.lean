import DspCheck.Library.Build
import DspCheck.Remedy.Standard
import DspCheck.Text.Lines
import DspCheck.Text.Utf8

/-!
# Looking for error messages in the sources of a compiler

The string literals on a line of source are read with their escapes undone, apart from line breaks
and tabs, which become blanks.  Character literals are passed over, and a comment ends the line.  A
literal that contains the marker is taken for an error message.
-/

namespace DspCheck
namespace Literals

/-- Where the reader of literals stands. -/
inductive Place
  | outside
  /-- In a character literal, behind a backslash or not. -/
  | character (escaped : Bool)
  /-- In a string with some content so far, behind a backslash or not. -/
  | string (escaped : Bool) (content : Text)
  deriving DecidableEq, Repr

/-- The character that an escaped one stands for. -/
def unescape (c : Char) : Char :=
  if c = 'n' || c = 't' then ' ' else c

/-- A string that has ended, if it is not blank. -/
def finish (content : Text) : List Text :=
  if Text.trim content = [] then [] else [Text.trim content]

/-- The strings that end on a line from a given place on. -/
def readFrom : Place → Text → List Text
  | _, [] => []
  | .outside, c :: t =>
      if c = '\'' then readFrom (.character false) t
      else if c = '"' then readFrom (.string false []) t
      else if c = '/' && t.head? = some '/' then []
      else readFrom .outside t
  | .character escaped, c :: t =>
      if escaped then readFrom (.character false) t
      else if c = '\\' then readFrom (.character true) t
      else if c = '\'' then readFrom .outside t
      else readFrom (.character false) t
  | .string escaped content, c :: t =>
      if escaped then readFrom (.string false (content ++ [unescape c])) t
      else if c = '\\' then readFrom (.string true content) t
      else if c = '"' then finish content ++ readFrom .outside t
      else readFrom (.string false (content ++ [c])) t

/-- The strings on a line that are not blank, without the blanks around them. -/
def onLine (line : Text) : List Text :=
  readFrom .outside line

end Literals

/-- Where error messages are looked for, and how they are known. -/
structure ScanSettings where
  /-- What follows the last dot in the names of source files. -/
  fileTypes : List Text
  /-- What an error message contains. -/
  marker : Text
  deriving DecidableEq, Repr

namespace ScanSettings

/-- The usual settings. -/
def standard : ScanSettings :=
  ⟨["cpp", "hh", "h", "hpp"], "ERROR"⟩

end ScanSettings

namespace Sighting

/-- The name of a source file, with slashes only. -/
def fileName (f : FoundFile) : Text :=
  f.name.map fun c => if c = '\\' then '/' else c

/-- The messages on a line of a file; the first line has number 0 here. -/
def onLine (marker file : Text) (number : Nat) (line : Text) : List Sighting :=
  ((Literals.onLine line).filter (Text.contains marker)).map
    (⟨·, file ++ ":" ++ Text.decimal (number + 1)⟩)

/-- The messages in the text of a file. -/
def inText (marker file text : Text) : List Sighting :=
  ((Text.lines text).mapIdx (onLine marker file)).flatten

/-- The messages in a file, or the warning that it cannot be read. -/
def inFile (marker : Text) (f : FoundFile) : Except BuildWarning (List Sighting) :=
  match f.content with
  | .ok bytes => .ok (inText marker (fileName f) (Text.ofUtf8Lossy bytes))
  | .error e => .error ⟨fileName f, none, "unreadable: " ++ e.message⟩

/-- The sightings without those of a text that was seen before. -/
def distinct (ss : List Sighting) : List Sighting :=
  ss.foldl (fun seen s => if seen.any (·.text = s.text) then seen else seen ++ [s]) []

end Sighting

/-- A catalog of remedies with what was left out of it. -/
structure RemedyBuild where
  catalog : RemedyCatalog
  warnings : List BuildWarning
  deriving DecidableEq

namespace RemedyBuild

/-- The standard remedies, and no sightings. -/
def standard : RemedyBuild :=
  ⟨RemedyCatalog.standard, []⟩

/-- The standard remedies with the sightings in the files of a directory. -/
def ofFiles (settings : ScanSettings) (directory : Text) (files : List FoundFile) : RemedyBuild :=
  let read := (files.filter (·.hasType settings.fileTypes)).map (Sighting.inFile settings.marker)
  let seen := (read.filterMap Except.toOption).flatten
  ⟨{ RemedyCatalog.ofList directory RemedyCatalog.standardEntries with
      sightings := Sighting.distinct seen },
    read.filterMap BuildWarning.of?⟩

end RemedyBuild
end DspCheck
