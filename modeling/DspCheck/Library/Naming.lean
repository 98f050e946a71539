import DspCheck.OrderedMap
import DspCheck.Text.Classes
import DspCheck.Text.Lines
import DspCheck.Text.Search

/-!
# Names of libraries

A library says its short name in a comment, as in `// Its official prefix is fi.` or
`// prefix: fi`.  Otherwise another file may give it one: `fi = library("filters.lib");`.
-/

namespace DspCheck
namespace Library

/-- What follows the first occurrence of a small text, whatever the case of its letters. -/
def afterFolded? (s t : Text) : Option Text :=
  (Text.breakAt? s (Text.toLower t)).map fun p => t.drop (p.1.length + s.length)

/-- What follows the announcement of a short name in a comment. -/
def announcement? (comment : Text) : Option Text :=
  (afterFolded? "prefix is" comment).or (afterFolded? "prefix:" comment)

/-- The quotation marks that may precede a short name. -/
def isQuote (c : Char) : Bool :=
  c = '`' || c = '"' || c = '\''

/-- The short name that a comment announces. -/
def announcedName? (comment : Text) : Option Text := do
  let rest ← announcement? comment
  let name := ((Text.trimStart rest).dropWhile isQuote).takeWhile Ident.isPart
  if Ident.isIdent name then some name else none

/-- The short name that a library announces. -/
def declaredName? (source : Text) : Option Text :=
  (Text.lines source).findSome? fun line =>
    (Text.after? "//" (Text.trim line)).bind announcedName?

/-- The file and the short name in a line such as `fi = library("filters.lib");`. -/
def alias? (line : Text) : Option (Text × Text) := do
  let (left, right) ← Text.breakAt? "=" line
  let rest ← Text.after? "library" (Text.trimStart right)
  let rest ← Text.after? "(" (Text.trimStart rest)
  let quoted ← Text.after? "\"" (Text.trimStart rest)
  let (file, _) ← Text.breakAt? "\"" quoted
  let name := Text.trim left
  if Ident.isIdent name then some (file, name) else none

/-- The files and the short names that a library gives them. -/
def aliases (source : Text) : List (Text × Text) :=
  (Text.lines source).filterMap alias?

end Library
end DspCheck
