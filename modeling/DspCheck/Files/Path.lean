import DspCheck.Text.Utf8

/-!
# Paths

A path leads to a file or a directory, one name after the other, with slashes in between.  It starts
at the working directory, or at the root if a slash comes first.  Empty names and single dots stay
where they are; two dots lead back.

The path that a user writes is a text.  The names of a file system are bytes, which need not be one
(`FileName`).  So the text of names is what can be read of them (`FileName.toText`), and names that
are no text may have the same one.
-/

namespace DspCheck

/-- The name of a file or a directory: its bytes. -/
abbrev FileName := List UInt8

namespace FileName

/-- The name that a text is written for. -/
def ofText (t : Text) : FileName :=
  Text.bytes t

/-- What can be read of a name. -/
def toText (name : FileName) : Text :=
  Text.readBytes .start name

/-- What follows the last dot of a name.  A dot at the start of the name does not count. -/
def extension? (name : FileName) : Option FileName :=
  let ending := name.reverse.takeWhile (· ≠ 0x2E)
  if ending.length + 1 < name.length then some ending.reverse else none

/-- Whether a name comes before another one in the order of their bytes or equals it. -/
def le : FileName → FileName → Bool :=
  lexicallyLe fun a b => a ≤ b

end FileName

/-- The names on the way to a file or a directory. -/
abbrev Path := List FileName

namespace Path

/-- The way that texts are written for. -/
def ofTexts (names : List Text) : Path :=
  names.map FileName.ofText

/-- Whether a name between slashes leads nowhere. -/
def isStill (name : Text) : Bool :=
  name = [] || name = "."

/-- The name that leads back. -/
def back : Text := ".."

/-- The place where paths start that begin with a slash.  No name has a slash in it. -/
def root : FileName := .ofText "/"

/-- The place where a path starts. -/
def start (p : Text) : Path :=
  if p.head? = some '/' then [root] else []

/-- Whether a place is the working directory, one above it, or the root. -/
def isBase (p : Path) : Bool :=
  p = [root] || p.all (· = .ofText back)

/-- The place to which two dots lead from another one. -/
def above (p : Path) : Path :=
  if p = [root] then p
  else if isBase p then p ++ [.ofText back]
  else p.dropLast

/-- The names of a path. -/
def names (p : Text) : List Text :=
  p.splitOn '/'

/-- Whether a path ends with a slash, so that it can only be that of a directory. -/
def endsWithSlash (p : Text) : Bool :=
  p.getLast? = some '/'

/-- The names of a path without those that slashes at its end add. -/
def namesBeforeSlashes (p : Text) : List Text :=
  ((names p).reverse.dropWhile (· = [])).reverse

/-- The paths of all directories that lead to the last one of some names, and its own path, the
innermost one first.  The names come in reverse order. -/
def leadingPaths : List Text → List Text
  | [] => []
  | [name] => if name = [] then [] else [name]
  | name :: outer =>
      if isStill name then leadingPaths outer
      else Text.join "/" (name :: outer).reverse :: leadingPaths outer

/-- The path of a directory and of those that lead to it, the innermost one first. -/
def withAncestors (p : Text) : List Text :=
  leadingPaths (names p).reverse

/-- The paths of the directories that lead to a file, the innermost one first. -/
def ancestors (p : Text) : List Text :=
  (withAncestors p).drop 1

/-- The path of names, as far as it can be read. -/
def toText (p : Path) : Text :=
  Text.join "/" (p.map FileName.toText)

/-- Whether a path comes before another one or equals it: name by name in the order of their
bytes. -/
def le : Path → Path → Bool :=
  lexicallyLe FileName.le

/-- The way from a directory to something below it. -/
def below? : Path → Path → Option Path
  | [], p => some p
  | _ :: _, [] => none
  | d :: ds, s :: ss => if d = s then below? ds ss else none

end Path
end DspCheck
