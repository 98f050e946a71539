import DspCheck.Library.DocLine
import DspCheck.OrderedMap
import DspCheck.Text.Lines

/-!
# Documentation of functions

Headers cut a library into *sections*, from a header up to the next one.  A section with a function
name documents that function.  Its documentation goes on up to the first line of code, or up to
the first blank line or rule outside a fence of backquotes.  The first line of code of the section
is the definition of the function if it begins with its name.

The documentation has four topics.  It begins with the description.  Lines such as `#### Usage`,
`Where:` and `#### Example` go over to the others.
-/

namespace DspCheck

/-- What a part of the documentation is about. -/
inductive Topic
  | description
  /-- How the function is called. -/
  | usage
  /-- What its parameters mean. -/
  | parameters
  /-- A program that uses it. -/
  | sample
  deriving DecidableEq, Repr

/-- What has been read of the documentation of a function. -/
structure DocDraft where
  topic : Topic
  /-- Whether a fence of backquotes is open. -/
  fenced : Bool
  /-- Whether some topic was announced, which ends the description for good. -/
  described : Bool
  description : List Text
  usage : List Text
  paramDocs : OrderedMap Text Text
  sample : List Text

/-- The documentation of a function. -/
structure DocBlock where
  name : Text
  /-- The line of its header. -/
  line : Nat
  description : List Text
  usage : List Text
  paramDocs : OrderedMap Text Text
  sample : List Text
  /-- The line of code that defines the function. -/
  definition? : Option Text
  deriving DecidableEq

/-- A header that names no function. -/
structure OddHeader where
  line : Nat
  text : Text
  deriving DecidableEq, Repr

/-- The lines from a header up to the next one. -/
structure DocSection where
  /-- The line of the header. -/
  line : Nat
  header : DocLine
  body : List DocLine
  deriving DecidableEq

namespace DocDraft

/-- The documentation before its first line. -/
def start : DocDraft :=
  ⟨.description, false, false, [], [], OrderedMap.empty, []⟩

/-- The topic that a line announces.  Other headings lead back to the description, which has ended
by then. -/
def announced? (line : Text) : Option Topic :=
  let line := Text.toLower line
  if Text.startsWith "#### usage" line || line = "usage:" then some .usage
  else if Text.startsWith "where:" line || line = "where" then some .parameters
  else if Text.startsWith "#### example" line then some .sample
  else if Text.startsWith "####" line then some .description
  else none

/-- The name and what follows it in a line about a parameter, from behind its bullet on.  A name
without backquotes ends before the first colon. -/
def bulletParts? (t : Text) : Option (Text × Text) :=
  match Text.after? "`" t with
  | some quoted => Text.breakAt? "`" quoted
  | none => (Text.breakAt? ":" t).map fun p => (p.1, ':' :: p.2)

/-- The parameter and its meaning in a line such as ``* `fc`: cutoff frequency``.  The colons of one
run behind the name are left out, and no others. -/
def bullet? (line : Text) : Option (Text × Text) := do
  let rest ← (Text.after? "*" line).or (Text.after? "-" line)
  let (name, doc) ← bulletParts? (Text.trimStart rest)
  let name := Text.trim name
  let doc := Text.trim ((Text.trimStart doc).dropWhile (· = ':'))
  if name = [] then none else some (name, doc)

/-- The meaning of a parameter with another line of it. -/
def continued (line doc : Text) : Text :=
  if doc = [] then line else doc ++ ' ' :: line

/-- The meanings of the parameters with another line. -/
def readParameter (line : Text) (docs : OrderedMap Text Text) : OrderedMap Text Text :=
  match bullet? line with
  | some (name, doc) => docs.insert name doc
  | none => if line = [] then docs else docs.modifyLast (continued line)

/-- The documentation with another comment under the topic that it is in. -/
def readUnderTopic (text : Text) (d : DocDraft) : DocDraft :=
  let line := Text.trim text
  match d.topic with
  | .description =>
      if d.described || line = [] || Text.startsWith "####" line then d
      else { d with description := d.description ++ [line] }
  | .usage => if line = [] then d else { d with usage := d.usage ++ [line] }
  | .parameters => { d with paramDocs := readParameter line d.paramDocs }
  | .sample => if d.fenced then { d with sample := d.sample ++ [Text.trimEnd text] } else d

/-- The documentation with another comment. -/
def read (text : Text) (d : DocDraft) : DocDraft :=
  let line := Text.trim text
  if Text.startsWith "```" line then { d with fenced := !d.fenced }
  else if d.fenced then d.readUnderTopic text
  else
    match announced? line with
    | some topic => { d with topic, described := true }
    | none => d.readUnderTopic text

/-- The documentation at the start of some lines. -/
def readAll (d : DocDraft) : List DocLine → DocDraft
  | [] => d
  | .comment text :: lines => readAll (d.read text) lines
  | .blank :: lines => if d.fenced then readAll d lines else d
  | .rule :: lines => if d.fenced then readAll d lines else d
  | .code _ :: _ => d
  | .header _ :: _ => d
  | .oddHeader _ :: _ => d

end DocDraft

namespace DocSection

/-- The sections of lines of which the first has a given number. -/
def cut (line : Nat) : List DocLine → List DocSection
  | [] => []
  | l :: ls =>
      if l.isHeader then ⟨line, l, ls.takeWhile (!·.isHeader)⟩ :: cut (line + 1) ls
      else cut (line + 1) ls

/-- Whether a line of code begins the definition of a name. -/
def defines (name code : Text) : Bool :=
  match Text.after? name code with
  | some (c :: _) => c = '(' || c = '=' || Text.isBlank c
  | _ => false

/-- The documentation in a section with a function name. -/
def block? (s : DocSection) : Option DocBlock :=
  match s.header with
  | .header name =>
      let d := DocDraft.start.readAll s.body
      some {
        name
        line := s.line
        description := d.description
        usage := d.usage
        paramDocs := d.paramDocs
        sample := d.sample
        definition? := (s.body.findSome? DocLine.code?).filter (defines name) }
  | _ => none

/-- The header of a section without a function name. -/
def oddHeader? (s : DocSection) : Option OddHeader :=
  match s.header with
  | .oddHeader text => some ⟨s.line, text⟩
  | _ => none

/-- The sections of a library. -/
def ofSource (source : Text) : List DocSection :=
  cut 1 ((Text.lines source).map DocLine.classify)

end DocSection
end DspCheck
