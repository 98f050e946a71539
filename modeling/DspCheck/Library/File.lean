import DspCheck.Catalog.Basic
import DspCheck.Library.DocBlock
import DspCheck.Library.Naming
import DspCheck.Library.Usage

/-!
# Library files

A library file is read into the signatures of the functions that it documents.  Without a short
name a file with documented functions is left out.
-/

namespace DspCheck

/-- A problem of a file that does not stop the build of a catalog. -/
structure BuildWarning where
  file : Text
  /-- The line that the problem is about. -/
  line? : Option Nat
  message : Text
  deriving DecidableEq, Repr

namespace BuildWarning

/-- The warning on one line. -/
def display (w : BuildWarning) : Text :=
  match w.line? with
  | none => w.file ++ ": " ++ w.message
  | some line => w.file ++ ":" ++ Text.decimal line ++ ": " ++ w.message

/-- The warning of something that was left out. -/
def of? {α : Type} : Except BuildWarning α → Option BuildWarning
  | .ok _ => none
  | .error w => some w

end BuildWarning

/-- How much of the documentation a catalog keeps. -/
structure DocLimits where
  /-- The greatest length of a description, in scalars. -/
  description : Nat
  /-- The greatest length of a sample, in scalars. -/
  sample : Nat
  deriving DecidableEq, Repr

namespace DocLimits

/-- The usual limits. -/
def standard : DocLimits :=
  ⟨300, 500⟩

end DocLimits

/-- What a library file documents. -/
structure LibraryFile where
  /-- Its short name; empty if it needs none. -/
  library : Text
  functions : List Signature
  warnings : List BuildWarning
  deriving DecidableEq

namespace Text

/-- At most `limit` scalars of a text, without blanks at the end if some were cut off. -/
def truncate (limit : Nat) (t : Text) : Text :=
  if limit < t.length then trimEnd (t.take limit) else t

end Text

namespace DocBlock

/-- The shape of the documented function, if its usage can be read. -/
def shape? (b : DocBlock) : Option Shape :=
  if b.usage = [] then
    some (.ofArgs ((b.definition?.map (Shape.argsOfDefinition b.name)).getD []))
  else Shape.ofUsage? b.name b.usage

/-- The signature of the documented function. -/
def signature (limits : DocLimits) (library : Text) (b : DocBlock) : Signature :=
  let shape := b.shape?.getD (.ofArgs [])
  { Signature.ofShape library b.name shape.args shape.inputs shape.outputs with
    description := Text.truncate limits.description (Text.join " " b.description)
    paramDocs := b.paramDocs
    sample := Text.truncate limits.sample (Text.join "\n" b.sample) }

/-- The warning about a usage that cannot be read. -/
def warning? (file : Text) (b : DocBlock) : Option BuildWarning :=
  if b.shape?.isSome then none
  else
    some ⟨file, some b.line,
      "could not parse usage of " ++ Text.quoted b.name ++ "; arity not enforced"⟩

end DocBlock

namespace OddHeader

/-- The warning about a header that names no function. -/
def warning (file : Text) (h : OddHeader) : BuildWarning :=
  ⟨file, some h.line, "skipped block with unrecognized header " ++ Text.quoted h.text⟩

end OddHeader

namespace LibraryFile

/-- The name of a file without its directories. -/
def baseName (file : Text) : Text :=
  Text.afterLast '/' file

/-- The short name of a library: the one that it announces, or else the one that another file gives
it. -/
def nameOf? (file source : Text) (aliases : OrderedMap Text Text) : Option Text :=
  (Library.declaredName? source).or (aliases.get? (baseName file))

/-- The warning about a file that documents functions, but has no short name. -/
def unnamed (file : Text) : BuildWarning :=
  ⟨file, none, "no library prefix declared"⟩

/-- What the blocks and headers of a file are read as. -/
def ofParts (limits : DocLimits) (file library : Text) (blocks : List DocBlock)
    (oddHeaders : List OddHeader) : LibraryFile where
  library
  functions := blocks.map (DocBlock.signature limits library)
  warnings := oddHeaders.map (OddHeader.warning file) ++ blocks.filterMap (DocBlock.warning? file)

/-- What a library file documents, or why it is left out. -/
def read (limits : DocLimits) (file source : Text) (aliases : OrderedMap Text Text) :
    Except BuildWarning LibraryFile :=
  let sections := DocSection.ofSource source
  let blocks := sections.filterMap DocSection.block?
  let oddHeaders := sections.filterMap DocSection.oddHeader?
  match nameOf? file source aliases with
  | some library => .ok (ofParts limits file library blocks oddHeaders)
  | none =>
      if blocks = [] then .ok (ofParts limits file [] blocks oddHeaders)
      else .error (unnamed file)

end LibraryFile
end DspCheck
