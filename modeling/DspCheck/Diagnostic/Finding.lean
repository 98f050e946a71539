import DspCheck.Catalog.Basic
import DspCheck.Diagnostic.Basic
import DspCheck.Number.Binary64
import DspCheck.Source.Program

/-!
# Findings

A finding is what a check has found, with the data that its message and its suggestion are made of.

A remark is a finding with its place on a line.  A check yields the remarks on each line, and the
line makes diagnostics of them.
-/

namespace DspCheck

/-- What a check has found. -/
inductive Finding
  /-- A known library has no such function; some of its functions have similar names. -/
  | unknownFunction (library name : Text) (similar : List Text)
  /-- A function is called under its full name with the wrong number of arguments. -/
  | argumentCount (fullName : Text) (signature : Signature) (given : Nat)
  /-- A name is bound to a member of itself. -/
  | recursiveDefinition (name : Text)
  /-- A name is bound to a string. -/
  | stringAssignment (name : Text)
  /-- The name of the program's output is not bound. -/
  | missingEntryPoint (name : Text)
  /-- A short name is no library; these are the known ones. -/
  | unknownLibrary (library : Text) (known : List Text)
  /-- A library is used, but none is imported. -/
  | missingImport (library : Text)
  /-- A delay constant exceeds the limit. -/
  | oversizedDelay (samples : Binary64) (limit : Nat)
  deriving DecidableEq

namespace Finding

/-- The kind of problem. -/
def code : Finding → Code
  | unknownFunction .. => .unknownFunction
  | argumentCount .. => .argumentCount
  | recursiveDefinition .. => .recursiveDefinition
  | stringAssignment .. => .stringAssignment
  | missingEntryPoint .. => .missingEntryPoint
  | unknownLibrary .. => .unknownLibrary
  | missingImport .. => .missingImport
  | oversizedDelay .. => .oversizedDelay

/-- What is wrong. -/
def message : Finding → Text
  | unknownFunction library name _ =>
      "unknown function " ++ Text.quoted (Ident.qualified library name)
  | argumentCount fullName signature given =>
      Text.quoted fullName ++ " expects " ++ Text.decimal signature.argCount ++ " argument(s) ("
        ++ Text.join ", " signature.args ++ ") but got " ++ Text.decimal given
  | recursiveDefinition name =>
      Text.quoted name ++ " is defined in terms of itself ("
        ++ Text.quoted (name ++ " = " ++ name ++ ".") ++ "), causing endless evaluation"
  | stringAssignment name =>
      "string literal assigned to " ++ Text.quoted name
        ++ "; strings are only valid as metadata or UI labels"
  | missingEntryPoint name =>
      "missing entry point: no top-level " ++ Text.quoted name ++ " definition"
  | unknownLibrary library _ => "unknown library prefix " ++ Text.quoted library
  | missingImport library =>
      "library prefix " ++ Text.quoted library ++ " is used but no library is imported"
  | oversizedDelay samples limit =>
      "delay of " ++ samples.toText ++ " samples exceeds the " ++ Text.decimal limit
        ++ "-sample limit"

/-- What to do about it. -/
def suggestion? : Finding → Option Text
  | unknownFunction library name [] =>
      some ("no function named " ++ Text.quoted name ++ " in the " ++ Text.quoted library
        ++ " library; check its documentation")
  | unknownFunction _ _ similar =>
      some ("did you mean " ++ Text.join ", " (similar.map Text.quoted) ++ "?")
  | argumentCount _ signature _ => some signature.callForm
  | recursiveDefinition name =>
      some ("rename the binding, e.g. " ++ Text.quoted ("my_" ++ name ++ " = " ++ name ++ "...")
        ++ ", so it does not shadow the " ++ Text.quoted name ++ " library")
  | stringAssignment name =>
      some ("use " ++ Text.quoted ("declare " ++ name ++ " \"...\";") ++ " for metadata")
  | missingEntryPoint name =>
      some ("define the program output, e.g. " ++ Text.quoted (name ++ " = _;"))
  | unknownLibrary _ [] => none
  | unknownLibrary _ known => some ("known prefixes: " ++ Text.join ", " known)
  | missingImport _ =>
      some ("add " ++ Text.quoted "import(\"stdfaust.lib\");" ++ " at the top of the file")
  | oversizedDelay _ limit =>
      some ("use a delay of at most " ++ Text.decimal limit ++ " samples, e.g. "
        ++ Text.quoted ("de.delay(" ++ Text.decimal limit ++ ", n)") ++ " with a bounded "
        ++ Text.quoted "n")

/-- The message about a finding, without a place. -/
def diagnostic (f : Finding) : Diagnostic :=
  { Diagnostic.ofCode f.code f.message with suggestion? := f.suggestion? }

end Finding

/-- A finding with its place on a line. -/
structure Remark where
  finding : Finding
  /-- The position of the first byte that the finding is about. -/
  start : Nat
  /-- The position behind the last byte. -/
  stop : Nat
  deriving DecidableEq

namespace Remark

/-- The diagnostic of a remark on a line. -/
def diagnostic (l : Line) (r : Remark) : Diagnostic :=
  l.place r.finding.diagnostic r.start r.stop

end Remark
end DspCheck
