import DspCheck.Check.Validation
import DspCheck.Command.Arguments
import DspCheck.Command.Artifacts
import DspCheck.Command.Configuration
import DspCheck.Command.Notice
import DspCheck.Command.Wording
import DspCheck.Report.Document
import DspCheck.Report.Plain

/-!
# Running commands

A command reads the configuration, does its work with the files that it is given access to, and says
how it ended.  It writes nothing before all that it needs has been read.

The outcome of the work is shown in the end.  If that fails, the command fails, but what it has
written stays.
-/

namespace DspCheck

/-- How a command ended. -/
structure Outcome where
  /-- Whether the program is valid, or what was looked up is there. -/
  success : Bool
  /-- What is drawn for the user before the text. -/
  notices : List Notice
  /-- The text for the user. -/
  text : Text
  /-- What was left out of a catalog. -/
  warnings : List BuildWarning

namespace Outcome

/-- The outcome that is a text. -/
def ofText (success : Bool) (text : Text) : Outcome :=
  ⟨success, [], text, []⟩

/-- All that is shown to the user. -/
def shown (o : Outcome) : Text :=
  Text.unlines (o.notices.flatMap Notice.lines) ++ o.text

/-- The last line about a program that was read from a file. -/
def verdictLine (input : Text) (v : Verdict) : Text :=
  let warnings := Text.decimal v.warnings.length ++ " warning(s)"
  if v.isValid then input ++ ": valid, " ++ warnings
  else input ++ ": invalid, " ++ Text.decimal v.errors.length ++ " error(s), " ++ warnings

/-- The outcome that shows a verdict. -/
def ofVerdict (format : ReportFormat) (remedies : RemedyCatalog) (input source : Text)
    (v : Verdict) : Outcome :=
  match format with
  | .text => {
      success := v.isValid
      notices := (v.errors ++ v.warnings).map (Notice.ofDiagnostic source)
      text := Text.unlines (v.suggestions.map ("suggestion: ".toList ++ ·) ++ [verdictLine input v])
      warnings := [] }
  | .llm => ofText v.isValid (v.plainReport remedies)
  | .json => ofText v.isValid (v.toJson ++ "\n")

/-- The outcome of writing a catalog of functions. -/
def ofCatalog (output : Text) (b : CatalogBuild) : Outcome where
  success := true
  notices := []
  text := "Wrote " ++ Text.decimal b.catalog.functions.size ++ " functions from "
    ++ Text.decimal b.catalog.libraries.size ++ " libraries to " ++ output ++ " ("
    ++ Text.decimal b.warnings.length ++ " warning(s))\n"
  warnings := b.warnings

/-- The outcome of writing a catalog of remedies. -/
def ofRemedies (output : Text) (b : RemedyBuild) : Outcome where
  success := true
  notices := []
  text := "Wrote " ++ Text.decimal b.catalog.remedies.size ++ " patterns and "
    ++ Text.decimal b.catalog.sightings.length ++ " raw errors to " ++ output ++ "\n"
  warnings := b.warnings

end Outcome

namespace Command

variable {m : Type → Type} [Monad m]

/-- The remedies in a file, or the standard ones. -/
def remediesOf (files : FileAccess m) (path? : Option Text) : ExceptT Fault m RemedyCatalog :=
  match path? with
  | some path => ExceptT.adapt .catalog (files.readArtifact RemedyCatalog.ofJson path)
  | none => return RemedyCatalog.standard

/-- The catalog in a file. -/
def catalogOf (files : FileAccess m) (path : Text) : ExceptT Fault m Catalog :=
  ExceptT.adapt .catalog (files.readArtifact Catalog.ofJson path)

/-- The file of the catalog: the one that the user names, or else the configured one. -/
def catalogPath (explicit? : Option Text) (c : Configuration) : ExceptT Fault m Text :=
  match explicit?.or c.catalog? with
  | some path => return path
  | none => throw .missingCatalog

/-- A text that has to be there. -/
def textOf (content : Except FileError Text) : ExceptT Fault m Text :=
  match content with
  | .ok t => return t
  | .error e => throw (.file e)

/-- The verdict about a source text. -/
def verdictOf (c : Catalog) (rules : Rules) (source : Text) : ExceptT Fault m Verdict :=
  match DspCheck.validate c rules source with
  | .ok v => return v
  | .error f => throw (.program f)

/-- Building a catalog of functions. -/
def workOfBuildCatalog (files : FileAccess m) (directory output : Text) :
    ExceptT Fault m Outcome :=
  ExceptT.adapt .catalog do
    let b ← files.buildCatalog LibrarySettings.standard directory
    files.writeArtifact output b.catalog.toJson
    return .ofCatalog output b

/-- Building a catalog of remedies. -/
def workOfBuildRemedies (files : FileAccess m) (directory? : Option Text) (output : Text) :
    ExceptT Fault m Outcome :=
  ExceptT.adapt .catalog do
    let b ← files.buildRemedies ScanSettings.standard directory?
    files.writeArtifact output b.catalog.toJson
    return .ofRemedies output b

/-- Checking a program. -/
def workOfValidate (files : FileAccess m) (c : Configuration) (input : Text)
    (catalog? : Option Text) (format : ReportFormat) : ExceptT Fault m Outcome := do
  let catalog ← catalogOf files (← catalogPath catalog? c)
  let remedies ← remediesOf files c.remedies?
  let source ← textOf (← files.readText input)
  return .ofVerdict format remedies input source (← verdictOf catalog c.rules source)

/-- Explaining compiler errors, from a file or from the input. -/
def workOfExplain (files : FileAccess m) (c : Configuration) (input? : Option Text) :
    ExceptT Fault m Outcome := do
  let content ← match input? with
    | some path => files.readText path
    | none => decodeText <$> files.input
  let output ← textOf content
  let remedies ← remediesOf files c.remedies?
  return .ofText true (Explanation.wording (Explanation.ofOutput remedies output))

/-- Looking up a function or a library. -/
def workOfLookup (files : FileAccess m) (c : Configuration) (name : Text) (catalog? : Option Text) :
    ExceptT Fault m Outcome := do
  let catalog ← catalogOf files (← catalogPath catalog? c)
  let found := catalog.lookupLines name
  return .ofText found.1 (Text.unlines found.2)

/-- The work of a command under a configuration. -/
def work (files : FileAccess m) (c : Configuration) : Command → ExceptT Fault m Outcome
  | buildCatalog directory output => workOfBuildCatalog files directory output
  | buildRemedies directory? output => workOfBuildRemedies files directory? output
  | validate input catalog? format => workOfValidate files c input catalog? format
  | explain input? => workOfExplain files c input?
  | lookup name catalog? => workOfLookup files c name catalog?

end Command

/-- Showing an outcome.  There may be nothing to show. -/
def FileAccess.present {m : Type → Type} [Monad m] (files : FileAccess m) (o : Outcome) :
    ExceptT Fault m Outcome := do
  if o.shown = [] then return o
  match ← files.print o.shown with
  | .ok () => return o
  | .error e => throw (.file e)

namespace Invocation

variable {m : Type → Type} [Monad m]

/-- The work that a user asks for. -/
def work (files : FileAccess m) (i : Invocation) : ExceptT Fault m Outcome := do
  i.command.work files (← Configuration.load files i.configuration?)

/-- Doing what a user asks for, and showing the outcome. -/
def run (files : FileAccess m) (i : Invocation) : ExceptT Fault m Outcome := do
  files.present (← i.work files)

end Invocation
end DspCheck
