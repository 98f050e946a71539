import DspCheck.Command.Artifacts
import DspCheck.Toml.Reader

/-!
# Configuration

The configuration says where the catalogs are and how the rules are set.  It is read from the file
that the user names, or else from the first of the usual files that is there.
-/

namespace DspCheck

/-- What a user has configured. -/
structure Configuration where
  /-- The file of the catalog. -/
  catalog? : Option Text
  /-- The file of the remedies, in the place of the standard ones. -/
  remedies? : Option Text
  rules : Rules
  deriving DecidableEq, Repr

namespace Configuration

/-- The configuration of a user who has configured nothing. -/
def standard : Configuration :=
  ⟨none, none, Rules.standard⟩

/-- The settings about the files of catalogs. -/
def catalogNames : List Text :=
  ["path", "error_path"]

/-- The files of the catalog and of the remedies that a value holds. -/
def filesOfValue? (v : Value) : Option (Option Text × Option Text) := do
  let field ← v.fieldsOf? catalogNames
  let catalog? ← Value.defaulted none (Value.nullable Value.asText?) (field "path")
  let remedies? ← Value.defaulted none (Value.nullable Value.asText?) (field "error_path")
  return (catalog?, remedies?)

/-- The sections of a configuration. -/
def sectionNames : List Text :=
  ["catalog", "rules"]

/-- The number of settings in a section. -/
def sectionSize (name : Text) : Nat :=
  if name = "catalog" then catalogNames.length else Rules.settingNames.length

/-- A value under a name of a document, without what nobody reads: a section that is a list may go
on behind its settings. -/
def trimmed (name : Text) (v : Value) : Value :=
  if sectionNames.contains name then v.shortened (sectionSize name) else v

/-- A document without what nobody reads. -/
def trimmedDocument : Value → Value
  | .record fields => .record (fields.map fun f => (f.1, trimmed f.1 f.2))
  | v => v

/-- The configuration that a value holds. -/
def ofValue? (v : Value) : Option Configuration := do
  let field ← v.fieldsOf? sectionNames
  let files ← Value.defaulted (none, none) filesOfValue? (field "catalog")
  let rules ← Value.defaulted Rules.standard Rules.ofValue? (field "rules")
  return ⟨files.1, files.2, rules⟩

/-- The configuration of a text.  Settings that are not known may hold any value that can be held at
all. -/
def ofToml? (t : Text) : Option Configuration := do
  let v := trimmedDocument (← Toml.read? t)
  if v.isSound then ofValue? v else none

/-- The file of the configuration below a directory that holds it. -/
def fileName : Text :=
  programName ++ "/config.toml"

/-- The usual files, the first one first: below the working directory, and where programs keep
their configuration. -/
def usualFiles (configHome? : Option Text) : List Text :=
  fileName :: configHome?.toList.map (· ++ '/' :: fileName)

variable {m : Type → Type} [Monad m]

/-- The configuration in a file. -/
def ofFile (files : FileAccess m) (path : Text) : ExceptT Fault m Configuration := do
  if !(← files.isPresent path) then throw (.missingConfiguration path)
  match ← files.readText path with
  | .error e => throw (.file e)
  | .ok t =>
      match ofToml? t with
      | none => throw .malformedConfiguration
      | some c => pure c

/-- The configuration in the first of some files that is there. -/
def ofFirst (files : FileAccess m) : List Text → ExceptT Fault m Configuration
  | [] => return standard
  | path :: paths => do
      if ← files.isPresent path then ofFile files path else ofFirst files paths

/-- The configuration with rules that checks can use, from a file that the user names or not. -/
def load (files : FileAccess m) (path? : Option Text) : ExceptT Fault m Configuration := do
  let c ← match path? with
    | some path => ofFile files path
    | none => ofFirst files (usualFiles files.configHome?)
  match c.rules.fault? with
  | some f => throw (.rule f)
  | none => pure c

end Configuration
end DspCheck
