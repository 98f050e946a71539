import DspCheck.Files.Access
import DspCheck.Json.Reader
import DspCheck.Rules
import DspCheck.Source.Reference

/-!
# Faults

A fault stops a command.  Problems of a checked program are no faults, but the result of the
command.
-/

namespace DspCheck

/-- The name of the program. -/
def programName : Text := "siglint"

/-- Why a catalog cannot be built, read or written. -/
inductive CatalogFault
  | file (path : Text) (error : FileError)
  | missingDirectory (path : Text)
  | artifact (fault : ArtifactFault)
  deriving DecidableEq, Repr

namespace CatalogFault

/-- What is wrong with the catalog. -/
def message : CatalogFault → Text
  | file path error => "I/O error on " ++ path ++ ": " ++ error.message
  | missingDirectory path => "input directory not found: " ++ path
  | artifact fault => fault.message

end CatalogFault

/-- Why a command cannot do its work. -/
inductive Fault
  | file (error : FileError)
  | catalog (fault : CatalogFault)
  | configuration (reason : Text)
  | rule (fault : RuleFault)
  /-- The program has a character that no check can deal with. -/
  | program (fault : ForeignCharacter)
  deriving DecidableEq, Repr

namespace Fault

/-- The beginning of the reason why a configuration cannot be read. -/
def malformedStart : Text := "Failed to parse TOML configuration"

/-- The fault of a configuration that is no document of the expected form. -/
def malformedConfiguration : Fault :=
  configuration malformedStart

/-- The fault of a configuration that is not there. -/
def missingConfiguration (path : Text) : Fault :=
  configuration ("Missing configuration file: " ++ path)

/-- The fault of a command without a catalog. -/
def missingCatalog : Fault :=
  configuration
    "No catalog artifact: pass --catalog or set `path` in the [catalog] section"

/-- What went wrong. -/
def message : Fault → Text
  | file error => "I/O error: " ++ error.message
  | catalog fault => "Catalog error: " ++ fault.message
  | configuration reason => "Configuration error: " ++ reason
  | rule fault => fault.message
  | program fault => "unexpected character " ++ Text.quoted [fault.char]

/-- What lies behind the fault. -/
def cause? : Fault → Option Text
  | file error => some error.message
  | catalog fault => some fault.message
  | configuration _ => none
  | rule _ => none
  | program _ => none

/-- The last part of the name of the kind of fault. -/
def kind : Fault → Text
  | file _ => "io"
  | catalog _ => "catalog"
  | configuration _ => "config"
  | rule _ => "rules"
  | program _ => "program"

/-- The name of the kind of fault. -/
def tag (f : Fault) : Text :=
  programName ++ "::" ++ f.kind

/-- What to do about the fault. -/
def help? : Fault → Option Text
  | catalog _ =>
      some ("rebuild the artifact with " ++ Text.quoted (programName ++ " build-catalog") ++ " or "
        ++ Text.quoted (programName ++ " build-error-catalog"))
  | _ => none

end Fault
end DspCheck
