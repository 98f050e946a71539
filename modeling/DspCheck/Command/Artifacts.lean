import DspCheck.Catalog.Document
import DspCheck.Command.Fault
import DspCheck.Library.Build
import DspCheck.Remedy.Document
import DspCheck.Remedy.Scan

/-!
# Catalogs in files

Catalogs are built from directories, written to files and read from them.
-/

namespace DspCheck

variable {m : Type → Type} [Monad m]

namespace FileAccess

/-- The text of a file. -/
def readText (files : FileAccess m) (path : Text) : m (Except FileError Text) := do
  return decodeText (← files.read path)

/-- Creating the directory of a file, if it is missing. -/
def prepare (files : FileAccess m) (path : Text) : ExceptT CatalogFault m Unit := do
  match Path.ancestors path with
  | [] => pure ()
  | directory :: outer =>
      match ← files.createDirectories (directory :: outer) with
      | .ok () => pure ()
      | .error e => throw (.file directory e)

/-- Writing a text to a file, in a directory that is created if it is missing. -/
def writeArtifact (files : FileAccess m) (path json : Text) : ExceptT CatalogFault m Unit := do
  files.prepare path
  match ← files.write path (Text.toUtf8 json) with
  | .ok () => pure ()
  | .error e => throw (.file path e)

/-- The catalog in a file. -/
def readArtifact {α : Type} (files : FileAccess m) (ofJson : Text → Except ArtifactFault α)
    (path : Text) : ExceptT CatalogFault m α := do
  match ← files.readText path with
  | .error e => throw (.file path e)
  | .ok json =>
      match ofJson json with
      | .error e => throw (.artifact e)
      | .ok a => pure a

/-- The files below a directory that has to be there. -/
def filesOf (files : FileAccess m) (directory : Text) :
    ExceptT CatalogFault m (List FoundFile) := do
  if ← files.isDirectory directory then files.filesBelow directory
  else throw (.missingDirectory directory)

/-- The catalog of the library files in a directory. -/
def buildCatalog (files : FileAccess m) (settings : LibrarySettings) (directory : Text) :
    ExceptT CatalogFault m CatalogBuild := do
  return .ofFiles settings directory (← files.filesOf directory)

/-- The standard remedies, with the sightings in a directory if one is given. -/
def buildRemedies (files : FileAccess m) (settings : ScanSettings) (directory? : Option Text) :
    ExceptT CatalogFault m RemedyBuild := do
  match directory? with
  | none => return RemedyBuild.standard
  | some directory => return .ofFiles settings directory (← files.filesOf directory)

end FileAccess
end DspCheck
