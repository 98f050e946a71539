import DspCheck.Catalog.Basic
import DspCheck.Files.Access
import DspCheck.Library.File

/-!
# Building a catalog of library functions

The files of a directory are read in order.  A file that is no text or that has no short name is
left out with a warning.  If two files document a function under the same full name, the later one
replaces the earlier one at its place, with a warning, too.

Libraries are entered under what can be read of their names.  So if that is the same for two files,
the entry of the later one replaces that of the earlier one.
-/

namespace DspCheck

/-- Which files are read, and how much of them is kept. -/
structure LibrarySettings where
  /-- What follows the last dot in the names of library files. -/
  fileType : Text
  limits : DocLimits
  deriving DecidableEq, Repr

namespace LibrarySettings

/-- The usual settings. -/
def standard : LibrarySettings :=
  ⟨"lib", DocLimits.standard⟩

end LibrarySettings

/-- A text with the name of its file. -/
structure SourceFile where
  file : Text
  text : Text
  deriving DecidableEq, Repr

/-- A signature with the file that it comes from. -/
structure Definition where
  file : Text
  signature : Signature
  deriving DecidableEq

/-- What the files that have been read document. -/
structure CatalogDraft where
  libraries : OrderedMap Text LibraryInfo
  /-- The functions by full name. -/
  definitions : OrderedMap Text Definition
  warnings : List BuildWarning
  deriving DecidableEq

namespace FoundFile

/-- The path of a file below its directory, as far as it can be read. -/
def name (f : FoundFile) : Text :=
  f.path.toText

/-- Whether the name of a file ends in a dot and one of some texts. -/
def hasType (types : List Text) (f : FoundFile) : Bool :=
  (f.path.getLast?.bind FileName.extension?).any (types.map FileName.ofText).contains

/-- The text of a file, or the warning that it cannot be read. -/
def source (f : FoundFile) : Except BuildWarning SourceFile :=
  match decodeText f.content with
  | .ok text => .ok ⟨f.name, text⟩
  | .error e => .error ⟨f.name, none, "unreadable: " ++ e.message⟩

end FoundFile

namespace CatalogDraft

/-- What no files document. -/
def empty : CatalogDraft :=
  ⟨OrderedMap.empty, OrderedMap.empty, []⟩

/-- The draft with some more warnings. -/
def warn (ws : List BuildWarning) (d : CatalogDraft) : CatalogDraft :=
  { d with warnings := d.warnings ++ ws }

/-- The warning about a function that an earlier definition documents, too. -/
def duplicate (later earlier : Definition) : BuildWarning :=
  ⟨later.file, none,
    Text.quoted later.signature.fullName ++ " is also defined in " ++ earlier.file
      ++ "; the definition in " ++ later.file ++ " replaces it"⟩

/-- The draft with another function. -/
def define (n : Definition) (d : CatalogDraft) : CatalogDraft :=
  let fullName := n.signature.fullName
  let repeated := (d.definitions.get? fullName).toList.map (duplicate n)
  { d.warn repeated with definitions := d.definitions.insert fullName n }

/-- The draft with another file. -/
def addFile (file : Text) (l : LibraryFile) (d : CatalogDraft) : CatalogDraft :=
  if l.functions = [] then d.warn l.warnings
  else
    let info : LibraryInfo := ⟨file, l.library, l.functions.length⟩
    let d := { d.warn l.warnings with libraries := d.libraries.insert file info }
    l.functions.foldl (fun d s => d.define ⟨file, s⟩) d

/-- The draft with another file that has a short name or not. -/
def addSource (limits : DocLimits) (aliases : OrderedMap Text Text) (d : CatalogDraft)
    (s : SourceFile) : CatalogDraft :=
  match LibraryFile.read limits s.file s.text aliases with
  | .error w => d.warn [w]
  | .ok l => d.addFile s.file l

/-- The short names that files give to each other; the last one counts. -/
def aliasesIn (sources : List SourceFile) : OrderedMap Text Text :=
  OrderedMap.ofList (sources.flatMap fun s => Library.aliases s.text)

/-- What files document. -/
def ofSources (limits : DocLimits) (sources : List SourceFile) : CatalogDraft :=
  sources.foldl (addSource limits (aliasesIn sources)) empty

/-- The catalog of a draft. -/
def catalog (source : Text) (d : CatalogDraft) : Catalog :=
  Catalog.ofParts source d.libraries (d.definitions.mapValues fun _ n => n.signature)

end CatalogDraft

/-- A catalog with what was left out of it. -/
structure CatalogBuild where
  catalog : Catalog
  warnings : List BuildWarning
  deriving DecidableEq

namespace CatalogBuild

/-- The library files among some files: those that can be read, and the warnings about the
others. -/
def readable (settings : LibrarySettings) (files : List FoundFile) :
    List SourceFile × List BuildWarning :=
  let read := (files.filter (·.hasType [settings.fileType])).map FoundFile.source
  (read.filterMap Except.toOption, read.filterMap BuildWarning.of?)

/-- The catalog of the files of a directory. -/
def ofFiles (settings : LibrarySettings) (directory : Text) (files : List FoundFile) :
    CatalogBuild :=
  let (sources, unreadable) := readable settings files
  let draft := CatalogDraft.ofSources settings.limits sources
  ⟨draft.catalog directory, unreadable ++ draft.warnings⟩

end CatalogBuild
end DspCheck
