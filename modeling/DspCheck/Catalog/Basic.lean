import DspCheck.OrderedMap
import DspCheck.Text.Basic
import DspCheck.Text.Classes
import DspCheck.Text.Search

/-!
# Catalogs of library functions

A function is called as `library.name(arg, …)`.  Here `library` is the short name that programs put
before the dot, not the file that holds the library.

A catalog holds the signatures of a set of libraries under their full names, and one entry for each
library file.  Both keep the order in which they were declared.
-/

namespace DspCheck

/-- What is known about a library function. -/
structure Signature where
  /-- The short name of its library. -/
  library : Text
  /-- Its name within the library. -/
  name : Text
  /-- The name under which programs call it. -/
  fullName : Text
  /-- The names of its arguments. -/
  args : List Text
  /-- The number of its arguments; zero if any number is accepted. -/
  argCount : Nat
  /-- The number of its input signals. -/
  inputs : Nat
  /-- The number of its output signals. -/
  outputs : Nat
  description : Text
  /-- What its parameters mean, in the order of the documentation. -/
  paramDocs : OrderedMap Text Text
  /-- A worked example. -/
  sample : Text
  deriving DecidableEq

namespace Signature

/-- The signature of an undocumented function. -/
def ofShape (library name : Text) (args : List Text) (inputs outputs : Nat) : Signature where
  library
  name
  fullName := Ident.qualified library name
  args
  argCount := args.length
  inputs
  outputs
  description := []
  paramDocs := OrderedMap.empty
  sample := []

/-- The call of the function with its own argument names. -/
def callForm (s : Signature) : Text :=
  s.fullName ++ "(" ++ Text.join ", " s.args ++ ")"

end Signature

/-- What is known about a library file. -/
structure LibraryInfo where
  /-- The path of the file below the directory of the libraries. -/
  file : Text
  /-- The short name by which programs refer to it. -/
  library : Text
  /-- The number of functions that it documents. -/
  functionCount : Nat
  deriving DecidableEq

/-- The functions that programs may call. -/
structure Catalog where
  version : Text
  /-- Where the catalog was built from. -/
  source : Text
  /-- The library files by path. -/
  libraries : OrderedMap Text LibraryInfo
  /-- The signatures by full name. -/
  functions : OrderedMap Text Signature
  deriving DecidableEq

namespace Catalog

/-- The version of the catalogs that this library reads and writes. -/
def currentVersion : Text := "1.0"

/-- A catalog of the current version. -/
def ofParts (source : Text) (libraries : OrderedMap Text LibraryInfo)
    (functions : OrderedMap Text Signature) : Catalog :=
  ⟨currentVersion, source, libraries, functions⟩

/-- The catalog without libraries. -/
def empty : Catalog :=
  ofParts [] OrderedMap.empty OrderedMap.empty

/-- The signature under a full name. -/
def get? (c : Catalog) (fullName : Text) : Option Signature :=
  c.functions.get? fullName

/-- Whether some library file has a given short name. -/
def hasLibrary (c : Catalog) (library : Text) : Bool :=
  c.libraries.values.any (·.library = library)

/-- The short names of the libraries without repetition, in the order of first declaration. -/
def libraryNames (c : Catalog) : List Text :=
  (c.libraries.values.map LibraryInfo.library).foldl
    (fun names name => if names.contains name then names else names ++ [name]) []

/-- The signatures under a short name, in the order of declaration. -/
def functionsIn (c : Catalog) (library : Text) : List Signature :=
  c.functions.values.filter (·.library = library)

/-- The number of leading characters that a suggested name shares with the name looked for. -/
def stemLength : Nat := 3

/-- The full names under a short name that resemble `name`: they share its first three characters,
or all of it if it is shorter. -/
def candidates (c : Catalog) (library name : Text) : List Text :=
  ((c.functionsIn library).filter fun s => Text.startsWith (name.take stemLength) s.name).map
    Signature.fullName

/-- The first `limit` resembling full names in alphabetical order. -/
def suggestions (c : Catalog) (library name : Text) (limit : Nat) : List Text :=
  ((c.candidates library name).mergeSort Text.le).take limit

end Catalog
end DspCheck
