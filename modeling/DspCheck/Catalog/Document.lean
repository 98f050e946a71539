import DspCheck.Catalog.Basic
import DspCheck.Json.Reader
import DspCheck.Json.Writer

/-!
# Catalogs as documents

The fields of a document are written in the order of declaration.  They are read by name or, from
a list, in that same order.  Descriptions, the documentation of parameters and samples may be left
out.
-/

namespace DspCheck

namespace Signature

/-- The fields of a signature. -/
def fieldNames : List Text :=
  ["prefix", "name", "fullName", "args", "argCount", "inputs", "outputs", "description",
    "paramDocs", "example"]

/-- The document of a signature. -/
def toValue (s : Signature) : Value :=
  .record [
    ("prefix", .text s.library),
    ("name", .text s.name),
    ("fullName", .text s.fullName),
    ("args", Value.ofTexts s.args),
    ("argCount", .natural s.argCount),
    ("inputs", .natural s.inputs),
    ("outputs", .natural s.outputs),
    ("description", .text s.description),
    ("paramDocs", Value.ofMap .text s.paramDocs),
    ("example", .text s.sample)]

/-- The signature that a document holds. -/
def ofValue? (v : Value) : Option Signature := do
  let field ← v.fieldsOf? fieldNames
  return {
    library := ← Value.required Value.asText? (field "prefix")
    name := ← Value.required Value.asText? (field "name")
    fullName := ← Value.required Value.asText? (field "fullName")
    args := ← Value.required (Value.asListOf? Value.asText?) (field "args")
    argCount := ← Value.required Value.asCount? (field "argCount")
    inputs := ← Value.required Value.asCount? (field "inputs")
    outputs := ← Value.required Value.asCount? (field "outputs")
    description := ← Value.defaulted [] Value.asText? (field "description")
    paramDocs :=
      ← Value.defaulted OrderedMap.empty (Value.asMapOf? Value.asText?) (field "paramDocs")
    sample := ← Value.defaulted [] Value.asText? (field "example") }

end Signature

namespace LibraryInfo

/-- The fields of the entry of a library file. -/
def fieldNames : List Text :=
  ["file", "prefix", "functionCount"]

/-- The document of the entry of a library file. -/
def toValue (l : LibraryInfo) : Value :=
  .record [
    ("file", .text l.file),
    ("prefix", .text l.library),
    ("functionCount", .natural l.functionCount)]

/-- The entry of a library file that a document holds. -/
def ofValue? (v : Value) : Option LibraryInfo := do
  let field ← v.fieldsOf? fieldNames
  return {
    file := ← Value.required Value.asText? (field "file")
    library := ← Value.required Value.asText? (field "prefix")
    functionCount := ← Value.required Value.asCount? (field "functionCount") }

end LibraryInfo

namespace Catalog

/-- The fields of a catalog. -/
def fieldNames : List Text :=
  ["version", "source", "libraries", "functions"]

/-- The document of a catalog. -/
def toValue (c : Catalog) : Value :=
  .record [
    ("version", .text c.version),
    ("source", .text c.source),
    ("libraries", Value.ofMap LibraryInfo.toValue c.libraries),
    ("functions", Value.ofMap Signature.toValue c.functions)]

/-- The catalog that a document holds. -/
def ofValue? (v : Value) : Option Catalog := do
  let field ← v.fieldsOf? fieldNames
  return {
    version := ← Value.required Value.asText? (field "version")
    source := ← Value.required Value.asText? (field "source")
    libraries := ← Value.required (Value.asMapOf? LibraryInfo.ofValue?) (field "libraries")
    functions := ← Value.required (Value.asMapOf? Signature.ofValue?) (field "functions") }

/-- A catalog as JSON. -/
def toJson (c : Catalog) : Text :=
  Json.write c.toValue

/-- The catalog of a JSON text. -/
def ofJson (json : Text) : Except ArtifactFault Catalog :=
  Artifact.read "catalog" currentVersion ofValue? Catalog.version json

end Catalog
end DspCheck
