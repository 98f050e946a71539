import DspCheck.Json.Reader
import DspCheck.Json.Writer
import DspCheck.Remedy.Basic

/-!
# Remedies as documents

The id of a remedy is written nowhere but in the key of its document, and its rule is written as its
source.  So a remedy is without an id when it is read, and gets it in a second pass over the catalog
(`RemedyCatalog.relabelled`); the alternatives of its rule come from the source again.

The samples are left out if there are none; as they are read, they may be null, too.  The sightings
may be left out of a document that is read.
-/

namespace DspCheck

namespace Remedy

/-- The fields of a remedy. -/
def fieldNames : List Text :=
  ["pattern", "message", "cause", "fix", "exampleBad", "exampleGood"]

/-- The document of a remedy. -/
def toValue (r : Remedy) : Value :=
  .recordOf [
    ("pattern", some (.text r.rule.source)),
    ("message", some (.text r.message)),
    ("cause", some (.text r.cause)),
    ("fix", some (.text r.fix)),
    ("exampleBad", r.badSample?.map .text),
    ("exampleGood", r.goodSample?.map .text)]

/-- The remedy that a document holds. -/
def ofValue? (v : Value) : Option Remedy := do
  let field ← v.fieldsOf? fieldNames
  return {
    rule := ⟨← Value.required Value.asText? (field "pattern")⟩
    message := ← Value.required Value.asText? (field "message")
    cause := ← Value.required Value.asText? (field "cause")
    fix := ← Value.required Value.asText? (field "fix")
    badSample? := ← Value.defaulted none (Value.nullable Value.asText?) (field "exampleBad")
    goodSample? := ← Value.defaulted none (Value.nullable Value.asText?) (field "exampleGood") }

end Remedy

namespace KeptRemedy

/-- The document of a remedy that a catalog keeps. -/
def toValue (r : KeptRemedy) : Value :=
  r.toRemedy.toValue

/-- The remedy that a document holds, for a catalog to keep.  It is without an id. -/
def ofValue? (v : Value) : Option KeptRemedy :=
  (Remedy.ofValue? v).map (Remedy.kept [])

end KeptRemedy

namespace Sighting

/-- The fields of a sighting. -/
def fieldNames : List Text :=
  ["raw", "source"]

/-- The document of a sighting. -/
def toValue (s : Sighting) : Value :=
  .record [("raw", .text s.text), ("source", .text s.place)]

/-- The sighting that a document holds. -/
def ofValue? (v : Value) : Option Sighting := do
  let field ← v.fieldsOf? fieldNames
  return {
    text := ← Value.required Value.asText? (field "raw")
    place := ← Value.required Value.asText? (field "source") }

end Sighting

namespace RemedyCatalog

/-- The fields of a catalog of remedies. -/
def fieldNames : List Text :=
  ["version", "source", "errors", "rawErrors"]

/-- The document of a catalog of remedies. -/
def toValue (c : RemedyCatalog) : Value :=
  .record [
    ("version", .text c.version),
    ("source", .text c.source),
    ("errors", Value.ofMap KeptRemedy.toValue c.kept),
    ("rawErrors", .list (c.sightings.map Sighting.toValue))]

/-- The catalog of remedies that a document holds, before the ids are put back. -/
def ofValue? (v : Value) : Option RemedyCatalog := do
  let field ← v.fieldsOf? fieldNames
  return {
    version := ← Value.required Value.asText? (field "version")
    source := ← Value.required Value.asText? (field "source")
    kept := ← Value.required (Value.asMapOf? KeptRemedy.ofValue?) (field "errors")
    sightings := ← Value.defaulted [] (Value.asListOf? Sighting.ofValue?) (field "rawErrors") }

/-- A catalog of remedies as JSON. -/
def toJson (c : RemedyCatalog) : Text :=
  Json.write c.toValue

/-- The catalog with the id of each remedy put back from its key. -/
def relabelled (c : RemedyCatalog) : RemedyCatalog :=
  { c with kept := c.kept.mapValues fun id r => { r with id } }

/-- The catalog of remedies of a JSON text. -/
def ofJson (json : Text) : Except ArtifactFault RemedyCatalog :=
  (Artifact.read "error catalog" currentVersion ofValue? RemedyCatalog.version json).map relabelled

end RemedyCatalog
end DspCheck
