import DspCheck.OrderedMap
import DspCheck.Phrase

/-!
# Remedies for compiler errors

A remedy explains one kind of compiler error and says what to do about it.  Remedies are kept in an
order, and the first one whose rule matches an error is the one for it; so special remedies come
before general ones.

A catalog keeps each remedy with its id and with the alternatives of its rule, so that no rule is
taken apart again for each error.
-/

namespace DspCheck

/-- The explanation of a kind of compiler error. -/
structure Remedy where
  /-- The errors that it is about. -/
  rule : PhraseRule
  message : Text
  cause : Text
  fix : Text
  /-- A program with the error. -/
  badSample? : Option Text
  /-- The same program without the error. -/
  goodSample? : Option Text
  deriving DecidableEq

/-- A remedy as a catalog keeps it. -/
structure KeptRemedy extends Remedy where
  id : Text
  /-- The alternatives of its rule. -/
  alternatives : List (List Text)
  deriving DecidableEq

/-- A text in the sources of a compiler that looks like an error message. -/
structure Sighting where
  text : Text
  /-- The place where it was found, as `file:line`. -/
  place : Text
  deriving DecidableEq, Repr

/-- Remedies in their order, and sightings of messages that may have none. -/
structure RemedyCatalog where
  version : Text
  /-- Where the catalog comes from. -/
  source : Text
  /-- The remedies by id. -/
  kept : OrderedMap Text KeptRemedy
  sightings : List Sighting
  deriving DecidableEq

/-- A remedy with its id, and with its rule taken apart. -/
def Remedy.kept (id : Text) (r : Remedy) : KeptRemedy :=
  { r with id, alternatives := r.rule.alternatives }

/-- Whether a remedy is for an error. -/
def KeptRemedy.isFor (r : KeptRemedy) (error : Text) : Bool :=
  PhraseRule.satisfiesAny r.alternatives error

namespace RemedyCatalog

/-- The version of the catalogs that this library reads and writes. -/
def currentVersion : Text := "1.0"

/-- A catalog of the current version without sightings.  A repeated id replaces the remedy and keeps
its place in the order. -/
def ofList (source : Text) (remedies : List (Text × Remedy)) : RemedyCatalog :=
  ⟨currentVersion, source, OrderedMap.ofList (remedies.map fun e => (e.1, e.2.kept e.1)), []⟩

/-- The remedies by id, as they were given. -/
def remedies (c : RemedyCatalog) : OrderedMap Text Remedy :=
  c.kept.mapValues fun _ r => r.toRemedy

/-- The remedy with an id. -/
def get? (c : RemedyCatalog) (id : Text) : Option Remedy :=
  (c.kept.get? id).map KeptRemedy.toRemedy

/-- The first remedy for an error, with the id that it says. -/
def firstFor? (c : RemedyCatalog) (error : Text) : Option (Text × Remedy) :=
  (c.kept.values.find? (·.isFor error)).map fun r => (r.id, r.toRemedy)

/-- The ids of all remedies for an error. -/
def idsFor (c : RemedyCatalog) (error : Text) : List Text :=
  (c.kept.values.filter (·.isFor error)).map KeptRemedy.id

end RemedyCatalog
end DspCheck
