import DspCheck.OrderedMap
import DspCheck.Text.Basic

/-!
# Values of a document

The data that a JSON artifact or a TOML configuration holds, before it is read as a catalog or as
settings.  Numbers are of two kinds: a natural number, and any other number, of which only the
literal is kept because no field of this program takes one.

A reader of a *record type* gets its fields from a value by `fieldsOf?`: from a record by name, or
from a list by position in the order of declaration.
-/

namespace DspCheck

/-- A value of a document. -/
inductive Value
  | null
  | bool (b : Bool)
  | natural (n : Nat)
  /-- A number with a sign, a point or an exponent. -/
  | numeral (literal : Text)
  | text (t : Text)
  | list (items : List Value)
  | record (fields : List (Text × Value))
  /-- A value that is well formed, but that nothing can hold: a text with half of a surrogate pair,
  or a number beyond all bounds. -/
  | garbled
  deriving Inhabited, Repr

namespace Value

/-- The largest count that an artifact may hold. -/
def maxCount : Nat := Nat.pow 2 64 - 1

/-- A count. -/
def asCount? : Value → Option Nat
  | natural n => if n ≤ maxCount then some n else none
  | _ => none

/-- A text. -/
def asText? : Value → Option Text
  | text t => some t
  | _ => none

/-- A list of values of one kind. -/
def asListOf? {α : Type} (item? : Value → Option α) : Value → Option (List α)
  | list items => items.mapM item?
  | _ => none

/-- A record whose keys are free: a repeated key replaces the value and keeps its place. -/
def asMapOf? {α : Type} (item? : Value → Option α) : Value → Option (OrderedMap Text α)
  | record fields => do
      let entries ← fields.mapM fun f => (item? f.2).map (f.1, ·)
      return OrderedMap.ofList entries
  | _ => none

/-- The list of some texts. -/
def ofTexts (ts : List Text) : Value :=
  list (ts.map text)

/-- The record with the entries of a map. -/
def ofMap {α : Type} (item : α → Value) (m : OrderedMap Text α) : Value :=
  record (m.entries.map fun e => (e.1, item e.2))

/-- The record of those fields that have a value. -/
def recordOf (fields : List (Text × Option Value)) : Value :=
  record (fields.filterMap fun f => f.2.map (f.1, ·))

mutual

/-- Whether a value and all that is in it can be held. -/
def isSound : Value → Bool
  | garbled => false
  | list items => areSound items
  | record fields => haveSoundValues fields
  | _ => true

/-- Whether all of some values are sound. -/
def areSound : List Value → Bool
  | [] => true
  | v :: vs => v.isSound && areSound vs

/-- Whether the values of all of some fields are sound. -/
def haveSoundValues : List (Text × Value) → Bool
  | [] => true
  | (_, v) :: fields => v.isSound && haveSoundValues fields

end

/-- A list without the items behind its first ones. -/
def shortened (count : Nat) : Value → Value
  | list items => list (items.take count)
  | v => v

/-- The first value under a name. -/
def lookup? (fields : List (Text × Value)) (name : Text) : Option Value :=
  (fields.find? fun f => f.1 = name).map Prod.snd

/-- Whether some field of a given name occurs more than once. -/
def repeats (fields : List (Text × Value)) (name : Text) : Bool :=
  1 < (fields.filter fun f => f.1 = name).length

/-- The fields of a record type: by name, none of them twice, or by position, none too many. -/
def fieldsOf? (names : List Text) : Value → Option (Text → Option Value)
  | record fields => if names.any (repeats fields) then none else some (lookup? fields)
  | list items => if items.length ≤ names.length then some (lookup? (names.zip items)) else none
  | _ => none

/-- A field that must be there. -/
def required {α : Type} (read? : Value → Option α) (field : Option Value) : Option α :=
  field.bind read?

/-- A field that takes a default when it is absent. -/
def defaulted {α : Type} (default : α) (read? : Value → Option α) (field : Option Value) :
    Option α :=
  match field with
  | none => some default
  | some v => read? v

/-- A value that may be null. -/
def nullable {α : Type} (read? : Value → Option α) : Value → Option (Option α)
  | null => some none
  | v => (read? v).map some

end Value
end DspCheck
