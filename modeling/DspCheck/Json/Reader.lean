import DspCheck.Json.Token

/-!
# Reading JSON

The reader takes one token at a time.  Its state is the stack of the containers that are still
open, innermost first, and what may come next.  After the last closing bracket the state holds the
value, and no further token is taken.

Main definition: `read?`, the value of a text that is one JSON document.

An *artifact* is a JSON document with a version.  It is read as a whole first; only then is its
version compared with the one that this library knows.
-/

namespace DspCheck
namespace Json

/-- An open container with what it holds so far, youngest first. -/
inductive Frame
  | list (items : List Value)
  /-- The `key` is that of the field being read, or of the last one that was. -/
  | record (fields : List (Text × Value)) (key : Option Text) (garbled : Bool)

/-- What may come next. -/
inductive Expectation
  | value
  /-- Behind an opening bracket of a list: a value or the closing bracket. -/
  | firstItem
  /-- Behind a value in a container: a comma or the closing bracket. -/
  | separator
  /-- Behind an opening bracket of a record: a key or the closing bracket. -/
  | firstKey
  | key
  | colon
  deriving DecidableEq

/-- Where the reader stands. -/
inductive State
  | reading (frames : List Frame) (next : Expectation)
  | done (v : Value)

/-- Handing a complete value to the innermost open container. -/
def deliver (v : Value) : List Frame → State
  | [] => .done v
  | .list items :: frames => .reading (.list (v :: items) :: frames) .separator
  | .record fields key garbled :: frames =>
      match key with
      | some k => .reading (.record ((k, v) :: fields) key garbled :: frames) .separator
      | none => .reading (.record fields key true :: frames) .separator

/-- The value of a container that is being closed. -/
def Frame.close : Frame → Value
  | .list items => .list items.reverse
  | .record fields _ garbled => if garbled then .garbled else .record fields.reverse

/-- Taking a token where a value is due. -/
def stepValue (frames : List Frame) : Token → Option State
  | .openList => some (.reading (.list [] :: frames) .firstItem)
  | .openRecord => some (.reading (.record [] none false :: frames) .firstKey)
  | .string (some t) => some (deliver (.text t) frames)
  | .string none => some (deliver .garbled frames)
  | .word v => some (deliver v frames)
  | _ => none

/-- Taking a token where a key is due. -/
def stepKey : List Frame → Token → Option State
  | .record fields _ garbled :: frames, .string key =>
      some (.reading (.record fields key garbled :: frames) .colon)
  | _, _ => none

/-- Closing the innermost container by the bracket that belongs to it. -/
def stepClose : List Frame → Token → Option State
  | .list items :: frames, .closeList => some (deliver (Frame.list items).close frames)
  | .record fields key garbled :: frames, .closeRecord =>
      some (deliver (Frame.record fields key garbled).close frames)
  | _, _ => none

/-- Taking a token behind a value in a container. -/
def stepSeparator : List Frame → Token → Option State
  | .list items :: frames, .comma => some (.reading (.list items :: frames) .value)
  | .record fields key garbled :: frames, .comma =>
      some (.reading (.record fields key garbled :: frames) .key)
  | frames, token => stepClose frames token

/-- Taking a token. -/
def step : State → Token → Option State
  | .done _, _ => none
  | .reading frames .value, token => stepValue frames token
  | .reading frames .firstItem, token => (stepClose frames token).or (stepValue frames token)
  | .reading frames .separator, token => stepSeparator frames token
  | .reading frames .firstKey, token => (stepClose frames token).or (stepKey frames token)
  | .reading frames .key, token => stepKey frames token
  | .reading frames .colon, .colon => some (.reading frames .value)
  | .reading _ .colon, _ => none

/-- The value of a finished reader. -/
def State.value? : State → Option Value
  | .done v => some v
  | .reading .. => none

/-- The value of a text that is one JSON document. -/
def read? (t : Text) : Option Value := do
  let state ← (← tokens? t).foldlM step (.reading [] .value)
  state.value?

end Json

/-! ## Artifacts -/

/-- Why an artifact cannot be used. -/
inductive ArtifactFault
  /-- The text is no JSON document of the expected form. -/
  | malformed
  /-- The document says another version than the expected one. -/
  | unsupportedVersion (artifact found expected : Text)
  deriving DecidableEq, Repr

namespace ArtifactFault

/-- What is wrong with the artifact. -/
def message : ArtifactFault → Text
  | malformed => "invalid catalog artifact"
  | unsupportedVersion artifact found expected =>
      "unsupported " ++ artifact ++ " version " ++ Text.quoted found ++ " (expected "
        ++ Text.quoted expected ++ ")"

end ArtifactFault

namespace Artifact

/-- Reading an artifact: its JSON text, then its value, then its version. -/
def read {α : Type} (artifact expected : Text) (ofValue? : Value → Option α) (version : α → Text)
    (json : Text) : Except ArtifactFault α :=
  match (Json.read? json).bind ofValue? with
  | none => .error .malformed
  | some a =>
      if version a = expected then .ok a
      else .error (.unsupportedVersion artifact (version a) expected)

end Artifact

end DspCheck
