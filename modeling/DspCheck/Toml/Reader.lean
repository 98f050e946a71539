import DspCheck.Toml.Scalar
import DspCheck.Toml.Table
import DspCheck.Toml.Token

/-!
# Reading TOML

The reader takes one token at a time.  Its state is the document so far, the header under which it
reads, and its place: on a header, on a key, or on the value of a key.  Inside a value there is a
stack of the containers that are still open, innermost first.

Main definition: `read?`, the record of a text that is one TOML document.
-/

namespace DspCheck
namespace Toml

/-- A part of a dotted key. -/
inductive KeyPart
  | name (t : Text)
  | dot
  deriving DecidableEq, Repr

/-- The characters of bare keys. -/
def isKeyChar (c : Char) : Bool :=
  c.isAlphanum || c = '_' || c = '-'

/-- The parts of a key that a bare word stands for. -/
def wordParts (w : Text) : List KeyPart :=
  ((w.splitOn '.').map fun run => if run = [] then [] else [KeyPart.name run]).intersperse [.dot]
    |>.flatten

/-- The parts of a key that a token stands for. -/
def keyParts? : Token → Option (List KeyPart)
  | .word w => if w.all fun c => isKeyChar c || c = '.' then some (wordParts w) else none
  | .string t => some [.name t]
  | _ => none

/-- The names that parts are: one dot stands between two names. -/
def namesOf? : List KeyPart → Option (List Text)
  | [.name t] => some [t]
  | .name t :: .dot :: parts => (namesOf? parts).map (t :: ·)
  | _ => none

/-- The number of names in a key, and of containers around a value, that a document may have. -/
def maxDepth : Nat := 80

/-- The names of a dotted key. -/
def keyOf? (parts : List KeyPart) : Option (List Text) :=
  (namesOf? parts).filter fun names => names.length ≤ maxDepth

/-- An open container. -/
inductive Frame
  /-- A list with its items so far, the last one first. -/
  | list (items : List Value)
  /-- An inline table with its entries so far, and the key of the value that is being read. -/
  | table (entries : Table) (key : List Text)

/-- Where the reader stands. -/
inductive Place
  /-- At the start of a line. -/
  | line
  /-- Between the two brackets that open a header. -/
  | headerStart
  /-- On a header. -/
  | header (double : Bool) (parts : List KeyPart)
  /-- Between the two brackets that close a header. -/
  | headerEnd
  /-- On the key of a line. -/
  | key (parts : List KeyPart)
  /-- Where the value of a key is due.  The outermost key is `top`. -/
  | value (top : List Text) (frames : List Frame)
  /-- Where an item of the innermost list or its end is due. -/
  | item (top : List Text) (frames : List Frame)
  /-- Where a key of the innermost inline table or its end is due. -/
  | field (top : List Text) (frames : List Frame)
  /-- On a key of the innermost inline table. -/
  | fieldKey (top : List Text) (frames : List Frame) (parts : List KeyPart)
  /-- On a line behind a key of the innermost inline table. -/
  | fieldEquals (top : List Text) (frames : List Frame)
  /-- Behind a value in the innermost container. -/
  | separator (top : List Text) (frames : List Frame)
  /-- Where nothing but the end of the line is due. -/
  | lineEnd

/-- A document that is being read. -/
structure State where
  document : Table
  /-- The last header. -/
  header : List Text
  place : Place

/-- Handing a complete value to the innermost container, or to the document. -/
def deliver? (s : State) (top : List Text) (v : Value) : List Frame → Option State
  | [] =>
      (s.document.alongHeader? (Table.define? top v) s.header).map
        fun document => { s with document, place := .lineEnd }
  | .list items :: frames =>
      some { s with place := .separator top (.list (v :: items) :: frames) }
  | .table entries key :: frames =>
      (entries.define? key v).map
        fun entries => { s with place := .separator top (.table entries [] :: frames) }

/-- The containers with another one around the values that follow. -/
def opened? (frame : Frame) (frames : List Frame) : Option (List Frame) :=
  if frames.length < maxDepth then some (frame :: frames) else none

/-- Taking a token where a value is due.  In an inline table the value may stand on a line of its
own. -/
def stepValue? (s : State) (top : List Text) (frames : List Frame) : Token → Option State
  | .newLine => if frames.isEmpty then none else some s
  | .openSquare _ =>
      (opened? (.list []) frames).map fun frames => { s with place := .item top frames }
  | .openBrace =>
      (opened? (.table [] []) frames).map fun frames => { s with place := .field top frames }
  | .string t => deliver? s top (.text t) frames
  | .block t => deliver? s top (.text t) frames
  | .word w => (scalar? w).bind fun v => deliver? s top v frames
  | _ => none

/-- Closing the innermost container by the bracket that belongs to it. -/
def stepClose? (s : State) (top : List Text) : List Frame → Token → Option State
  | .list items :: frames, .closeSquare _ => deliver? s top (.list items.reverse) frames
  | .table entries _ :: frames, .closeBrace => deliver? s top entries.toValue frames
  | _, _ => none

/-- Taking a token behind a value in a container. -/
def stepSeparator? (s : State) (top : List Text) : List Frame → Token → Option State
  | frames, .newLine => some { s with place := .separator top frames }
  | .list items :: frames, .comma => some { s with place := .item top (.list items :: frames) }
  | .table entries key :: frames, .comma =>
      some { s with place := .field top (.table entries key :: frames) }
  | frames, token => stepClose? s top frames token

/-- Taking a token on a header. -/
def stepHeader? (s : State) (double : Bool) (parts : List KeyPart) (token : Token) :
    Option State := do
  match token with
  | .closeSquare followed =>
      let header ← keyOf? parts
      if double then
        if !followed then none
        else
          return { document := ← s.document.appendTable? header, header, place := .headerEnd }
      else return { document := ← s.document.nameTable? header, header, place := .lineEnd }
  | _ => return { s with place := .header double (parts ++ (← keyParts? token)) }

/-- The containers with the key of the value that follows in the innermost inline table. -/
def keyed? (parts : List KeyPart) : List Frame → Option (List Frame)
  | .table entries _ :: frames => (keyOf? parts).map fun key => .table entries key :: frames
  | _ => none

/-- Taking a token on a key of an inline table. -/
def stepFieldKey? (s : State) (top : List Text) (frames : List Frame) (parts : List KeyPart)
    (token : Token) : Option State := do
  match token with
  | .equals => return { s with place := .value top (← keyed? parts frames) }
  | .newLine => return { s with place := .fieldEquals top (← keyed? parts frames) }
  | _ => return { s with place := .fieldKey top frames (parts ++ (← keyParts? token)) }

/-- Taking a token. -/
def step? (s : State) (token : Token) : Option State :=
  match s.place with
  | .line =>
      match token with
      | .newLine => some s
      | .openSquare double =>
          some { s with place := if double then .headerStart else .header false [] }
      | _ => (keyParts? token).map fun parts => { s with place := .key parts }
  | .headerStart =>
      match token with
      | .openSquare _ => some { s with place := .header true [] }
      | _ => none
  | .header double parts => stepHeader? s double parts token
  | .headerEnd =>
      match token with
      | .closeSquare _ => some { s with place := .lineEnd }
      | _ => none
  | .key parts =>
      match token with
      | .equals => (keyOf? parts).map fun top => { s with place := .value top [] }
      | _ => (keyParts? token).map fun more => { s with place := .key (parts ++ more) }
  | .value top frames => stepValue? s top frames token
  | .item top frames =>
      if token = .newLine then some s
      else (stepClose? s top frames token).or (stepValue? s top frames token)
  | .field top frames =>
      if token = .newLine then some s
      else (stepClose? s top frames token).or (stepFieldKey? s top frames [] token)
  | .fieldKey top frames parts => stepFieldKey? s top frames parts token
  | .fieldEquals top frames =>
      match token with
      | .newLine => some s
      | .equals => some { s with place := .value top frames }
      | _ => none
  | .separator top frames => stepSeparator? s top frames token
  | .lineEnd => if token = .newLine then some { s with place := .line } else none

/-- The record of a reader at the end of a text. -/
def State.value? (s : State) : Option Value :=
  match s.place with
  | .line => some s.document.toValue
  | .lineEnd => some s.document.toValue
  | _ => none

/-- The record of a text that is one TOML document. -/
def read? (t : Text) : Option Value := do
  let state ← (← tokens? t).foldlM step? ⟨[], [], .line⟩
  state.value?

end Toml
end DspCheck
