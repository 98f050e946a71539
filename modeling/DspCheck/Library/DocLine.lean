import DspCheck.Text.Classes
import DspCheck.Text.Search

/-!
# Lines of a documented library

The comments of a library document its functions.  The documentation of a function starts with a
*header*: a comment line of dashes with the name of the function among them, mostly written as
`(fi.)lowpass` between backquotes.

`DocLine.classify` says what a line is, whatever stands around it.
-/

namespace DspCheck

/-- What a line of a library is. -/
inductive DocLine
  | blank
  /-- The header of the documentation of a function. -/
  | header (name : Text)
  /-- Dashes around a text that names no function. -/
  | oddHeader (text : Text)
  /-- Dashes without a text, or a line of equals signs. -/
  | rule
  /-- The text of a comment. -/
  | comment (text : Text)
  /-- A line that is no comment, without the blanks around it. -/
  | code (text : Text)
  deriving DecidableEq, Repr

namespace Text

/-- The text without the characters of a kind at its two ends. -/
def trimChars (p : Char → Bool) (t : Text) : Text :=
  ((t.dropWhile p).reverse.dropWhile p).reverse

/-- The part of a text behind the last occurrence of a character, or all of it. -/
def afterLast (c : Char) (t : Text) : Text :=
  (t.reverse.takeWhile (· ≠ c)).reverse

end Text

namespace DocLine

/-- The text between the first two backquotes; all of it if there are none. -/
def unquoted? (t : Text) : Option Text :=
  match Text.breakAt? "`" t with
  | none => some t
  | some (_, rest) => (Text.breakAt? "`" rest).map Prod.fst

/-- A text without a first part in parentheses. -/
def withoutGroup? (t : Text) : Option Text :=
  match Text.after? "(" t with
  | none => some t
  | some rest => (Text.breakAt? ")" rest).map Prod.snd

/-- The function that the text of a header names, as in `(fi.)lowpass` and `fi.lowpass`, between
backquotes or not. -/
def functionName? (t : Text) : Option Text := do
  let t ← unquoted? t
  let t ← withoutGroup? (Text.trim t)
  let name := Text.trim (Text.afterLast '.' t)
  if Ident.isIdent name then some name else none

/-- What a comment is, given the text behind its slashes. -/
def ofComment (body : Text) : DocLine :=
  let trimmed := Text.trim body
  if Text.startsWith "===" trimmed then rule
  else if Text.startsWith "---" trimmed then
    let inner := Text.trim (Text.trimChars (· = '-') trimmed)
    if inner = [] then rule
    else
      match functionName? inner with
      | some name => header name
      | none => oddHeader inner
  else comment ((Text.after? " " body).getD body)

/-- What a line is. -/
def classify (line : Text) : DocLine :=
  let trimmed := Text.trim line
  if trimmed = [] then blank
  else
    match Text.after? "//" trimmed with
    | none => code trimmed
    | some body => ofComment body

/-- Whether a line is a header of any kind. -/
def isHeader : DocLine → Bool
  | header _ | oddHeader _ => true
  | _ => false

/-- The code of a line. -/
def code? : DocLine → Option Text
  | code text => some text
  | _ => none

end DocLine
end DspCheck
