import DspCheck.Source.Masking
import DspCheck.Text.Classes
import DspCheck.Text.Lines

/-!
# Lines, statements and bindings

`Line.ofSource` cuts a program into its masked lines.  A line is made of *statements*, which end at
semicolons and braces outside parentheses.  A statement `name = value` is a *binding*.

Positions are bytes from the start of the line.  The *depth* of a place is the number of braces that
are open there.
-/

namespace DspCheck

/-- A line of a program. -/
structure Line where
  /-- Its number, from 1 on. -/
  number : Nat
  /-- The position of its first byte in the program. -/
  offset : Nat
  /-- The depth of its start. -/
  depth : Nat
  /-- The line as it is written. -/
  text : Text
  /-- Its masked form. -/
  code : Text
  deriving DecidableEq, Repr

/-- The depth behind a character. -/
def depthAfter (depth : Nat) (c : Char) : Nat :=
  if c = '{' then depth + 1 else if c = '}' then depth - 1 else depth

/-- The number of open parentheses behind a character. -/
def parensAfter (parens : Nat) (c : Char) : Nat :=
  if c = '(' then parens + 1 else if c = ')' then parens - 1 else parens

/-- A part of a line. -/
structure Statement where
  /-- The position of its first byte. -/
  start : Nat
  /-- The depth of its start. -/
  depth : Nat
  text : Text
  deriving DecidableEq, Repr

/-- A statement that gives a value to a name. -/
structure Binding where
  name : Text
  /-- The position of the name. -/
  nameStart : Nat
  /-- The text behind the equals sign, without leading blanks. -/
  value : Text
  /-- The position of the value. -/
  valueStart : Nat
  /-- The depth of the statement. -/
  depth : Nat
  deriving DecidableEq, Repr

namespace Statement

/-- Whether a character ends statements outside parentheses. -/
def isEnd (c : Char) : Bool :=
  c = ';' || c = '{' || c = '}'

/-- The statement one character earlier. -/
def extend (c : Char) (start : Nat) (s : Statement) : Statement :=
  { s with start, text := c :: s.text }

/-- The pieces of a masked text from a given position on, the blank ones among them. -/
def piecesFrom (start depth parens : Nat) : Text → List Statement
  | [] => [⟨start, depth, []⟩]
  | c :: t =>
      if isEnd c && parens = 0 then
        ⟨start, depth, []⟩ :: piecesFrom (start + c.utf8Size) (depthAfter depth c) parens t
      else
        (piecesFrom (start + c.utf8Size) depth (parensAfter parens c) t).modifyHead
          (extend c start)

/-- The binding that a statement is. -/
def binding? (s : Statement) : Option Binding :=
  let indent := s.text.takeWhile Text.isBlank
  let body := s.text.dropWhile Text.isBlank
  let name := Ident.leading body
  let gap := (body.drop name.length).takeWhile Text.isBlank
  match (body.drop name.length).dropWhile Text.isBlank with
  | '=' :: rest =>
      if name = [] || rest.head? = some '=' then none
      else
        let nameStart := s.start + Text.byteSize indent
        let equalsStart := nameStart + Text.byteSize name + Text.byteSize gap
        some {
          name
          nameStart
          value := Text.trimStart rest
          valueStart := equalsStart + 1 + Text.byteSize (rest.takeWhile Text.isBlank)
          depth := s.depth }
  | _ => none

end Statement

namespace Line

/-- The statements of a line, the blank ones left out. -/
def statements (l : Line) : List Statement :=
  (Statement.piecesFrom 0 l.depth 0 l.code).filter fun s => !Text.isAllBlank s.text

/-- The bindings of a line. -/
def bindings (l : Line) : List Binding :=
  l.statements.filterMap Statement.binding?

/-- The column, from 1 on, of a position. -/
def column (l : Line) (position : Nat) : Nat :=
  Text.scalarsBefore l.text position + 1

/-- The lines of a program from a given place on. -/
def linesFrom (number offset depth : Nat) (mode : Mode) : List Text → List Line
  | [] => []
  | raw :: raws =>
      let text := Text.dropReturn raw
      let code := Text.mask mode text
      ⟨number, offset, depth, text, code⟩ ::
        linesFrom (number + 1) (offset + Text.byteSize raw + 1) (code.foldl depthAfter depth)
          (mode.after text).nextLine raws

/-- The lines of a program. -/
def ofSource (source : Text) : List Line :=
  linesFrom 1 0 0 .code (Text.rawLines source)

end Line
end DspCheck
