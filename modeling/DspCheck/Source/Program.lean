import DspCheck.Diagnostic.Basic
import DspCheck.Source.Line
import DspCheck.Source.Reference

/-!
# Programs

A program is what all checks read: its masked lines, each with the references on it.
-/

namespace DspCheck

/-- A line of a program with its references. -/
structure ProgramLine extends Line where
  references : List Reference
  deriving DecidableEq, Repr

/-- The lines of a program. -/
abbrev Program := List ProgramLine

namespace ProgramLine

/-- A line with its references. -/
def ofLine (l : Line) : Except ForeignCharacter ProgramLine :=
  (Reference.scan l.code).map fun references => { l with references }

/-- The references that are called. -/
def calls (l : ProgramLine) : List Reference :=
  l.references.filter Reference.isCall

end ProgramLine

namespace Line

/-- The diagnostic put at a place of a line. -/
def place (l : Line) (d : Diagnostic) (start stop : Nat) : Diagnostic :=
  { d with
    line := l.number
    column := l.column start
    span? := some (Span.between (l.offset + start) (l.offset + stop)) }

end Line

namespace Program

/-- The program of a source text. -/
def ofSource (source : Text) : Except ForeignCharacter Program :=
  (Line.ofSource source).mapM ProgramLine.ofLine

/-- The bindings of a program. -/
def bindings (p : Program) : List Binding :=
  p.flatMap fun l => l.bindings

end Program
end DspCheck
