import DspCheck.Command.Fault
import DspCheck.Diagnostic.Basic

/-!
# Notices

A notice is what is drawn for a user: a diagnostic with the part of the program that it is about, or
a fault.
-/

namespace DspCheck

/-- A part of a program that is pointed out. -/
structure NoticeLabel where
  text? : Option Text
  /-- The position of its first byte. -/
  start : Nat
  /-- Its number of bytes. -/
  length : Nat
  deriving DecidableEq, Repr

/-- A message with all that is drawn with it. -/
structure Notice where
  message : Text
  tag? : Option Text
  help? : Option Text
  severity? : Option Severity
  /-- The program that the message is about. -/
  source? : Option Text
  label? : Option NoticeLabel
  /-- What lies behind the message. -/
  cause? : Option Text
  deriving DecidableEq, Repr

namespace Notice

/-- The notice of a diagnostic about a program. -/
def ofDiagnostic (source : Text) (d : Diagnostic) : Notice where
  message := d.message
  tag? := d.code?.map Code.tag
  help? := d.suggestion?
  severity? := some d.severity
  source? := some source
  label? := d.span?.map fun s => ⟨d.code?.map Code.description, s.start, s.length⟩
  cause? := none

/-- The notice of a fault. -/
def ofFault (f : Fault) : Notice where
  message := f.message
  tag? := some f.tag
  help? := f.help?
  severity? := none
  source? := none
  label? := none
  cause? := f.cause?

/-- The part of the first line that names the kind of message. -/
def tagPart : Option Text → Text
  | none => []
  | some tag => tag ++ ": "

/-- The lines of a notice: its message behind its tag, and what to do about it. -/
def lines (n : Notice) : List Text :=
  (tagPart n.tag? ++ n.message) :: n.help?.toList.map ("  help: ".toList ++ ·)

end Notice
end DspCheck
