import DspCheck.Diagnostic.Code
import DspCheck.Span

/-!
# Diagnostics

A diagnostic is a message about a program, with its place where it has one.
-/

namespace DspCheck

/-- A message about a program. -/
structure Diagnostic where
  severity : Severity
  code? : Option Code
  message : Text
  /-- The line, from 1 on; 0 if the message is about the whole program. -/
  line : Nat
  /-- The column in scalars, from 1 on; 0 if it is unknown. -/
  column : Nat
  /-- The bytes of the program that the message is about. -/
  span? : Option Span
  /-- What to do about it. -/
  suggestion? : Option Text
  deriving DecidableEq, Repr

namespace Diagnostic

/-- A bare message. -/
def plain (severity : Severity) (message : Text) : Diagnostic :=
  ⟨severity, none, message, 0, 0, none, none⟩

/-- A message about a problem of a known kind, with the severity of that kind. -/
def ofCode (code : Code) (message : Text) : Diagnostic :=
  { plain code.severity message with code? := some code }

/-- Whether a diagnostic makes a program invalid. -/
def isError (d : Diagnostic) : Bool :=
  d.severity = .error

/-- The part of the headline that names the kind of problem. -/
def tagPart : Option Code → Text
  | none => []
  | some code => "[" ++ code.tag ++ "]"

/-- The part of the headline that names the place. -/
def placePart (line column : Nat) : Text :=
  if line = 0 then [] else " line " ++ Text.decimal line ++ ":" ++ Text.decimal column

/-- The diagnostic on one line, without its suggestion. -/
def headline (d : Diagnostic) : Text :=
  d.severity.name ++ tagPart d.code? ++ placePart d.line d.column ++ ": " ++ d.message

/-- The errors and the warnings of a list, each in its order. -/
def divide (ds : List Diagnostic) : List Diagnostic × List Diagnostic :=
  ds.partition isError

theorem isError_of_mem_divide {d : Diagnostic} {ds : List Diagnostic} (h : d ∈ (divide ds).1) :
    d.isError = true := by
  rw [divide, List.partition_eq_filter_filter] at h
  exact (List.mem_filter.1 h).2

/-- No diagnostic comes from elsewhere. -/
theorem mem_of_mem_divide {d : Diagnostic} {ds : List Diagnostic}
    (h : d ∈ (divide ds).1 ++ (divide ds).2) : d ∈ ds := by
  rw [divide, List.partition_eq_filter_filter] at h
  rcases List.mem_append.1 h with h | h
  · exact (List.mem_filter.1 h).1
  · exact (List.mem_filter.1 h).1

/-- Changing the diagnostics before or after they are divided. -/
theorem divide_map {f : Diagnostic → Diagnostic} (hf : ∀ d, (f d).isError = d.isError)
    (ds : List Diagnostic) : divide (ds.map f) = ((divide ds).1.map f, (divide ds).2.map f) := by
  have herror : isError ∘ f = isError := funext hf
  have hwarning : (not ∘ isError) ∘ f = not ∘ isError := congrArg (not ∘ ·) herror
  simp only [divide, List.partition_eq_filter_filter, List.filter_map, herror, hwarning]

/-- Leaving diagnostics out before or after they are divided. -/
theorem divide_filter (p : Diagnostic → Bool) (ds : List Diagnostic) :
    divide (ds.filter p) = ((divide ds).1.filter p, (divide ds).2.filter p) := by
  simp only [divide, List.partition_eq_filter_filter, List.filter_filter, Bool.and_comm]

end Diagnostic
end DspCheck
