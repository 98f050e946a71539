import DspCheck.Text.Basic

/-!
# Kinds of problems

Each kind of problem has a code, a severity and, for some, the name of the remedy that explains
it.  Codes that start with `E` are errors and make a program invalid; codes that start with `W` are
warnings.
-/

namespace DspCheck

/-- How a diagnostic affects the verdict. -/
inductive Severity
  /-- The program is invalid. -/
  | error
  /-- A likely mistake in a program that may be valid. -/
  | warning
  deriving DecidableEq, Repr

namespace Severity

/-- The name of a severity. -/
def name : Severity → Text
  | error => "error"
  | warning => "warning"

end Severity

/-- The kinds of problems. -/
inductive Code
  /-- The library is known, but it has no such function. -/
  | unknownFunction
  /-- A function is called with a number of arguments that it does not take. -/
  | argumentCount
  /-- A binding uses its own name as a library. -/
  | recursiveDefinition
  /-- A string is bound as a value. -/
  | stringAssignment
  /-- The program does not define its output. -/
  | missingEntryPoint
  /-- A short name before a dot is no known library. -/
  | unknownLibrary
  /-- Library functions are used, but no library is imported. -/
  | missingImport
  /-- A delay constant exceeds the limit. -/
  | oversizedDelay
  deriving DecidableEq, Repr

namespace Code

/-- All kinds of problems. -/
def all : List Code :=
  [unknownFunction, argumentCount, recursiveDefinition, stringAssignment, missingEntryPoint,
    unknownLibrary, missingImport, oversizedDelay]

/-- The short form that users see. -/
def tag : Code → Text
  | unknownFunction => "E100"
  | argumentCount => "E101"
  | recursiveDefinition => "E102"
  | stringAssignment => "E103"
  | missingEntryPoint => "E104"
  | unknownLibrary => "W200"
  | missingImport => "W201"
  | oversizedDelay => "W202"

/-- A few words that say what the problem is. -/
def description : Code → Text
  | unknownFunction => "unknown function"
  | argumentCount => "argument count mismatch"
  | recursiveDefinition => "recursive definition"
  | stringAssignment => "invalid string assignment"
  | missingEntryPoint => "missing entry point"
  | unknownLibrary => "unknown library prefix"
  | missingImport => "missing import"
  | oversizedDelay => "oversized delay"

/-- The severity of the problem. -/
def severity : Code → Severity
  | unknownFunction | argumentCount | recursiveDefinition | stringAssignment
  | missingEntryPoint => .error
  | unknownLibrary | missingImport | oversizedDelay => .warning

/-- The name of the remedy that explains the problem. -/
def remedyId? : Code → Option Text
  | unknownFunction => some "unknown_function"
  | argumentCount => some "wrong_arg_count"
  | recursiveDefinition => some "endless_evaluation"
  | stringAssignment => some "string_assignment"
  | oversizedDelay => some "invalid_delay"
  | missingEntryPoint | unknownLibrary | missingImport => none

/-- The kind of problem with a given short form. -/
def ofTag? (t : Text) : Option Code :=
  all.find? (·.tag = t)

theorem mem_all (c : Code) : c ∈ all := by
  cases c <;> decide

@[simp] theorem ofTag?_tag (c : Code) : ofTag? c.tag = some c := by
  cases c <;> decide

end Code
end DspCheck
