import DspCheck.Text.Classes
import DspCheck.Value

/-!
# Rule settings

The settings that a user may change.  In a configuration each of them may be left out.
-/

namespace DspCheck

/-- The settings of the rules. -/
structure Rules where
  /-- The name that a program must bind at its top level. -/
  entryPoint : Text
  /-- The greatest delay constant, in samples, that is not reported. -/
  maxDelay : Nat
  /-- The number of functions that are suggested for an unknown one. -/
  maxSuggestions : Nat
  /-- The length in bytes up to which an unknown name before a dot is taken for a mistyped
  library. -/
  maxUnknownLibrary : Nat
  /-- Words that guard a division on their line. -/
  guards : List Text
  /-- Words that import a library. -/
  imports : List Text
  deriving DecidableEq, Repr

/-- A setting that no check can use, and why. -/
structure RuleFault where
  setting : Text
  reason : Text
  deriving DecidableEq, Repr

namespace RuleFault

/-- What is wrong with the settings. -/
def message (f : RuleFault) : Text :=
  "Invalid rule setting " ++ Text.quoted f.setting ++ ": " ++ f.reason

end RuleFault

namespace Rules

/-- The settings of a user who has changed none. -/
def standard : Rules where
  entryPoint := "process"
  maxDelay := 192000
  maxSuggestions := 5
  maxUnknownLibrary := 3
  guards := ["max", "min", "clamp", "ma.EPSILON", "ba.if", "select2"]
  imports := ["import", "library"]

/-- The names of the settings in configurations. -/
def settingNames : List Text :=
  ["entry_point", "max_delay", "max_suggestions", "unknown_prefix_max_len", "guard_functions",
    "import_directives"]

/-- The settings that a value holds. -/
def ofValue? (v : Value) : Option Rules := do
  let field ← v.fieldsOf? settingNames
  return {
    entryPoint := ← Value.defaulted standard.entryPoint Value.asText? (field "entry_point")
    maxDelay := ← Value.defaulted standard.maxDelay Value.asCount? (field "max_delay")
    maxSuggestions :=
      ← Value.defaulted standard.maxSuggestions Value.asCount? (field "max_suggestions")
    maxUnknownLibrary :=
      ← Value.defaulted standard.maxUnknownLibrary Value.asCount? (field "unknown_prefix_max_len")
    guards :=
      ← Value.defaulted standard.guards (Value.asListOf? Value.asText?) (field "guard_functions")
    imports :=
      ← Value.defaulted standard.imports (Value.asListOf? Value.asText?)
        (field "import_directives") }

/-- The first reason why no check can use the settings. -/
def fault? (r : Rules) : Option RuleFault :=
  if !Ident.isIdent r.entryPoint then
    some ⟨"entry_point", Text.quoted r.entryPoint ++ " is not an identifier"⟩
  else if r.imports.any Text.isAllBlank then
    some ⟨"import_directives", "directives must not be empty"⟩
  else none

end Rules
end DspCheck
