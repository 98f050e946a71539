import DspCheck.Check.Calls
import DspCheck.Check.Delay
import DspCheck.Check.Division

/-!
# Validation

Two checks look at the program as a whole: a program that uses a library has to import one, and
every program has to bind its output at the top level.

A validation gathers what all checks say about a program.  The program is valid if there are no
errors; warnings and suggestions do not matter for that.
-/

namespace DspCheck

namespace Program

/-- Whether a program imports a library. -/
def hasImport (rules : Rules) (p : Program) : Bool :=
  p.any fun l => l.mentions rules.imports

/-- The first reference on a line to a library of the catalog. -/
def firstKnown? (c : Catalog) (l : ProgramLine) : Option Diagnostic :=
  (l.references.find? fun r => c.hasLibrary r.library).map fun r =>
    Remark.diagnostic l.toLine
      ⟨.missingImport r.library, r.start, r.start + Text.byteSize r.library⟩

/-- The diagnostic about a program that uses a library without an import. -/
def checkImport? (c : Catalog) (rules : Rules) (p : Program) : Option Diagnostic :=
  if p.hasImport rules then none else p.findSome? (firstKnown? c)

/-- Whether a program binds a name at its top level. -/
def definesAtTop (name : Text) (p : Program) : Bool :=
  p.bindings.any fun b => b.depth = 0 && b.name = name

/-- The diagnostic about a program that does not bind its output. -/
def checkEntryPoint? (rules : Rules) (p : Program) : Option Diagnostic :=
  if p.definesAtTop rules.entryPoint then none
  else some (Finding.missingEntryPoint rules.entryPoint).diagnostic

end Program

/-- What all checks say about a program. -/
structure Verdict where
  errors : List Diagnostic
  warnings : List Diagnostic
  suggestions : List Text
  deriving DecidableEq

namespace Verdict

/-- Whether the program is valid. -/
def isValid (v : Verdict) : Bool :=
  v.errors.isEmpty

end Verdict

namespace Program

/-- The diagnostics of all checks. -/
def diagnostics (c : Catalog) (rules : Rules) (p : Program) : List Diagnostic :=
  p.check c rules ++ p.checkDelays rules ++ (p.checkImport? c rules).toList
    ++ (p.checkEntryPoint? rules).toList

/-- The verdict about a program. -/
def verdict (c : Catalog) (rules : Rules) (p : Program) : Verdict :=
  let divided := Diagnostic.divide (p.diagnostics c rules)
  ⟨divided.1, divided.2, p.divisionAdvice rules⟩

end Program

/-- The diagnostics about the bindings and calls of a source text. -/
def check (c : Catalog) (rules : Rules) (source : Text) :
    Except ForeignCharacter (List Diagnostic) :=
  (Program.ofSource source).map (Program.check c rules)

/-- The verdict about a source text. -/
def validate (c : Catalog) (rules : Rules) (source : Text) : Except ForeignCharacter Verdict :=
  (Program.ofSource source).map (Program.verdict c rules)

end DspCheck
