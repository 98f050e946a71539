import DspCheck.ArgumentList
import DspCheck.Catalog.Basic
import DspCheck.Check.Bindings
import DspCheck.Rules

/-!
# Calls of library functions

Each call is compared with the catalog: its library must be known, the library must have the
function, and the function must take that number of arguments.  Nothing is said about the members of
local libraries, about unknown libraries with long names, about functions that take any number of
arguments, and about the arguments of a call whose parentheses do not close on its line.

`Program.check` yields the remarks about bindings and calls, line by line.
-/

namespace DspCheck

namespace Reference

/-- The remark about a call of an unknown library. -/
def unknownLibrary (c : Catalog) (r : Reference) : Remark :=
  ⟨.unknownLibrary r.library c.libraryNames, r.start, r.start + Text.byteSize r.library⟩

/-- The remark about a call of an unknown function of a known library. -/
def unknownFunction (c : Catalog) (rules : Rules) (r : Reference) : Remark :=
  ⟨.unknownFunction r.library r.name (c.suggestions r.library r.name rules.maxSuggestions),
    r.start, r.stop⟩

/-- The remark about the arguments of a call of a known function. -/
def argumentRemark? (s : Signature) (r : Reference) : Option Remark :=
  match ArgumentList.read? r.follow with
  | none => none
  | some l =>
      if s.argCount = 0 || l.args.length = s.argCount then none
      else some ⟨.argumentCount r.fullName s l.args.length, r.start, r.followStart + l.consumed⟩

/-- The remark about a call.  The names that its line uses as libraries in their own bindings are
not taken for mistyped libraries. -/
def remark? (c : Catalog) (rules : Rules) (recursive : List Text) (r : Reference) :
    Option Remark :=
  if !c.hasLibrary r.library then
    if recursive.contains r.library || rules.maxUnknownLibrary < Text.byteSize r.library then none
    else some (r.unknownLibrary c)
  else
    match c.get? r.fullName with
    | none => some (r.unknownFunction c rules)
    | some s => r.argumentRemark? s

end Reference

namespace ProgramLine

/-- The remarks about the calls on a line. -/
def callRemarks (c : Catalog) (rules : Rules) (localLibraries : List Text) (l : ProgramLine) :
    List Remark :=
  (l.calls.filter fun r => !localLibraries.contains r.library).filterMap
    (Reference.remark? c rules l.recursiveNames)

/-- The diagnostics about the bindings and then the calls on a line. -/
def check (c : Catalog) (rules : Rules) (localLibraries : List Text) (l : ProgramLine) :
    List Diagnostic :=
  (l.bindingRemarks ++ l.callRemarks c rules localLibraries).map (Remark.diagnostic l.toLine)

end ProgramLine

namespace Program

/-- The diagnostics about the bindings and calls of a program. -/
def check (c : Catalog) (rules : Rules) (p : Program) : List Diagnostic :=
  p.flatMap (ProgramLine.check c rules p.localLibraries)

end Program
end DspCheck
