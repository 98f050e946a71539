import DspCheck.Diagnostic.Finding
import DspCheck.Text.Search

/-!
# Bindings

Two kinds of bindings are wrong whatever the libraries are: one that uses its own name as a
library, as in `fi = fi.lowpass(3, 800)`, and one whose value is a string.

A binding of a library or an environment makes its name a *local library*, of which nothing is
known.
-/

namespace DspCheck

namespace Text

/-- Whether a text starts with a word, not with a longer identifier. -/
def startsWithWord (word t : Text) : Bool :=
  match after? word t with
  | none => false
  | some rest => !rest.head?.any Ident.isPart

end Text

namespace Binding

/-- Whether a binding makes its name a library. -/
def isLibrary (b : Binding) : Bool :=
  Text.startsWithWord "library" b.value || Text.startsWithWord "environment" b.value

/-- Whether a binding uses its own name as a library. -/
def isRecursive (b : Binding) : Bool :=
  match Text.after? b.name b.value with
  | some ('.' :: rest) => Ident.leading rest ≠ []
  | _ => false

/-- The remark about a binding that uses its own name as a library. -/
def recursion? (b : Binding) : Option Remark :=
  if b.isRecursive then
    some ⟨.recursiveDefinition b.name, b.nameStart, b.nameStart + Text.byteSize b.name⟩
  else none

/-- The string literal, with its quotes, that the value of a binding consists of. -/
def literal? (b : Binding) : Option Text :=
  match b.value with
  | '"' :: rest =>
      match Text.breakAt? "\"" rest with
      | none => none
      | some (content, behind) =>
          let behind := Text.trim behind
          if behind = [] || behind = ";" then some ('"' :: content ++ "\"") else none
  | _ => none

/-- The remark about a binding whose value is a string. -/
def stringValue? (b : Binding) : Option Remark :=
  b.literal?.map fun literal =>
    ⟨.stringAssignment b.name, b.valueStart, b.valueStart + Text.byteSize literal⟩

/-- The remarks about a binding. -/
def remarks (b : Binding) : List Remark :=
  b.recursion?.toList ++ b.stringValue?.toList

end Binding

namespace Line

/-- The remarks about the bindings of a line. -/
def bindingRemarks (l : Line) : List Remark :=
  l.bindings.flatMap Binding.remarks

/-- The names that are used as libraries in their own bindings. -/
def recursiveNames (l : Line) : List Text :=
  (l.bindings.filter Binding.isRecursive).map Binding.name

end Line

namespace Program

/-- The names that are bound as libraries anywhere in a program. -/
def localLibraries (p : Program) : List Text :=
  (p.bindings.filter Binding.isLibrary).map Binding.name

end Program
end DspCheck
