import DspCheck.ArgumentList
import DspCheck.Text.Search

/-!
# Shapes of functions

The usage of a function shows a call of it with placeholders `_` for its signals, as in
`_,_ : stereo(a,b) : _`: those before the call are its inputs, those after it its outputs, and the
list in parentheses names its arguments.
-/

namespace DspCheck

/-- The arguments and the numbers of signals of a function. -/
structure Shape where
  args : List Text
  inputs : Nat
  outputs : Nat
  deriving DecidableEq, Repr

namespace Shape

/-- The shape of a function of which only the arguments are known. -/
def ofArgs (args : List Text) : Shape :=
  ⟨args, 0, 1⟩

/-- The number of placeholders outside parentheses in a text, given what stands before it. -/
def placeholdersFrom (before? : Option Char) (depth : Nat) : Text → Nat
  | [] => 0
  | c :: t =>
      if c = '(' then placeholdersFrom (some c) (depth + 1) t
      else if c = ')' then placeholdersFrom (some c) (depth - 1) t
      else
        let rest := placeholdersFrom (some c) depth t
        if c = '_' && depth = 0 && Text.isFree before? && Text.isFree t.head? then rest + 1
        else rest

/-- The number of placeholders outside parentheses in a text. -/
def placeholders (t : Text) : Nat :=
  placeholdersFrom none 0 t

/-- What stands before a call, given what stands before the name: a library name with a dot belongs
to the call. -/
def beforeCall (beforeName : Text) : Text :=
  match beforeName.reverse with
  | '.' :: r => (r.dropWhile Ident.isPart).reverse
  | _ => beforeName

/-- The arguments behind a name, and what stands behind them. -/
def argsAfter? (afterName : Text) : Option (List Text × Text) :=
  let t := Text.trimStart afterName
  if t.head? = some '(' then (ArgumentList.read? t).map fun l => (l.args, l.rest)
  else some ([], afterName)

/-- The shape that a line of usage shows. -/
def ofLine? (name line : Text) : Option Shape := do
  let (beforeName, afterName) ← Text.breakAtWord? name line
  let (args, rest) ← argsAfter? afterName
  return ⟨args, placeholders (beforeCall beforeName), max 1 (placeholders rest)⟩

/-- The shape that the first line of usage with a call shows. -/
def ofUsage? (name : Text) (usage : List Text) : Option Shape :=
  usage.findSome? (ofLine? name)

/-- The arguments in a definition such as `lowpass(N,fc) = …`. -/
def argsOfDefinition (name definition : Text) : List Text :=
  match Text.after? name definition with
  | none => []
  | some rest =>
      match ArgumentList.read? (Text.trimStart rest) with
      | none => []
      | some l => l.args

end Shape
end DspCheck
