import DspCheck.ArgumentList
import DspCheck.Number.Binary64
import DspCheck.Rules
import DspCheck.Source.Program
import DspCheck.Source.Reference
import DspCheck.Text.Search

/-!
# Divisions that may be by zero

A division by anything but a number literal calls for a guard.  A line that mentions one of the
guard words counts as guarded.  There is one suggestion for an unguarded line, about its first such
division.
-/

namespace DspCheck

namespace Line

/-- Whether one of some words stands alone on a line. -/
def mentions (words : List Text) (l : Line) : Bool :=
  words.any (Text.hasWord · l.code)

/-- What a division is by, from behind its slash on, unless it is a number literal. -/
def divisor? (t : Text) : Option Text :=
  let t := Text.trimStart t
  if t.head? = some '(' then
    match ArgumentList.read? t with
    | none => none
    | some l =>
        match l.args with
        | [arg] => if (Literal.whole? arg).isSome then none else some l.extent
        | _ => some l.extent
  else if (Literal.leading? t).isSome then none
  else
    let run := t.takeWhile Reference.isRunChar
    if run = [] then none else some run

/-- What the first division by anything but a number literal is by. -/
def firstDivisor? : Text → Option Text
  | [] => none
  | c :: t => if c = '/' then (divisor? t).or (firstDivisor? t) else firstDivisor? t

/-- The suggestion to guard a division. -/
def guardDivision (l : Line) (divisor : Text) : Text :=
  "line " ++ Text.decimal l.number ++ ": division by " ++ Text.quoted divisor
    ++ " may reach zero; guard it, e.g. "
    ++ Text.quoted ("/ max(ma.EPSILON, " ++ divisor ++ ")")

/-- The suggestion about the divisions of a line. -/
def divisionAdvice? (rules : Rules) (l : Line) : Option Text :=
  if l.mentions rules.guards then none else (firstDivisor? l.code).map l.guardDivision

end Line

namespace Program

/-- The suggestions about the divisions of a program. -/
def divisionAdvice (rules : Rules) (p : Program) : List Text :=
  p.filterMap fun l => l.divisionAdvice? rules

end Program
end DspCheck
