import DspCheck.ArgumentList
import DspCheck.Diagnostic.Finding
import DspCheck.Number.Binary64
import DspCheck.Rules
import DspCheck.Text.Search

/-!
# Delay constants

A delay is written `@ n` or `@(n)`, or as a call of a library function whose name ends in `delay`
with `n` as its first argument.  If `n` is a number literal, it is compared with the limit as a
binary floating point number.
-/

namespace DspCheck

/-- A delay constant with its position on its line. -/
structure DelayConstant where
  position : Nat
  samples : Binary64
  deriving DecidableEq

namespace DelayConstant

/-- The constant that follows an at sign. -/
def operand? (t : Text) : Option Binary64 :=
  let t := Text.trimStart t
  match ArgumentList.read? t with
  | none => Literal.whole? t
  | some l =>
      match l.args with
      | [arg] => Literal.whole? arg
      | _ => none

/-- The constants behind the at signs of a text from a given position on. -/
def operandsFrom (position : Nat) : Text → List DelayConstant
  | [] => []
  | c :: t =>
      let here := if c = '@' then (operand? t).toList else []
      here.map (⟨position, ·⟩) ++ operandsFrom (position + c.utf8Size) t

/-- The constant in the call of a delay function. -/
def ofCall? (r : Reference) : Option DelayConstant :=
  if Text.endsWith "delay" r.name then
    match ArgumentList.read? r.follow with
    | none => none
    | some l => (l.args.head?.bind Literal.whole?).map (⟨r.start, ·⟩)
  else none

/-- The delay constants of a line in the order of their positions. -/
def ofLine (l : ProgramLine) : List DelayConstant :=
  (operandsFrom 0 l.code ++ l.references.filterMap ofCall?).mergeSort
    fun a b => a.position ≤ b.position

/-- The remark about a constant above the limit. -/
def remark? (limit : Nat) (d : DelayConstant) : Option Remark :=
  if (Binary64.ofNat limit).less d.samples then
    some ⟨.oversizedDelay d.samples limit, d.position, d.position + 1⟩
  else none

end DelayConstant

namespace Program

/-- The diagnostics about the delay constants of a program. -/
def checkDelays (rules : Rules) (p : Program) : List Diagnostic :=
  p.flatMap fun l =>
    ((DelayConstant.ofLine l).filterMap (DelayConstant.remark? rules.maxDelay)).map
      (Remark.diagnostic l.toLine)

end Program
end DspCheck
