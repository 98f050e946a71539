import DspCheck.Number.Binary64
import DspCheck.Toml.Moment
import DspCheck.Value

/-!
# Bare values of TOML

A bare word is a truth value, an integer, a floating point number or a moment.  Single underscores
may stand between digits.

Integers have at most 128 bits, and floating point numbers are less than the greatest ones of the
64-bit format.  Words for greater numbers are well formed, but stand for no value that can be held.
-/

namespace DspCheck
namespace Toml

/-- Digits of a kind with single underscores between them, as the digits alone. -/
def digitRun? (isDigit : Char → Bool) (t : Text) : Option Text :=
  let runs := t.splitOn '_'
  if runs.all fun run => run ≠ [] && run.all isDigit then some runs.flatten else none

/-- The digits of a decimal integer without a sign: no zero comes first. -/
def decimalDigits? (t : Text) : Option Text := do
  let digits ← digitRun? Char.isDigit t
  if digits.head? = some '0' && 1 < digits.length then none else some digits

/-- The value of a digit in a base of at most sixteen. -/
def digitValue (c : Char) : Nat :=
  if c.isDigit then c.toNat - '0'.toNat
  else if 'a' ≤ c then c.toNat - 'a'.toNat + 10
  else c.toNat - 'A'.toNat + 10

/-- Whether a character is a digit in a base of at most sixteen. -/
def isDigitIn (base : Nat) (c : Char) : Bool :=
  (c.isDigit || 'a' ≤ c && c ≤ 'f' || 'A' ≤ c && c ≤ 'F') && digitValue c < base

/-- The value of digits in a base. -/
def valueIn (base : Nat) (digits : Text) : Nat :=
  digits.foldl (fun n c => base * n + digitValue c) 0

/-- The integer of a word such as `0xff`. -/
def basedInteger? : Text → Option Nat
  | '0' :: 'x' :: t => (digitRun? (isDigitIn 16) t).map (valueIn 16)
  | '0' :: 'o' :: t => (digitRun? (isDigitIn 8) t).map (valueIn 8)
  | '0' :: 'b' :: t => (digitRun? (isDigitIn 2) t).map (valueIn 2)
  | _ => none

/-- A word without a sign at its start. -/
def unsigned (w : Text) : Text :=
  match w with
  | c :: t => if c = '+' || c = '-' then t else w
  | [] => []

/-- Whether a word starts with a minus sign. -/
def isNegative (w : Text) : Bool :=
  w.head? = some '-'

/-- The integer of a decimal word without its sign. -/
def decimalInteger? (w : Text) : Option Nat :=
  (decimalDigits? (unsigned w)).map Text.digitsValue

/-- The value of an integer, given its word. -/
def integerValue (w : Text) (n : Nat) : Value :=
  if isNegative w && n ≠ 0 then
    if n ≤ Nat.pow 2 127 then .numeral w else .garbled
  else if n < Nat.pow 2 128 then .natural n
  else .garbled

/-- The value of an exponent with its sign, but without its letter. -/
def exponent? (t : Text) : Option Int :=
  (digitRun? Char.isDigit (unsigned t)).map fun digits =>
    if isNegative t then -(Text.digitsValue digits : Int) else Text.digitsValue digits

/-- Whether a letter announces an exponent. -/
def isExponentMark (c : Char) : Bool :=
  c = 'e' || c = 'E'

/-- The digits behind a point, and the exponent. -/
def fractionAndExponent? (t : Text) : Option (Text × Int) := do
  let digits ← digitRun? Char.isDigit (t.takeWhile (!isExponentMark ·))
  match t.dropWhile (!isExponentMark ·) with
  | [] => some (digits, 0)
  | _ :: exponent => (exponent? exponent).map (digits, ·)

/-- The floating point number of a word without its sign. -/
def decimal? (w : Text) : Option Decimal := do
  let (whole, rest) := (unsigned w).span fun c => c ≠ '.' && !isExponentMark c
  let whole ← decimalDigits? whole
  match rest with
  | [] => none
  | c :: t =>
      let (fraction, exponent) ←
        if c = '.' then fractionAndExponent? t else (exponent? t).map ([], ·)
      some ⟨Text.digitsValue (whole ++ fraction), exponent - fraction.length⟩

/-- The value of a floating point number, given its word. -/
def floatValue (w : Text) (d : Decimal) : Value :=
  if Binary64.ofDecimal d = .infinite then .garbled else .numeral w

/-- Whether a word names a floating point number that has no digits. -/
def isNamedFloat (w : Text) : Bool :=
  unsigned w = "inf" || unsigned w = "nan"

/-- The value of a moment: a record that holds it in a field of its own, so that it has no setting
of any section. -/
def momentValue (w : Text) : Value :=
  .record [("moment", .text w)]

/-- The value that a bare word is. -/
def scalar? (w : Text) : Option Value :=
  if w = "true" then some (.bool true)
  else if w = "false" then some (.bool false)
  else if isNamedFloat w then some (.numeral w)
  else if isMoment w then some (momentValue w)
  else
    ((basedInteger? w).or (decimalInteger? w)).map (integerValue w)
      |>.or ((decimal? w).map (floatValue w))

end Toml
end DspCheck
