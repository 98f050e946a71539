import DspCheck.Text.Classes

/-!
# Numbers

A decimal literal is made of digits with at most one point among them and an optional exponent, as
in `48000`, `.5`, `1.` and `2.5e6`.  It has no sign, neither in front nor in the exponent.  In a
program it is read as a longest run of digits, points and the letters `e` and `E`, so the sign of an
exponent ends it.

The non-negative numbers of the 64-bit binary format stand for them.  All finite ones are multiples
of `2⁻¹⁰⁷⁴`, so a natural number says which one it is.

* `Binary64.ofRatio` rounds a fraction to the nearest number, and to the even one of two that are
  equally near.
* `Binary64.toText` writes the shortest decimal that is rounded back to the number, without an
  exponent.
-/

namespace DspCheck

/-- The number `digits * 10 ^ exponent`. -/
structure Decimal where
  digits : Nat
  exponent : Int
  deriving DecidableEq, Repr

namespace Decimal

/-- The value of an exponent with its letter; an empty text stands for zero. -/
def exponent? : Text → Option Nat
  | [] => some 0
  | c :: t =>
      if (c = 'e' || c = 'E') && t ≠ [] && t.all Char.isDigit then some (Text.digitsValue t)
      else none

/-- The text behind a point, if one comes first. -/
def afterPoint : Text → Text
  | [] => []
  | c :: t => if c = '.' then t else []

/-- The number that a text is a literal of. -/
def read? (t : Text) : Option Decimal := do
  let whole := t.takeWhile Char.isDigit
  let rest := t.dropWhile Char.isDigit
  let fraction := (afterPoint rest).takeWhile Char.isDigit
  let rest :=
    if rest.head? = some '.' then (afterPoint rest).dropWhile Char.isDigit else rest
  let exponent ← exponent? rest
  if whole = [] && fraction = [] then none
  else return ⟨Text.digitsValue (whole ++ fraction), exponent - fraction.length⟩

end Decimal

/-- A non-negative number of the format. -/
inductive Binary64
  /-- The number `units * 2⁻¹⁰⁷⁴`. -/
  | finite (units : Nat)
  | infinite
  deriving DecidableEq, Repr

namespace Binary64

/-- The number of units in one, as a power of two. -/
def unitBits : Nat := 1074

/-- The number of binary digits that a number keeps. -/
def precision : Nat := 53

/-- The units of the least power of two that is too large for the format, as a power of two. -/
def overflowBits : Nat := 1024 + unitBits

/-- The natural number nearest to a fraction; of two, the even one. -/
def nearestEven (numerator denominator : Nat) : Nat :=
  let quotient := numerator / denominator
  let twice := 2 * (numerator % denominator)
  if twice < denominator then quotient
  else if denominator < twice then quotient + 1
  else if quotient % 2 = 0 then quotient
  else quotient + 1

/-- The number of binary digits of a natural number. -/
def bitLength (n : Nat) : Nat :=
  if n = 0 then 0 else n.log2 + 1

/-- The number nearest to a fraction. -/
def ofRatio (numerator denominator : Nat) : Binary64 :=
  let scaled := numerator * Nat.pow 2 unitBits
  let lost := bitLength (scaled / denominator) - precision
  let units := nearestEven scaled (denominator * Nat.pow 2 lost) * Nat.pow 2 lost
  if units < Nat.pow 2 overflowBits then finite units else infinite

/-- The number nearest to a natural number. -/
def ofNat (n : Nat) : Binary64 :=
  ofRatio n 1

/-- The fraction that a decimal is. -/
def ratioOf (d : Decimal) : Nat × Nat :=
  (d.digits * Nat.pow 10 d.exponent.toNat, Nat.pow 10 (-d.exponent).toNat)

/-- A decimal is too large for the format if it is at least ten to this power. -/
def greatestExponent : Int := 310

/-- A decimal is rounded to zero if it is less than ten to this power. -/
def leastExponent : Int := -330

/-- The number nearest to a decimal. -/
def ofDecimal (d : Decimal) : Binary64 :=
  let magnitude := d.exponent + (Text.decimal d.digits).length
  if d.digits = 0 then finite 0
  else if greatestExponent < magnitude then infinite
  else if magnitude < leastExponent then finite 0
  else ofRatio (ratioOf d).1 (ratioOf d).2

/-- Whether a number is less than another one. -/
def less : Binary64 → Binary64 → Bool
  | finite m, finite n => m < n
  | finite _, infinite => true
  | infinite, _ => false

/-- The multiple of `10 ^ exponent` that is rounded to a number of units: the multiple below or the
one above the number, whichever is nearer; the one above if both are equally near. -/
def decimalOn? (units : Nat) (exponent : Int) : Option Decimal :=
  let numerator := units * Nat.pow 10 (-exponent).toNat
  let denominator := Nat.pow 2 unitBits * Nat.pow 10 exponent.toNat
  let below := numerator / denominator
  let twice := 2 * (numerator % denominator)
  let order := if twice < denominator then [below, below + 1] else [below + 1, below]
  (order.map (⟨·, exponent⟩)).find? fun d => ofDecimal d = finite units

/-- Powers of ten from one above all numbers down to one below all differences between them. -/
def exponents : List Int :=
  (List.range 660).map fun n : Nat => 310 - Int.ofNat n

/-- The shortest decimal that is rounded to a number of units. -/
def shortest (units : Nat) : Decimal :=
  if units = 0 then ⟨0, 0⟩ else (exponents.findSome? (decimalOn? units)).getD ⟨0, 0⟩

/-- A decimal without an exponent. -/
def positional (d : Decimal) : Text :=
  let digits := Text.decimal d.digits
  let places := (-d.exponent).toNat
  if places = 0 then digits ++ List.replicate d.exponent.toNat '0'
  else
    let padded := List.replicate (places + 1 - digits.length) '0' ++ digits
    padded.take (padded.length - places) ++ '.' :: padded.drop (padded.length - places)

/-- The shortest text that is read as a number. -/
def toText : Binary64 → Text
  | finite units => positional (shortest units)
  | infinite => "inf"

end Binary64

namespace Literal

/-- The characters of which literals consist. -/
def isChar (c : Char) : Bool :=
  c.isDigit || c = '.' || c = 'e' || c = 'E'

/-- The characters that may follow a literal that stands for a whole expression. -/
def isEnd (c : Char) : Bool :=
  c = ';' || c = ')' || c = ',' || c = ':' || c = '<' || c = '>' || c = '~'

/-- The literal at the start of a text, leading blanks aside, and the text behind it. -/
def leading? (t : Text) : Option (Binary64 × Text) :=
  let t := Text.trimStart t
  let token := t.takeWhile isChar
  if token.head?.any fun c => c.isDigit || c = '.' then
    (Decimal.read? token).map fun d => (.ofDecimal d, t.dropWhile isChar)
  else none

/-- The literal that a text is, blanks and what follows the expression aside. -/
def whole? (t : Text) : Option Binary64 :=
  match leading? t with
  | none => none
  | some (value, rest) => if (Text.trimStart rest).head?.all isEnd then some value else none

end Literal
end DspCheck
