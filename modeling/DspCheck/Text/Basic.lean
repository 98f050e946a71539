/-!
# Texts

A text is the list of its Unicode scalars, so that every scanner of this library recurses on the
data.  Positions in a text are counted in two units:

* bytes of the UTF-8 form (`Text.byteSize`), for offsets and spans;
* scalars (`List.length`), for columns and length limits.

`Text.scalarsBefore` leads from the first unit to the second.

Texts are compared scalar by scalar (`Text.le`), which is the order of their UTF-8 bytes.  A text
comes before those that it begins.
-/

namespace DspCheck

/-- A text, as the list of its scalars. -/
abbrev Text := List Char

/-- A string literal stands for the text of its scalars. -/
instance : Coe String Text := ⟨String.toList⟩

namespace Text

/-- Number of bytes of the UTF-8 form. -/
def byteSize : Text → Nat
  | [] => 0
  | c :: t => c.utf8Size + byteSize t

@[simp] theorem byteSize_nil : byteSize [] = 0 := rfl

@[simp] theorem byteSize_cons (c : Char) (t : Text) :
    byteSize (c :: t) = c.utf8Size + byteSize t := rfl

@[simp] theorem byteSize_append (s t : Text) :
    byteSize (s ++ t) = byteSize s + byteSize t := by
  induction s with
  | nil => simp
  | cons c s ih => simp [ih, Nat.add_assoc]

/-- Number of scalars that begin before byte `n`. -/
def scalarsBefore : Text → Nat → Nat
  | [], _ => 0
  | _ :: _, 0 => 0
  | c :: t, n => 1 + scalarsBefore t (n - c.utf8Size)

/-- The text with ASCII capitals made small. -/
def toLower (t : Text) : Text :=
  t.map Char.toLower

/-- The decimal numeral of a natural number. -/
def decimal (n : Nat) : Text :=
  Nat.toDigits 10 n

/-- The value of a run of decimal digits. -/
def digitsValue (t : Text) : Nat :=
  t.foldl (fun n c => 10 * n + (c.toNat - '0'.toNat)) 0

/-- The texts in order with a separator between neighbours. -/
def join (separator : Text) : List Text → Text
  | [] => []
  | [t] => t
  | t :: ts => t ++ separator ++ join separator ts

/-- A text between backquotes. -/
def quoted (t : Text) : Text :=
  "`" ++ t ++ "`"

/-- Whether a character is one of the ASCII characters. -/
def isAscii (c : Char) : Bool :=
  c.toNat < 128

end Text

/-- Whether a list comes before another one or equals it, given which of two different items comes
first. -/
def lexicallyLe {α : Type} [DecidableEq α] (le : α → α → Bool) : List α → List α → Bool
  | [], _ => true
  | _ :: _, [] => false
  | a :: s, b :: t => if a = b then lexicallyLe le s t else le a b

/-- Whether a text comes before another one in alphabetical order or equals it. -/
def Text.le : Text → Text → Bool :=
  lexicallyLe fun a b => a.toNat ≤ b.toNat

end DspCheck
