import DspCheck.Text.Basic

/-!
# Classes of characters

An identifier starts with an ASCII letter or an underscore; digits may follow.

Blanks are the characters with the Unicode property `White_Space`.  They are cut off the ends of a
text, and they stand between its words.
-/

namespace DspCheck

namespace Ident

/-- The characters that may start an identifier. -/
def isStart (c : Char) : Bool :=
  c.isAlpha || c = '_'

/-- The characters of which identifiers consist. -/
def isPart (c : Char) : Bool :=
  c.isAlphanum || c = '_'

/-- The longest identifier at the start of a text; empty if there is none. -/
def leading : Text → Text
  | [] => []
  | c :: t => if isStart c then c :: t.takeWhile isPart else []

/-- Whether a text is an identifier. -/
def isIdent : Text → Bool
  | [] => false
  | c :: t => isStart c && t.all isPart

/-- The name by which programs refer to a member of a library. -/
def qualified (library name : Text) : Text :=
  library ++ '.' :: name

end Ident

namespace Text

/-- The scalars with the property `White_Space`, as inclusive ranges of code points. -/
def blankRanges : List (Nat × Nat) :=
  [(0x0009, 0x000D), (0x0020, 0x0020), (0x0085, 0x0085), (0x00A0, 0x00A0), (0x1680, 0x1680),
    (0x2000, 0x200A), (0x2028, 0x2029), (0x202F, 0x202F), (0x205F, 0x205F), (0x3000, 0x3000)]

/-- Whether a character has the property `White_Space`. -/
def isBlank (c : Char) : Bool :=
  blankRanges.any fun r => r.1 ≤ c.toNat && c.toNat ≤ r.2

/-- Whether a text has blanks only. -/
def isAllBlank (t : Text) : Bool :=
  t.all isBlank

/-- The text without the blanks at its start. -/
def trimStart (t : Text) : Text :=
  t.dropWhile isBlank

/-- The text without the blanks at its end. -/
def trimEnd (t : Text) : Text :=
  (t.reverse.dropWhile isBlank).reverse

/-- The text without the blanks at its two ends. -/
def trim (t : Text) : Text :=
  trimEnd (trimStart t)

/-- The words of a text: its longest runs without blanks. -/
def words (t : Text) : List Text :=
  (t.splitOnP isBlank).filter (· ≠ [])

end Text
end DspCheck
