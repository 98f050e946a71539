import DspCheck.Value

/-!
# Writing JSON

The written form has one item or field on a line, two blanks of indentation for each level, a blank
behind the colon of a field, and empty containers on one line.  In strings only the quote, the
backslash and the control characters are escaped; six of these have a letter of their own and the
others take two hexadecimal digits.
-/

namespace DspCheck
namespace Json

/-- The hexadecimal digit of a number below sixteen. -/
def hexDigit (n : Nat) : Char :=
  Nat.digitChar n

/-- The written form of a character inside a string. -/
def escapeChar (c : Char) : Text :=
  if c = '"' then ['\\', '"']
  else if c = '\\' then ['\\', '\\']
  else if c.toNat = 8 then ['\\', 'b']
  else if c.toNat = 9 then ['\\', 't']
  else if c.toNat = 10 then ['\\', 'n']
  else if c.toNat = 12 then ['\\', 'f']
  else if c.toNat = 13 then ['\\', 'r']
  else if c.toNat < 0x20 then
    ['\\', 'u', '0', '0', hexDigit (c.toNat / 16), hexDigit (c.toNat % 16)]
  else [c]

/-- The written form of a text, with its quotes. -/
def writeText (t : Text) : Text :=
  '"' :: t.flatMap escapeChar ++ ['"']

/-- The line feed and the indentation before an item at a given level. -/
def newLine (level : Nat) : Text :=
  '\n' :: List.replicate (2 * level) ' '

mutual

/-- The written form of a value at a given level of indentation. -/
def writeAt (level : Nat) : Value → Text
  | .null => "null"
  | .bool b => if b then "true" else "false"
  | .natural n => Text.decimal n
  | .numeral literal => literal
  | .text t => writeText t
  | .list [] => "[]"
  | .list (v :: vs) =>
      '[' :: newLine (level + 1) ++ writeAt (level + 1) v ++ writeItems (level + 1) vs
        ++ newLine level ++ [']']
  | .record [] => "\x7b\x7d"
  | .record ((k, v) :: fs) =>
      '{' :: newLine (level + 1) ++ writeText k ++ ": " ++ writeAt (level + 1) v
        ++ writeFields (level + 1) fs ++ newLine level ++ ['}']
  | .garbled => "\"\\ud800\""

/-- The written form of the items behind the first one. -/
def writeItems (level : Nat) : List Value → Text
  | [] => []
  | v :: vs => ',' :: newLine level ++ writeAt level v ++ writeItems level vs

/-- The written form of the fields behind the first one. -/
def writeFields (level : Nat) : List (Text × Value) → Text
  | [] => []
  | (k, v) :: fs =>
      ',' :: newLine level ++ writeText k ++ ": " ++ writeAt level v ++ writeFields level fs

end

/-- The written form of a document. -/
def write (v : Value) : Text :=
  writeAt 0 v

end Json
end DspCheck
