import DspCheck.Value

/-!
# Tokens of JSON

`tokens?` cuts a text into brackets, separators, strings and bare words.  A bare word is a longest
run of the characters that numbers and the three names consist of.

A string is read in two steps.  `codes?` undoes the escapes and gives code points, among them the
halves of surrogate pairs; `scalars?` joins the halves.  A string with an unpaired half is a token
without a text.
-/

namespace DspCheck
namespace Json

/-- A token. -/
inductive Token
  | openList
  | closeList
  | openRecord
  | closeRecord
  | comma
  | colon
  /-- A string; without a text if half of a surrogate pair stands alone. -/
  | string (t : Option Text)
  /-- A number, a truth value or null. -/
  | word (v : Value)

/-- The blanks between tokens. -/
def isBlank (c : Char) : Bool :=
  c = ' ' || c = '\n' || c = '\t' || c = '\r'

/-- The bracket or separator that a character stands for. -/
def punctuation? (c : Char) : Option Token :=
  if c = '[' then some .openList
  else if c = ']' then some .closeList
  else if c = '{' then some .openRecord
  else if c = '}' then some .closeRecord
  else if c = ',' then some .comma
  else if c = ':' then some .colon
  else none

/-- The value of a hexadecimal digit. -/
def hexDigit? (c : Char) : Option Nat :=
  if '0' ≤ c && c ≤ '9' then some (c.toNat - '0'.toNat)
  else if 'a' ≤ c && c ≤ 'f' then some (c.toNat - 'a'.toNat + 10)
  else if 'A' ≤ c && c ≤ 'F' then some (c.toNat - 'A'.toNat + 10)
  else none

/-- The code point of four hexadecimal digits. -/
def hexCode? (a b c d : Char) : Option Nat := do
  return (← hexDigit? a) * 4096 + (← hexDigit? b) * 256 + (← hexDigit? c) * 16 + (← hexDigit? d)

/-- The code point that a letter after a backslash stands for. -/
def escapeCode? (c : Char) : Option Nat :=
  if c = '"' || c = '\\' || c = '/' then some c.toNat
  else if c = 'b' then some 8
  else if c = 't' then some 9
  else if c = 'n' then some 10
  else if c = 'f' then some 12
  else if c = 'r' then some 13
  else none

/-- A code point before those of the rest of a string, where both could be read. -/
def putCode? (code? : Option Nat) (rest? : Option (List Nat × Text)) :
    Option (List Nat × Text) :=
  code?.bind fun code => rest?.map fun p => (code :: p.1, p.2)

/-- The code points of a string from behind its opening quote, and the text behind its closing
one. -/
def codes? : Text → Option (List Nat × Text)
  | [] => none
  | c :: t =>
      if c = '"' then some ([], t)
      else if c = '\\' then
        match t with
        | 'u' :: h₁ :: h₂ :: h₃ :: h₄ :: t => putCode? (hexCode? h₁ h₂ h₃ h₄) (codes? t)
        | e :: t => putCode? (escapeCode? e) (codes? t)
        | [] => none
      else if c.toNat < 0x20 then none
      else putCode? (some c.toNat) (codes? t)

theorem length_of_putCode? {code? : Option Nat} {rest? : Option (List Nat × Text)}
    {p : List Nat × Text} {n : Nat} (hrest : ∀ q, rest? = some q → q.2.length < n)
    (h : putCode? code? rest? = some p) : p.2.length < n := by
  obtain ⟨code, -, hr⟩ := Option.bind_eq_some_iff.1 h
  obtain ⟨q, hq, rfl⟩ := Option.map_eq_some_iff.1 hr
  exact hrest q hq

/-- What follows a string is shorter than what follows its opening quote. -/
theorem length_of_codes? {t : Text} {p : List Nat × Text} (h : codes? t = some p) :
    p.2.length < t.length := by
  fun_induction codes? t generalizing p with
  | case1 => cases h
  | case2 => cases h; simp
  | case3 h₁ h₂ h₃ h₄ t hq ih =>
      exact length_of_putCode? (fun q hq => Nat.lt_succ_of_lt (by have := ih hq; simp; omega)) h
  | case4 e t hu hq ih =>
      exact length_of_putCode? (fun q hq => Nat.lt_succ_of_lt (by have := ih hq; simp; omega)) h
  | case5 => cases h
  | case6 => cases h
  | case7 c t hq hb hc ih =>
      exact length_of_putCode? (fun q hq => Nat.lt_succ_of_lt (ih hq)) h

/-- Whether a code point is the first half of a surrogate pair. -/
def isHighHalf (n : Nat) : Bool :=
  0xD800 ≤ n && n < 0xDC00

/-- Whether a code point is the second half of a surrogate pair. -/
def isLowHalf (n : Nat) : Bool :=
  0xDC00 ≤ n && n < 0xE000

/-- The text of code points, the halves of surrogate pairs joined. -/
def scalars? : List Nat → Option Text
  | [] => some []
  | high :: rest =>
      if isHighHalf high then
        match rest with
        | low :: rest =>
            if isLowHalf low then
              (scalars? rest).map
                (Char.ofNat (0x10000 + (high - 0xD800) * 0x400 + (low - 0xDC00)) :: ·)
            else none
        | [] => none
      else if isLowHalf high then none
      else (scalars? rest).map (Char.ofNat high :: ·)

/-- The characters of bare words. -/
def isWordChar (c : Char) : Bool :=
  c.isAlphanum || c = '+' || c = '-' || c = '.'

/-- A text that does not start with a decimal digit, behind at least one digit. -/
def afterDigits? (t : Text) : Option Text :=
  match t.span Char.isDigit with
  | ([], _) => none
  | (_, rest) => some rest

/-- What follows the integer part of a number: one zero, or digits that start with no zero. -/
def afterInteger? : Text → Option Text
  | [] => none
  | c :: t => if c = '0' then some t else afterDigits? (c :: t)

/-- What follows the fraction of a number, if it has one. -/
def afterFraction? : Text → Option Text
  | [] => some []
  | c :: t => if c = '.' then afterDigits? t else some (c :: t)

/-- What follows the exponent of a number, if it has one. -/
def afterExponent? : Text → Option Text
  | [] => some []
  | c :: t =>
      if c = 'e' || c = 'E' then
        match t with
        | [] => none
        | s :: r => afterDigits? (if s = '+' || s = '-' then r else s :: r)
      else some (c :: t)

/-- The number that a bare word is. -/
def number? (w : Text) : Option Value := do
  let unsigned := if w.head? = some '-' then w.drop 1 else w
  let rest ← afterInteger? unsigned
  let rest ← afterFraction? rest
  let rest ← afterExponent? rest
  if rest ≠ [] then none
  else if w.all Char.isDigit then return .natural (Text.digitsValue w)
  else return .numeral w

/-- The value that a bare word is. -/
def wordValue? (w : Text) : Option Value :=
  if w = "null" then some .null
  else if w = "true" then some (.bool true)
  else if w = "false" then some (.bool false)
  else number? w

/-- The tokens of a text. -/
def tokens? (t : Text) : Option (List Token) :=
  match t with
  | [] => some []
  | c :: t =>
      if isBlank c then tokens? t
      else if c = '"' then
        match _h : codes? t with
        | none => none
        | some p => (tokens? p.2).map (.string (scalars? p.1) :: ·)
      else if isWordChar c then
        match wordValue? (c :: t.takeWhile isWordChar) with
        | none => none
        | some v => (tokens? (t.dropWhile isWordChar)).map (.word v :: ·)
      else
        match punctuation? c with
        | none => none
        | some p => (tokens? t).map (p :: ·)
termination_by t.length
decreasing_by
  · simp
  · have := length_of_codes? _h
    simp only [List.length_cons]
    omega
  · have := (List.dropWhile_suffix isWordChar (l := t)).length_le
    simp only [List.length_cons]
    omega
  · simp

end Json
end DspCheck
