import DspCheck.Toml.Moment

/-!
# Tokens of TOML

`tokens?` cuts a text into line ends, brackets, separators, strings and bare words.  A bare word is
a longest run of the characters of bare keys, numbers, times and dots; what it stands for depends on
its place.  One blank is part of a word: that between a date and a time of day.  Other blanks and
comments are left out.

A line ends with a line feed, or with a carriage return and a line feed.  A carriage return alone is
allowed nowhere.

A string in triple quotes is a *block*.  It may go on over several lines, and it is no key.
-/

namespace DspCheck
namespace Toml

/-- A token. -/
inductive Token
  | newLine
  | equals
  | comma
  /-- An opening square bracket; `double` if another one follows at once. -/
  | openSquare (double : Bool)
  /-- A closing square bracket; `double` if another one follows at once. -/
  | closeSquare (double : Bool)
  | openBrace
  | closeBrace
  | string (t : Text)
  | block (t : Text)
  | word (w : Text)
  deriving DecidableEq, Repr

/-- Whether a character must not occur as it is. -/
def isControl (c : Char) : Bool :=
  c.toNat < 0x20 && c ≠ '\t' || c.toNat = 0x7F

/-- The value of hexadecimal digits. -/
def hexValue? (digits : Text) : Option Nat :=
  digits.foldlM (fun n c =>
    if c.isDigit then some (16 * n + (c.toNat - '0'.toNat))
    else if 'a' ≤ c && c ≤ 'f' then some (16 * n + (c.toNat - 'a'.toNat + 10))
    else if 'A' ≤ c && c ≤ 'F' then some (16 * n + (c.toNat - 'A'.toNat + 10))
    else none) 0

/-- The character of hexadecimal digits. -/
def hexChar? (digits : Text) : Option Char :=
  (hexValue? digits).bind fun n => if n.isValidChar then some (Char.ofNat n) else none

/-- The character that a letter after a backslash stands for. -/
def escapeChar? (c : Char) : Option Char :=
  if c = '"' || c = '\\' then some c
  else if c = 'b' then some (Char.ofNat 8)
  else if c = 't' then some '\t'
  else if c = 'n' then some '\n'
  else if c = 'f' then some (Char.ofNat 12)
  else if c = 'r' then some '\r'
  else if c = 'e' then some (Char.ofNat 27)
  else none

/-- A character before the rest of a string, where both could be read. -/
def putChar? (c? : Option Char) (rest? : Option (Text × Text)) : Option (Text × Text) :=
  c?.bind fun c => rest?.map fun p => (c :: p.1, p.2)

/-- The content of a string with escapes from behind its quote on, and the text behind it. -/
def basic? : Text → Option (Text × Text)
  | [] => none
  | c :: t =>
      if c = '"' then some ([], t)
      else if c = '\\' then
        match t with
        | 'x' :: a :: b :: t => putChar? (hexChar? [a, b]) (basic? t)
        | 'u' :: a :: b :: c :: d :: t => putChar? (hexChar? [a, b, c, d]) (basic? t)
        | 'U' :: a :: b :: c :: d :: e :: f :: g :: h :: t =>
            putChar? (hexChar? [a, b, c, d, e, f, g, h]) (basic? t)
        | e :: t => putChar? (escapeChar? e) (basic? t)
        | [] => none
      else if isControl c then none
      else putChar? (some c) (basic? t)

/-- The content of a string without escapes from behind its quote on, and the text behind it. -/
def literal? : Text → Option (Text × Text)
  | [] => none
  | c :: t =>
      if c = '\'' then some ([], t)
      else if isControl c then none
      else putChar? (some c) (literal? t)

/-- Whether a backslash before a text ends its line. -/
def endsLine (t : Text) : Bool :=
  let rest := t.dropWhile fun c => c = ' ' || c = '\t'
  Text.startsWith "\n" rest || Text.startsWith "\r\n" rest

/-- Whether a character is a blank or a line end. -/
def isSpace (c : Char) : Bool :=
  c = ' ' || c = '\t' || c = '\n' || c = '\r'

/-- Whether a character is allowed in a block, given the next one. -/
def isBlockChar (c : Char) (ahead? : Option Char) : Bool :=
  if c = '\r' then ahead? = some '\n' else c = '\n' || !isControl c

/-- The content of a block from behind its opening quotes on, and the text behind it.  Up to two
quotes may stand before the closing ones.  With `skipping` the blanks and line ends that come first
are left out; a backslash at the end of a line asks for that. -/
def basicBlock? (skipping : Bool) : Text → Option (Text × Text)
  | [] => none
  | c :: t =>
      if skipping && isSpace c && isBlockChar c t.head? then basicBlock? true t
      else if c = '"' then
        match t with
        | '"' :: '"' :: '"' :: '"' :: t => some (['"', '"'], t)
        | '"' :: '"' :: '"' :: t => some (['"'], t)
        | '"' :: '"' :: t => some ([], t)
        | t => putChar? (some c) (basicBlock? false t)
      else if c = '\\' then
        if endsLine t then basicBlock? true t
        else
          match t with
          | 'x' :: a :: b :: t => putChar? (hexChar? [a, b]) (basicBlock? false t)
          | 'u' :: a :: b :: c :: d :: t =>
              putChar? (hexChar? [a, b, c, d]) (basicBlock? false t)
          | 'U' :: a :: b :: c :: d :: e :: f :: g :: h :: t =>
              putChar? (hexChar? [a, b, c, d, e, f, g, h]) (basicBlock? false t)
          | e :: t => putChar? (escapeChar? e) (basicBlock? false t)
          | [] => none
      else if isBlockChar c t.head? then putChar? (some c) (basicBlock? false t)
      else none

/-- The content of a block without escapes from behind its opening quotes on, and the text behind
it. -/
def literalBlock? : Text → Option (Text × Text)
  | [] => none
  | c :: t =>
      if c = '\'' then
        match t with
        | '\'' :: '\'' :: '\'' :: '\'' :: t => some (['\'', '\''], t)
        | '\'' :: '\'' :: '\'' :: t => some (['\''], t)
        | '\'' :: '\'' :: t => some ([], t)
        | t => putChar? (some c) (literalBlock? t)
      else if isBlockChar c t.head? then putChar? (some c) (literalBlock? t)
      else none

/-- A text without a line end at its start. -/
def afterLineEnd (t : Text) : Text :=
  ((Text.after? "\n" t).or (Text.after? "\r\n" t)).getD t

/-- The string at the start of a text, from behind its first quote on. -/
def stringToken? (quote : Char) (t : Text) : Option (Token × Text) :=
  match Text.after? [quote, quote] t with
  | some rest =>
      let rest := afterLineEnd rest
      (if quote = '"' then basicBlock? false rest else literalBlock? rest).map
        fun p => (.block p.1, p.2)
  | none =>
      (if quote = '"' then basic? t else literal? t).map fun p => (.string p.1, p.2)

/-- The characters of bare words. -/
def isWordChar (c : Char) : Bool :=
  c.isAlphanum || c = '_' || c = '-' || c = '+' || c = '.' || c = ':'

/-- The bare word at the start of a text, and the text behind it. -/
def breakWord (t : Text) : Text × Text :=
  match t.span isWordChar with
  | (w, ' ' :: c :: rest) =>
      if isDate w && c.isDigit then
        (w ++ ' ' :: c :: rest.takeWhile isWordChar, rest.dropWhile isWordChar)
      else (w, ' ' :: c :: rest)
  | p => p

/-- Whether a character ends a comment. -/
def endsComment (c : Char) : Bool :=
  c = '\n' || c = '\r'

/-- The bracket or separator that a character stands for, given the next one. -/
def punctuation? (c : Char) (ahead? : Option Char) : Option Token :=
  if c = '\n' then some .newLine
  else if c = '=' then some .equals
  else if c = ',' then some .comma
  else if c = '[' then some (.openSquare (ahead? = some '['))
  else if c = ']' then some (.closeSquare (ahead? = some ']'))
  else if c = '{' then some .openBrace
  else if c = '}' then some .closeBrace
  else none

/-- The tokens of a text, at most as many as `fuel` says. -/
def tokensFrom? : Nat → Text → Option (List Token)
  | _, [] => some []
  | 0, _ :: _ => none
  | fuel + 1, c :: t =>
      if c = ' ' || c = '\t' then tokensFrom? fuel t
      else if c = '\r' then if t.head? = some '\n' then tokensFrom? fuel t else none
      else if c = '#' then
        if (t.takeWhile (!endsComment ·)).any isControl then none
        else tokensFrom? fuel (t.dropWhile (!endsComment ·))
      else if c = '"' || c = '\'' then
        (stringToken? c t).bind fun p => (tokensFrom? fuel p.2).map (p.1 :: ·)
      else if isWordChar c then
        (tokensFrom? fuel (breakWord (c :: t)).2).map (.word (breakWord (c :: t)).1 :: ·)
      else (punctuation? c t.head?).bind fun p => (tokensFrom? fuel t).map (p :: ·)

/-- The tokens of a text.  Each step takes at least one character, so there are steps enough.  A
mark of the byte order at the start is no token. -/
def tokens? (t : Text) : Option (List Token) :=
  tokensFrom? t.length ((Text.after? ['\uFEFF'] t).getD t)

end Toml
end DspCheck
