import DspCheck.Text.Basic

/-!
# Masking comments and strings

Checks look at programs through their *masked* lines: comments and the contents of strings are
replaced by as many spaces as they have bytes, and all else stays.  So a position in a masked line
is a position in the line itself.  The quotes of a string stay, too.

The scanner reads a line with one character of lookahead.  Only block comments continue on the
next line.
-/

namespace DspCheck

/-- What the scanner is inside of. -/
inductive Mode
  | code
  | string
  /-- Behind a backslash in a string. -/
  | escape
  | lineComment
  /-- Between the two characters that open a block comment. -/
  | blockOpen
  | block
  /-- Between the two characters that close a block comment. -/
  | blockClose
  deriving DecidableEq, Repr

namespace Mode

/-- The mode behind a character, and whether the character stays visible.  The character after it
is `ahead?`. -/
def step (m : Mode) (c : Char) (ahead? : Option Char) : Mode × Bool :=
  match m with
  | code =>
      if c = '"' then (string, true)
      else if c = '/' && ahead? = some '/' then (lineComment, false)
      else if c = '/' && ahead? = some '*' then (blockOpen, false)
      else (code, true)
  | string =>
      if c = '"' then (code, true)
      else if c = '\\' then (escape, false)
      else (string, false)
  | escape => (string, false)
  | lineComment => (lineComment, false)
  | blockOpen => (block, false)
  | block => if c = '*' && ahead? = some '/' then (blockClose, false) else (block, false)
  | blockClose => (code, false)

/-- The mode behind a text. -/
def after (m : Mode) : Text → Mode
  | [] => m
  | c :: t => after (m.step c t.head?).1 t

/-- The mode at the start of the next line. -/
def nextLine (m : Mode) : Mode :=
  if m = block then block else code

end Mode

namespace Text

/-- The visible form of a character. -/
def veil (kept : Bool) (c : Char) : Text :=
  if kept then [c] else List.replicate c.utf8Size ' '

/-- The masked form of a text that starts in a given mode. -/
def mask (m : Mode) : Text → Text
  | [] => []
  | c :: t => veil (m.step c t.head?).2 c ++ mask (m.step c t.head?).1 t

theorem byteSize_replicate_blank (n : Nat) : byteSize (List.replicate n ' ') = n := by
  induction n with
  | zero => rfl
  | succ n ih =>
      have hblank : Char.utf8Size ' ' = 1 := by decide
      simp [List.replicate_succ, ih, hblank, Nat.add_comm]

theorem byteSize_veil (kept : Bool) (c : Char) : byteSize (veil kept c) = c.utf8Size := by
  cases kept <;> simp [veil, byteSize_replicate_blank]

/-- Masking keeps the number of bytes. -/
@[simp] theorem byteSize_mask (m : Mode) (t : Text) : byteSize (mask m t) = byteSize t := by
  induction t generalizing m with
  | nil => rfl
  | cons c t ih => simp [mask, byteSize_veil, ih]

end Text
end DspCheck
