import DspCheck.Text.Classes

/-!
# References to library functions

A *run* is a longest part of a masked line that consists of letters, digits, underscores and dots.
A run of two identifiers with one dot between them is a reference `library.name`.  Numbers such as
`1.5` and chains such as `a.b.c` are runs, but no references.

Outside comments and strings a program has ASCII characters only.  The scanner stops at any other
character.
-/

namespace DspCheck

/-- A place where a program names a library function. -/
structure Reference where
  library : Text
  name : Text
  /-- The position of its first byte in the line. -/
  start : Nat
  /-- The position behind its last byte. -/
  stop : Nat
  /-- The text behind it, without leading blanks. -/
  follow : Text
  /-- The position of that text. -/
  followStart : Nat
  deriving DecidableEq, Repr

/-- A character that no program has outside comments and strings. -/
structure ForeignCharacter where
  char : Char
  deriving DecidableEq, Repr

namespace Reference

/-- The characters of which runs consist. -/
def isRunChar (c : Char) : Bool :=
  Ident.isPart c || c = '.'

/-- The full name of the function. -/
def fullName (r : Reference) : Text :=
  Ident.qualified r.library r.name

/-- Whether the function is called. -/
def isCall (r : Reference) : Bool :=
  r.follow.head? = some '('

/-- The two identifiers of a run. -/
def partsOf? (run : Text) : Option (Text × Text) :=
  match run.splitOn '.' with
  | [library, name] =>
      if Ident.isIdent library && Ident.isIdent name then some (library, name) else none
  | _ => none

/-- The reference that the run at the start of a text is. -/
def leading? (start : Nat) (t : Text) : Option Reference :=
  let run := t.takeWhile isRunChar
  let rest := t.dropWhile isRunChar
  (partsOf? run).map fun p =>
    let stop := start + Text.byteSize run
    { library := p.1
      name := p.2
      start
      stop
      follow := Text.trimStart rest
      followStart := stop + Text.byteSize (rest.takeWhile Text.isBlank) }

/-- The references in a text from a given position on, which is inside a run or not. -/
def scanFrom (inRun : Bool) (position : Nat) : Text → Except ForeignCharacter (List Reference)
  | [] => .ok []
  | c :: t =>
      if !Text.isAscii c then .error ⟨c⟩
      else
        let here := if isRunChar c && !inRun then (leading? position (c :: t)).toList else []
        (scanFrom (isRunChar c) (position + c.utf8Size) t).map (here ++ ·)

/-- The references in a masked line. -/
def scan (code : Text) : Except ForeignCharacter (List Reference) :=
  scanFrom false 0 code

end Reference
end DspCheck
