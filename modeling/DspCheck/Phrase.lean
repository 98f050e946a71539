import DspCheck.Text.Classes
import DspCheck.Text.Search

/-!
# Phrase rules

A phrase rule says which texts are about something.  It is written as alternatives with `|` between
them; an alternative is written as fragments with `.*` between them.  An alternative matches a text
in which its fragments occur in order and without overlap.  Case of ASCII letters does not matter,
and any run of blanks counts as one.

Fragments are taken greedily: each one at its first occurrence behind the one before.

A rule is taken apart once, and what is matched are the alternatives that are kept with it
(`satisfiesAny`).
-/

namespace DspCheck

/-- The form in which texts are compared: ASCII capitals small, words separated by single
blanks. -/
def Text.folded (t : Text) : Text :=
  Text.join " " ((Text.words t).map Text.toLower)

/-- A rule about texts. -/
structure PhraseRule where
  /-- The rule as it is written. -/
  source : Text
  deriving DecidableEq, Repr

namespace PhraseRule

/-- The fragments of an alternative, the blank ones left out. -/
def fragments (alternative : Text) : List Text :=
  ((Text.pieces ".*" alternative).map Text.folded).filter (· ≠ [])

/-- The alternatives of a rule, those without fragments left out. -/
def alternatives (r : PhraseRule) : List (List Text) :=
  ((r.source.splitOn '|').map fragments).filter (· ≠ [])

/-- Whether fragments occur in a text in order and without overlap. -/
def occurInOrder : List Text → Text → Bool
  | [], _ => true
  | f :: fs, t =>
      match Text.breakAt? f t with
      | none => false
      | some p => occurInOrder fs p.2

/-- Whether a text satisfies one of the given alternatives. -/
def satisfiesAny (alternatives : List (List Text)) (t : Text) : Bool :=
  alternatives.any (occurInOrder · (Text.folded t))

/-- Whether a text satisfies one of the alternatives of a rule. -/
def isMatch (r : PhraseRule) (t : Text) : Bool :=
  satisfiesAny r.alternatives t

/-- A rule without fragments matches no text. -/
theorem not_isMatch_of_alternatives_nil {r : PhraseRule} (h : r.alternatives = []) (t : Text) :
    r.isMatch t = false := by
  simp [isMatch, satisfiesAny, h]

end PhraseRule
end DspCheck
