import DspCheck.Text.Classes

/-!
# Finding one text in another

* `after? s t`: what follows `s` at the start of `t`.
* `breakAt? s t`: what stands before and after the leftmost occurrence of `s` in `t`.
* `pieces s t`: the parts of `t` between the occurrences of `s`, taken from the left without
  overlap.

A *word* is an occurrence that stands alone: no letter, digit or underscore touches it.

* `hasWord` takes the occurrences from the left without overlap and passes over those that do not
  stand alone.  The empty word occurs at every boundary between two characters.
* `breakAtWord?` looks at all occurrences.  For identifiers this makes no difference: an occurrence
  that overlaps an earlier one is touched by a character of it.

Main statements: `after?_eq_some_iff` and `append_of_breakAt?` say what a found place is.
-/

namespace DspCheck
namespace Text

/-- What follows `s` at the start of a text. -/
def after? : Text → Text → Option Text
  | [], t => some t
  | _ :: _, [] => none
  | a :: s, c :: t => if a = c then after? s t else none

@[simp] theorem after?_nil (t : Text) : after? [] t = some t := by
  cases t <;> rfl

@[simp] theorem after?_append (s r : Text) : after? s (s ++ r) = some r := by
  induction s with
  | nil => simp
  | cons a s ih => simp [after?, ih]

theorem after?_eq_some_iff {s t r : Text} : after? s t = some r ↔ t = s ++ r := by
  constructor
  · induction s generalizing t with
    | nil =>
        intro h
        simpa using h
    | cons a s ih =>
        cases t with
        | nil =>
            intro h
            simp [after?] at h
        | cons c t =>
            intro h
            simp only [after?] at h
            split at h
            · next hac =>
                subst hac
                simp [ih h]
            · cases h
  · rintro rfl
    exact after?_append s r

/-- Whether a text starts with another one. -/
def startsWith (s t : Text) : Bool :=
  (after? s t).isSome

/-- Whether a text ends with another one. -/
def endsWith (s t : Text) : Bool :=
  startsWith s.reverse t.reverse

/-- The parts of a text before and after the leftmost occurrence of `s`. -/
def breakAt? (s : Text) : Text → Option (Text × Text)
  | [] => if s = [] then some ([], []) else none
  | c :: t =>
      match after? s (c :: t) with
      | some r => some ([], r)
      | none => (breakAt? s t).map fun p => (c :: p.1, p.2)

/-- The two parts with the found text between them are the whole text. -/
theorem append_of_breakAt? {s t b r : Text} (h : breakAt? s t = some (b, r)) :
    t = b ++ s ++ r := by
  induction t generalizing b with
  | nil =>
      simp only [breakAt?] at h
      split at h
      · next hs =>
          cases h
          simp [hs]
      · cases h
  | cons c t ih =>
      simp only [breakAt?] at h
      split at h
      · next r' hr =>
          cases h
          simpa using after?_eq_some_iff.1 hr
      · obtain ⟨p, hp, hpair⟩ := Option.map_eq_some_iff.1 h
        cases hpair
        rw [ih hp]
        simp

/-- Whether a text occurs in another one. -/
def contains (s t : Text) : Bool :=
  (breakAt? s t).isSome

/-- Cutting at every occurrence of `s`, after `skip` characters that belong to the last one. -/
def piecesFrom (s : Text) : Nat → Text → List Text
  | _, [] => [[]]
  | skip + 1, _ :: t => piecesFrom s skip t
  | 0, c :: t =>
      if startsWith s (c :: t) then [] :: piecesFrom s (s.length - 1) t
      else (piecesFrom s 0 t).modifyHead (c :: ·)

/-- The parts of a text between the occurrences of a non-empty text `s`. -/
def pieces (s t : Text) : List Text :=
  piecesFrom s 0 t

/-! ## Words -/

/-- Whether no identifier goes on over a boundary, given what touches it. -/
def isFree (neighbour? : Option Char) : Bool :=
  !neighbour?.any Ident.isPart

/-- Whether a word stands alone somewhere in a text, given what is before the text and how many
characters belong to the last occurrence. -/
def hasWordFrom (word : Text) (before? : Option Char) (skip : Nat) : Text → Bool
  | [] => word = [] && isFree before?
  | c :: t =>
      match skip with
      | skip + 1 => hasWordFrom word (some c) skip t
      | 0 =>
          match after? word (c :: t) with
          | none => hasWordFrom word (some c) 0 t
          | some rest =>
              isFree before? && isFree rest.head? ||
                hasWordFrom word (some c) (word.length - 1) t

/-- What stands before and after the leftmost occurrence of a word that stands alone in a text,
given what stands before the text. -/
def breakAtWordFrom? (word : Text) (before? : Option Char) : Text → Option (Text × Text)
  | [] => none
  | c :: t =>
      match after? word (c :: t) with
      | some rest =>
          if isFree before? && isFree rest.head? then some ([], rest)
          else (breakAtWordFrom? word (some c) t).map fun p => (c :: p.1, p.2)
      | none => (breakAtWordFrom? word (some c) t).map fun p => (c :: p.1, p.2)

/-- What stands before and after the leftmost occurrence of a word that stands alone in a text. -/
def breakAtWord? (word t : Text) : Option (Text × Text) :=
  breakAtWordFrom? word none t

/-- Whether a word stands alone somewhere in a text. -/
def hasWord (word t : Text) : Bool :=
  hasWordFrom word none 0 t

end Text
end DspCheck
