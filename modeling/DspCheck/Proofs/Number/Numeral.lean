import DspCheck.Number.Binary64
import DspCheck.Proofs.Number.Decimal
import DspCheck.Proofs.Source.ExpressionText
import Mathlib.Tactic.FieldSimp

/-!
# Numerals

A numeral has digits with at most one point in front of them or among them, and may have an exponent
with or without a sign.  Its value is the fraction that it denotes.

The reader of literals takes the longest text of digits, points and exponent letters.  That is the
whole numeral if the exponent has no sign (`exists_leading?_of_unsigned`).  Otherwise the text ends
in front of the sign, behind an exponent letter, and is no literal (`leading?_of_cut?`).
-/

namespace DspCheck

namespace Text

theorem digitsValue_append (s t : Text) :
    digitsValue (s ++ t) = digitsValue s * 10 ^ t.length + digitsValue t := by
  have hfold : ∀ n, t.foldl (fun n c => 10 * n + (c.toNat - '0'.toNat)) n =
      n * 10 ^ t.length + digitsValue t := by
    induction t with
    | nil =>
        intro n
        simp [digitsValue]
    | cons c t ih =>
        intro n
        rw [digitsValue, List.foldl_cons, List.foldl_cons, ih, ih, List.length_cons]
        ring
  rw [digitsValue, List.foldl_append, hfold]
  rfl

end Text

/-- The part of a numeral in front of its exponent. -/
inductive Mantissa
  | whole (digits : Digits)
  | pointed (digits fraction : Digits)
  | pointFirst (fraction : Digits)

namespace Mantissa

/-- The digits in front of the point. -/
def front : Mantissa → Text
  | whole digits => digits.text
  | pointed digits _ => digits.text
  | pointFirst _ => []

/-- The digits behind the point. -/
def behind : Mantissa → Text
  | whole _ => []
  | pointed _ fraction => fraction.text
  | pointFirst fraction => fraction.text

def text : Mantissa → Text
  | whole digits => digits.text
  | pointed digits fraction => digits.text ++ '.' :: fraction.text
  | pointFirst fraction => '.' :: fraction.text

def value (m : Mantissa) : ℚ :=
  Text.digitsValue m.front + Text.digitsValue m.behind / 10 ^ m.behind.length

end Mantissa

/-- The sign of an exponent. -/
inductive Sign
  | plus
  | minus

def Sign.char : Sign → Char
  | plus => '+'
  | minus => '-'

/-- The exponent of a numeral, with its letter. -/
structure ExponentPart where
  capital : Bool
  sign? : Option Sign
  digits : Digits

namespace ExponentPart

def letter (e : ExponentPart) : Char :=
  if e.capital then 'E' else 'e'

def text (e : ExponentPart) : Text :=
  e.letter :: ((e.sign?.map Sign.char).toList ++ e.digits.text)

def value (e : ExponentPart) : ℤ :=
  match e.sign? with
  | some .minus => -Text.digitsValue e.digits.text
  | _ => Text.digitsValue e.digits.text

end ExponentPart

/-- A number as programs write it. -/
structure Numeral where
  mantissa : Mantissa
  exponent? : Option ExponentPart

namespace Numeral

def text (n : Numeral) : Text :=
  n.mantissa.text ++ (n.exponent?.map ExponentPart.text).getD []

/-- The number that a numeral denotes. -/
def value (n : Numeral) : ℚ :=
  n.mantissa.value * 10 ^ (n.exponent?.map ExponentPart.value).getD 0

/-- The text in front of the sign of the exponent, if it has one. -/
def cut? (n : Numeral) : Option Text :=
  n.exponent?.bind fun e => e.sign?.map fun _ => n.mantissa.text ++ [e.letter]

end Numeral

theorem Numeral.value_nonneg (n : Numeral) : 0 ≤ n.value := by
  have hmantissa : 0 ≤ n.mantissa.value := by
    rw [Mantissa.value]
    positivity
  exact mul_nonneg hmantissa (zpow_nonneg (by decide) _)

/-! ## Reading decimals -/

namespace Decimal

theorem read?_whole {w t : Text} (hw : ∀ c ∈ w, c.isDigit = true) (hne : w ≠ [])
    (ht : Text.EndsAt Char.isDigit t) (hpoint : t.head? ≠ some '.') :
    read? (w ++ t) = (exponent? t).map fun e => ⟨Text.digitsValue w, e⟩ := by
  have hafter : (afterPoint t).takeWhile Char.isDigit = [] := by
    cases t with
    | nil =>
        rfl
    | cons c t =>
        have hc : c ≠ '.' := fun h => hpoint (by rw [h, List.head?_cons])
        rw [afterPoint, if_neg hc, List.takeWhile_nil]
  rw [read?]
  simp only [Text.takeWhile_run hw ht, Text.dropWhile_run hw ht, hafter, if_neg hpoint]
  cases exponent? t <;> simp [hne]

theorem read?_point {w f t : Text} (hw : ∀ c ∈ w, c.isDigit = true)
    (hf : ∀ c ∈ f, c.isDigit = true) (hne : f ≠ []) (ht : Text.EndsAt Char.isDigit t) :
    read? (w ++ '.' :: (f ++ t)) =
      (exponent? t).map fun e => ⟨Text.digitsValue (w ++ f), e - f.length⟩ := by
  have hdot : Text.EndsAt Char.isDigit ('.' :: (f ++ t)) := Text.endsAt_cons (by decide) _
  have hafter : afterPoint ('.' :: (f ++ t)) = f ++ t := by rw [afterPoint, if_pos rfl]
  rw [read?]
  simp only [Text.takeWhile_run hw hdot, Text.dropWhile_run hw hdot, hafter, List.head?_cons,
    if_true, Text.takeWhile_run hf ht, Text.dropWhile_run hf ht]
  cases exponent? t <;> simp [hne]

/-- A mantissa and what follows it are read as a decimal if what follows is an exponent. -/
theorem read?_mantissa (m : Mantissa) {t : Text} (ht : Text.EndsAt Char.isDigit t)
    (hpoint : t.head? ≠ some '.') :
    read? (m.text ++ t) =
      (exponent? t).map fun e =>
        ⟨Text.digitsValue (m.front ++ m.behind), e - m.behind.length⟩ := by
  cases m with
  | whole digits =>
      rw [Mantissa.text, read?_whole digits.isDigit digits.ne_nil ht hpoint]
      simp [Mantissa.front, Mantissa.behind]
  | pointed digits fraction =>
      rw [Mantissa.text, List.append_assoc, List.cons_append,
        read?_point digits.isDigit fraction.isDigit fraction.ne_nil ht]
      rfl
  | pointFirst fraction =>
      have hnone : ∀ c ∈ ([] : Text), c.isDigit = true := fun _ hc => absurd hc List.not_mem_nil
      exact read?_point hnone fraction.isDigit fraction.ne_nil ht

/-- The digits of a mantissa as those of a decimal. -/
theorem value_mantissa (m : Mantissa) (e : ℤ) :
    value ⟨Text.digitsValue (m.front ++ m.behind), e - m.behind.length⟩ = m.value * 10 ^ e := by
  rw [value, Mantissa.value, Text.digitsValue_append, zpow_sub₀ (by decide), zpow_natCast]
  push_cast
  field_simp

theorem letter_cases (e : ExponentPart) : e.letter = 'e' ∨ e.letter = 'E' := by
  rw [ExponentPart.letter]
  split
  · exact Or.inr rfl
  · exact Or.inl rfl

/-- Neither the digits in front of an exponent nor those behind a point go on with its letter. -/
theorem read?_letter (m : Mantissa) (e : ExponentPart) (t : Text) :
    read? (m.text ++ e.letter :: t) =
      (exponent? (e.letter :: t)).map fun x =>
        ⟨Text.digitsValue (m.front ++ m.behind), x - m.behind.length⟩ := by
  rcases letter_cases e with h | h <;> rw [h]
  · exact read?_mantissa m (Text.endsAt_cons (by decide) t) (by simp)
  · exact read?_mantissa m (Text.endsAt_cons (by decide) t) (by simp)

/-- An exponent without a sign is read as its value. -/
theorem exponent?_of_unsigned {e : ExponentPart} (h : e.sign? = none) :
    exponent? e.text = some (Text.digitsValue e.digits.text) := by
  have hdigits : e.digits.text.all Char.isDigit = true := List.all_eq_true.2 e.digits.isDigit
  rw [ExponentPart.text, h, Option.map_none, Option.toList_none, List.nil_append, exponent?]
  simp [letter_cases e, e.digits.ne_nil, hdigits]

/-- An exponent letter alone is no exponent. -/
theorem exponent?_letter (e : ExponentPart) : exponent? [e.letter] = none := by
  simp [exponent?]

end Decimal

namespace Numeral

variable {n : Numeral} {w : Text}

/-! ## The characters of a numeral -/

theorem isChar_of_isDigit {c : Char} (h : c.isDigit = true) : Literal.isChar c = true := by
  simp [Literal.isChar, h]

theorem isChar_letter (e : ExponentPart) : Literal.isChar e.letter = true := by
  rcases Decimal.letter_cases e with h | h <;> rw [h] <;> decide

theorem isChar_of_mem_mantissa (m : Mantissa) : ∀ c ∈ m.text, Literal.isChar c = true := by
  have hdigits : ∀ d : Digits, ∀ c ∈ d.text, Literal.isChar c = true :=
    fun d c hc => isChar_of_isDigit (d.isDigit c hc)
  cases m with
  | whole digits =>
      exact hdigits digits
  | pointed digits fraction =>
      exact List.forall_mem_append.2
        ⟨hdigits digits, List.forall_mem_cons.2 ⟨by decide, hdigits fraction⟩⟩
  | pointFirst fraction =>
      exact List.forall_mem_cons.2 ⟨by decide, hdigits fraction⟩

/-- A numeral starts with a digit or with a point. -/
theorem exists_head (m : Mantissa) :
    ∃ c t, m.text = c :: t ∧ (c.isDigit || c = '.') = true := by
  cases m with
  | whole digits =>
      obtain ⟨c, t, hdigits, hc⟩ := digits.exists_head
      exact ⟨c, t, hdigits, by simp [hc]⟩
  | pointed digits fraction =>
      obtain ⟨c, t, hdigits, hc⟩ := digits.exists_head
      exact ⟨c, t ++ '.' :: fraction.text, by rw [Mantissa.text, hdigits]; rfl, by simp [hc]⟩
  | pointFirst fraction =>
      exact ⟨'.', fraction.text, rfl, rfl⟩

theorem exists_of_cut? (h : n.cut? = some w) :
    ∃ (e : ExponentPart) (s : Sign), w = n.mantissa.text ++ [e.letter] ∧
      n.text = w ++ s.char :: e.digits.text := by
  obtain ⟨e, he, hw⟩ := Option.bind_eq_some_iff.1 h
  obtain ⟨s, hs, rfl⟩ := Option.map_eq_some_iff.1 hw
  refine ⟨e, s, rfl, ?_⟩
  simp [text, he, ExponentPart.text, hs]

/-- Without a sign a numeral consists of literal characters, and they are a decimal of its value. -/
theorem exists_read?_of_unsigned (h : n.cut? = none) :
    (∀ c ∈ n.text, Literal.isChar c = true) ∧
      ∃ d, Decimal.read? n.text = some d ∧ d.value = n.value := by
  obtain ⟨m, e?⟩ := n
  cases e? with
  | none =>
      have hread := Decimal.read?_mantissa m (Text.endsAt_nil _) (by simp)
      refine ⟨?_, _, hread, Decimal.value_mantissa m 0⟩
      simpa [text] using isChar_of_mem_mantissa m
  | some e =>
      have hsign : e.sign? = none := by simpa [cut?] using h
      have hread := Decimal.read?_letter m e ((e.sign?.map Sign.char).toList ++ e.digits.text)
      rw [← ExponentPart.text, Decimal.exponent?_of_unsigned hsign] at hread
      refine ⟨?_, _, hread, ?_⟩
      · refine List.forall_mem_append.2 ⟨isChar_of_mem_mantissa m, ?_⟩
        simp only [Option.map_some, Option.getD_some, ExponentPart.text, hsign, Option.map_none,
          Option.toList_none, List.nil_append]
        exact List.forall_mem_cons.2
          ⟨isChar_letter e, fun c hc => isChar_of_isDigit (e.digits.isDigit c hc)⟩
      · rw [Decimal.value_mantissa, value]
        simp [ExponentPart.value, hsign]

/-- In front of the sign of a numeral there are literal characters, but they are no decimal. -/
theorem read?_of_cut? (h : n.cut? = some w) :
    (∀ c ∈ w, Literal.isChar c = true) ∧ Decimal.read? w = none := by
  obtain ⟨e, -, rfl, -⟩ := exists_of_cut? h
  refine ⟨List.forall_mem_append.2
    ⟨isChar_of_mem_mantissa _, List.forall_mem_singleton.2 (isChar_letter e)⟩, ?_⟩
  rw [Decimal.read?_letter, Decimal.exponent?_letter, Option.map_none]

end Numeral

namespace Literal

open Binary64 (IsNearest)

variable {n : Numeral} {w rest : Text}

/-- A text of literal characters that starts like a numeral is taken whole. -/
theorem leading?_append (m : Mantissa) {t : Text} (hw : ∀ c ∈ m.text ++ t, isChar c = true)
    (hrest : Text.EndsAt isChar rest) :
    leading? (m.text ++ t ++ rest) =
      (Decimal.read? (m.text ++ t)).map fun d => (.ofDecimal d, rest) := by
  obtain ⟨c, u, hm, hc⟩ := Numeral.exists_head m
  have hblank : Text.isBlank c = false := by
    rcases Bool.or_eq_true_iff.1 hc with h | h
    · exact Ident.not_isBlank_of_isPart (Ident.isPart_of_isDigit h)
    · rw [of_decide_eq_true h]
      decide
  rw [hm, List.cons_append] at hw ⊢
  have htrim : Text.trimStart (c :: (u ++ t) ++ rest) = c :: (u ++ t) ++ rest :=
    Text.trimStart_of_endsAt (Text.endsAt_cons hblank _)
  rw [leading?]
  simp only [htrim, Text.takeWhile_run hw hrest, Text.dropWhile_run hw hrest, List.head?_cons,
    Option.any_some, hc, if_true]

/-- A numeral without a sign is read as the number nearest to its value. -/
theorem exists_leading?_of_unsigned (h : n.cut? = none) (hrest : Text.EndsAt isChar rest) :
    ∃ a, leading? (n.text ++ rest) = some (a, rest) ∧ IsNearest n.value a := by
  obtain ⟨hchars, d, hread, hvalue⟩ := Numeral.exists_read?_of_unsigned h
  refine ⟨.ofDecimal d, ?_, hvalue ▸ Binary64.isNearest_ofDecimal d⟩
  rw [Numeral.text] at hchars hread ⊢
  rw [leading?_append n.mantissa hchars hrest, hread]
  rfl

/-- A numeral with a sign is not read as a literal. -/
theorem leading?_of_cut? (h : n.cut? = some w) (rest : Text) :
    leading? (n.text ++ rest) = none := by
  obtain ⟨hchars, hread⟩ := Numeral.read?_of_cut? h
  obtain ⟨e, s, rfl, htext⟩ := Numeral.exists_of_cut? h
  have hsign : Text.EndsAt isChar (s.char :: e.digits.text ++ rest) :=
    Text.endsAt_cons (by cases s <;> decide) _
  rw [htext, List.append_assoc, leading?_append n.mantissa hchars hsign, hread, Option.map_none]

/-- A numeral without a sign stands for a whole expression in front of the end of one. -/
theorem exists_whole?_of_unsigned (h : n.cut? = none) (hrest : Text.EndsAt isChar rest)
    (hend : (Text.trimStart rest).head?.all isEnd = true) :
    ∃ a, whole? (n.text ++ rest) = some a ∧ IsNearest n.value a := by
  obtain ⟨a, hread, ha⟩ := exists_leading?_of_unsigned h hrest
  refine ⟨a, ?_, ha⟩
  rw [whole?, hread]
  exact if_pos hend

end Literal

/-! ## Natural numbers -/

/-- The digits of a natural number. -/
def Digits.ofNat (k : Nat) : Digits :=
  ⟨Text.decimal k, Text.decimal_ne_nil k, fun _ => Text.isDigit_of_mem_decimal⟩

namespace Numeral

/-- The numeral of a natural number. -/
def ofNat (k : Nat) : Numeral :=
  ⟨.whole (.ofNat k), none⟩

theorem text_ofNat (k : Nat) : (ofNat k).text = Text.decimal k :=
  List.append_nil _

theorem value_ofNat (k : Nat) : (ofNat k).value = k := by
  have hnone : Text.digitsValue [] = 0 := rfl
  simp [value, ofNat, Digits.ofNat, Mantissa.value, Mantissa.front, Mantissa.behind,
    Text.digitsValue_decimal, hnone]

end Numeral
end DspCheck
