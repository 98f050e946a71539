import DspCheck.Json.Token
import DspCheck.Json.Writer
import DspCheck.Proofs.Text.Run
import Mathlib.Data.List.TakeDrop

/-!
# The tokens of what has been written

A written text is cut into one string token, which holds that text (`tokens?_writeText`).  A word is
cut off as a whole (`tokens?_word`), and the numeral of a number is the word that means this number
(`wordValue?_decimal`).
-/

namespace DspCheck
namespace Json

/-! ## Strings -/

theorem hexCode?_hexDigit {n : Nat} (h : n < 0x20) :
    hexCode? '0' '0' (hexDigit (n / 16)) (hexDigit (n % 16)) = some n := by
  have hall : ∀ n < 0x20, hexCode? '0' '0' (hexDigit (n / 16)) (hexDigit (n % 16)) = some n := by
    decide
  exact hall n h

theorem codes?_quote (rest : Text) : codes? ('"' :: rest) = some ([], rest) := by
  unfold codes?
  rfl

theorem codes?_plain {c : Char} (hquote : c ≠ '"') (hslash : c ≠ '\\') (hcontrol : ¬ c.toNat < 0x20)
    (rest : Text) : codes? (c :: rest) = putCode? (some c.toNat) (codes? rest) := by
  rw [codes?.eq_def]
  simp only [if_neg hquote, if_neg hslash, if_neg hcontrol]

/-- The written form of a character is read as its code point. -/
theorem codes?_escapeChar (c : Char) (rest : Text) :
    codes? (escapeChar c ++ rest) = putCode? (some c.toNat) (codes? rest) := by
  unfold escapeChar
  split
  · next h =>
      subst h
      simp [codes?, escapeCode?]
  split
  · next h =>
      subst h
      simp [codes?, escapeCode?]
  split
  · next h =>
      simp [codes?, escapeCode?, h]
  split
  · next h =>
      simp [codes?, escapeCode?, h]
  split
  · next h =>
      simp [codes?, escapeCode?, h]
  split
  · next h =>
      simp [codes?, escapeCode?, h]
  split
  · next h =>
      simp [codes?, escapeCode?, h]
  split
  · next h =>
      simp [codes?, hexCode?_hexDigit h]
  · next hquote hslash _ _ _ _ _ hcontrol =>
      exact codes?_plain hquote hslash hcontrol rest

theorem codes?_escaped (t rest : Text) :
    codes? (t.flatMap escapeChar ++ '"' :: rest) = some (t.map Char.toNat, rest) := by
  induction t with
  | nil =>
      exact codes?_quote rest
  | cons c t ih =>
      rw [List.flatMap_cons, List.append_assoc, codes?_escapeChar, ih]
      rfl

/-- No scalar is half of a surrogate pair. -/
theorem not_half (c : Char) : isHighHalf c.toNat = false ∧ isLowHalf c.toNat = false := by
  have hvalid : c.toNat < 0xD800 ∨ (0xDFFF < c.toNat ∧ c.toNat < 0x110000) := c.valid
  simp only [isHighHalf, isLowHalf, Bool.and_eq_false_iff, decide_eq_false_iff_not]
  omega

theorem scalars?_map_toNat (t : Text) : scalars? (t.map Char.toNat) = some t := by
  induction t with
  | nil =>
      rfl
  | cons c t ih =>
      obtain ⟨hhigh, hlow⟩ := not_half c
      rw [List.map_cons, scalars?.eq_def]
      simp [hhigh, hlow, ih]

/-! ## Tokens -/

theorem tokens?_blank {c : Char} (h : isBlank c = true) (t : Text) :
    tokens? (c :: t) = tokens? t := by
  rw [tokens?, if_pos h]

theorem not_special_of_punctuation? {c : Char} {p : Token} (h : punctuation? c = some p) :
    isBlank c = false ∧ c ≠ '"' ∧ isWordChar c = false := by
  unfold punctuation? at h
  split_ifs at h
  all_goals
    subst c
    decide

theorem tokens?_punctuation {c : Char} {p : Token} (h : punctuation? c = some p) (t : Text) :
    tokens? (c :: t) = (tokens? t).map (p :: ·) := by
  obtain ⟨hblank, hquote, hword⟩ := not_special_of_punctuation? h
  rw [tokens?, hblank, if_neg Bool.false_ne_true, if_neg hquote, hword, if_neg Bool.false_ne_true,
    h]

theorem tokens?_string {t rest : Text} {codes : List Nat} (h : codes? t = some (codes, rest)) :
    tokens? ('"' :: t) = (tokens? rest).map (.string (scalars? codes) :: ·) := by
  rw [tokens?, if_neg (by decide), if_pos rfl]
  split
  · next hnone =>
      rw [h] at hnone
      cases hnone
  · next p hsome =>
      rw [h] at hsome
      cases hsome
      rfl

/-- A written text is cut into the string token that holds it. -/
theorem tokens?_writeText (t rest : Text) :
    tokens? (writeText t ++ rest) = (tokens? rest).map (.string (some t) :: ·) := by
  have hcodes := codes?_escaped t rest
  rw [writeText, List.cons_append, List.cons_append, List.append_assoc, List.singleton_append,
    tokens?_string hcodes, scalars?_map_toNat]

/-- A word is cut off as a whole. -/
theorem tokens?_word {w rest : Text} {v : Value} (hw : ∀ c ∈ w, isWordChar c = true)
    (hrest : Text.EndsAt isWordChar rest) (hv : wordValue? w = some v) :
    tokens? (w ++ rest) = (tokens? rest).map (.word v :: ·) := by
  have hne : w ≠ [] := by
    rintro rfl
    cases hv
  obtain ⟨c, t, rfl⟩ := List.exists_cons_of_ne_nil hne
  rw [List.forall_mem_cons] at hw
  have hblank : isBlank c = false := by
    simp only [isBlank, Bool.or_eq_false_iff, decide_eq_false_iff_not]
    refine ⟨⟨⟨?_, ?_⟩, ?_⟩, ?_⟩ <;> rintro rfl <;> exact absurd hw.1 (by decide)
  have hquote : c ≠ '"' := by
    rintro rfl
    exact absurd hw.1 (by decide)
  rw [List.cons_append, tokens?, hblank, if_neg Bool.false_ne_true, if_neg hquote, if_pos hw.1,
    Text.takeWhile_run hw.2 hrest, Text.dropWhile_run hw.2 hrest, hv]

theorem isWordChar_of_isDigit {c : Char} (h : c.isDigit = true) : isWordChar c = true := by
  simp [isWordChar, Char.isAlphanum, h]

theorem afterDigits?_of_isDigit {t : Text} (hne : t ≠ []) (h : ∀ c ∈ t, c.isDigit = true) :
    afterDigits? t = some [] := by
  have hspan : (t ++ []).span Char.isDigit = (t, []) := by
    rw [List.span_eq_takeWhile_dropWhile, Text.takeWhile_run h (Text.endsAt_nil _),
      Text.dropWhile_run h (Text.endsAt_nil _)]
  rw [List.append_nil] at hspan
  unfold afterDigits?
  rw [hspan]
  split
  · next heq =>
      exact absurd (Prod.mk.inj heq).1 hne
  · next heq =>
      exact congrArg some (Prod.mk.inj heq).2.symm

/-- The numeral of a number is the word of that number. -/
theorem wordValue?_decimal (n : Nat) : wordValue? (Text.decimal n) = some (.natural n) := by
  have hdigit : ∀ c ∈ Text.decimal n, c.isDigit = true := fun _ => Text.isDigit_of_mem_decimal
  have hname : ∀ {w : Text} {c : Char}, c ∈ w → c.isDigit = false → Text.decimal n ≠ w := by
    rintro w c hc hletter rfl
    rw [hdigit c hc] at hletter
    cases hletter
  have hsign : (Text.decimal n).head? ≠ some '-' := by
    intro hhead
    exact absurd (hdigit '-' (List.mem_of_head? hhead)) (by decide)
  have hinteger : afterInteger? (Text.decimal n) = some [] := by
    by_cases hn : n = 0
    · subst hn
      rfl
    · obtain ⟨c, t, hcons⟩ := List.exists_cons_of_ne_nil (Text.decimal_ne_nil n)
      have hzero : c ≠ '0' := by
        rintro rfl
        exact Text.head?_decimal hn (by rw [hcons]; rfl)
      have hafter := afterDigits?_of_isDigit (Text.decimal_ne_nil n) hdigit
      rw [hcons] at hafter
      rw [hcons, afterInteger?, if_neg hzero, hafter]
  unfold wordValue?
  rw [if_neg (hname (c := 'n') (by decide) (by decide)),
    if_neg (hname (c := 't') (by decide) (by decide)),
    if_neg (hname (c := 'f') (by decide) (by decide))]
  simp [number?, hsign, hinteger, afterFraction?, afterExponent?, List.all_eq_true.2 hdigit,
    Text.digitsValue_decimal]

end Json
end DspCheck
