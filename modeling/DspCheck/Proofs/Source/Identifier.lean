import DspCheck.Proofs.Text.Trim
import DspCheck.Source.Reference
import DspCheck.Text.Classes

/-!
# Identifiers as texts

What the scanners of programs rely on: identifiers are not empty, consist of ASCII characters of
runs, and have neither a dot nor a blank in them.
-/

namespace DspCheck
namespace Ident

theorem isPart_of_isStart {c : Char} (h : isStart c = true) : isPart c = true := by
  simp only [isStart, isPart, Bool.or_eq_true, Char.isAlphanum] at h ⊢
  rcases h with h | h
  · exact Or.inl (Or.inl h)
  · exact Or.inr h

theorem isIdent_iff {t : Text} :
    isIdent t = true ↔ ∃ c r, t = c :: r ∧ isStart c = true ∧ ∀ d ∈ r, isPart d = true := by
  constructor
  · intro h
    cases t with
    | nil =>
        cases h
    | cons c r =>
        rw [isIdent, Bool.and_eq_true, List.all_eq_true] at h
        exact ⟨c, r, rfl, h⟩
  · rintro ⟨c, r, rfl, hc, hr⟩
    rw [isIdent, Bool.and_eq_true, List.all_eq_true]
    exact ⟨hc, hr⟩

theorem ne_nil {t : Text} (h : isIdent t = true) : t ≠ [] := by
  obtain ⟨c, r, rfl, -, -⟩ := isIdent_iff.1 h
  exact List.cons_ne_nil c r

theorem isPart_of_mem {t : Text} (h : isIdent t = true) {c : Char} (hc : c ∈ t) :
    isPart c = true := by
  obtain ⟨d, r, rfl, hd, hr⟩ := isIdent_iff.1 h
  rcases List.mem_cons.1 hc with rfl | hc
  · exact isPart_of_isStart hd
  · exact hr c hc

/-- The longest identifier at the start of a text is an identifier, unless it is empty. -/
theorem isIdent_leading {t : Text} (h : leading t ≠ []) : isIdent (leading t) = true := by
  cases t with
  | nil =>
      exact absurd rfl h
  | cons c t =>
      by_cases hc : isStart c = true
      · rw [leading, if_pos hc]
        exact isIdent_iff.2 ⟨c, _, rfl, hc, List.all_eq_true.1 List.all_takeWhile⟩
      · rw [leading, if_neg hc] at h
        exact absurd rfl h

/-- An identifier is what leads a text in which no identifier goes on behind it. -/
theorem leading_append {t rest : Text} (h : isIdent t = true)
    (hrest : Text.EndsAt isPart rest) : leading (t ++ rest) = t := by
  obtain ⟨c, r, rfl, hc, hr⟩ := isIdent_iff.1 h
  rw [List.cons_append, leading, if_pos hc, Text.takeWhile_run hr hrest]

theorem leading_append_drop (t : Text) : leading t ++ t.drop (leading t).length = t := by
  apply List.prefix_iff_eq_append.1
  cases t with
  | nil =>
      exact List.nil_prefix
  | cons c t =>
      by_cases hc : isStart c = true
      · rw [leading, if_pos hc]
        exact List.cons_prefix_cons.2 ⟨rfl, List.takeWhile_prefix isPart⟩
      · rw [leading, if_neg hc]
        exact List.nil_prefix

theorem notMem_of_not_isPart {t : Text} (h : isIdent t = true) {c : Char}
    (hc : isPart c = false) : c ∉ t := by
  intro hmem
  rw [isPart_of_mem h hmem] at hc
  cases hc

theorem isAscii_of_isPart {c : Char} (h : isPart c = true) : Text.isAscii c = true := by
  -- each class of letters and digits is an interval of scalars
  have hbound : ∀ {last : UInt32}, c.val ≤ last → last.toNat < 128 → c.toNat < 128 :=
    fun hle hlast => Nat.lt_of_le_of_lt (UInt32.le_iff_toNat_le.1 hle) hlast
  rw [isPart, Char.isAlphanum, Bool.or_eq_true, Bool.or_eq_true] at h
  rw [Text.isAscii, decide_eq_true_eq]
  rcases h with (h | h) | h
  · rcases (Bool.or_eq_true _ _).mp h with h | h
    · exact hbound (of_decide_eq_true h).2 (by decide)
    · exact hbound (of_decide_eq_true (Bool.and_eq_true_iff.1 h).2) (by decide)
  · exact hbound (of_decide_eq_true (Bool.and_eq_true_iff.1 h).2) (by decide)
  · obtain rfl := of_decide_eq_true h
    decide

theorem isPart_of_isDigit {c : Char} (h : c.isDigit = true) : isPart c = true := by
  simp [isPart, Char.isAlphanum, h]

theorem not_isStart_of_isDigit {c : Char} (h : c.isDigit = true) : ¬ isStart c = true := by
  have hall := Text.forall_ascii (p := fun c => !c.isDigit || !isStart c) (by decide)
    (isAscii_of_isPart (isPart_of_isDigit h))
  simpa [h] using hall

theorem not_isBlank_of_isPart {c : Char} (h : isPart c = true) : Text.isBlank c = false := by
  have hall := Text.forall_ascii (p := fun c => !isPart c || !Text.isBlank c) (by decide)
    (isAscii_of_isPart h)
  simpa [h] using hall

theorem not_isPart_of_isBlank {c : Char} (h : Text.isBlank c = true) : isPart c = false :=
  Bool.eq_false_iff.2 fun hpart => by
    rw [not_isBlank_of_isPart hpart] at h
    cases h

/-- What starts with an identifier starts with no character that is no part of one. -/
theorem endsAt_append {p : Char → Bool} (hp : ∀ c, isPart c = true → p c = false) {t : Text}
    (h : isIdent t = true) (rest : Text) : Text.EndsAt p (t ++ rest) := by
  obtain ⟨c, r, rfl, hc, -⟩ := isIdent_iff.1 h
  exact Text.endsAt_cons (hp c (isPart_of_isStart hc)) _

theorem blank_notMem {t : Text} (h : isIdent t = true) : ' ' ∉ t :=
  notMem_of_not_isPart h rfl

theorem dot_notMem {t : Text} (h : isIdent t = true) : '.' ∉ t :=
  notMem_of_not_isPart h rfl

theorem blank_notMem_qualified {library name : Text} (hl : isIdent library = true)
    (hn : isIdent name = true) : ' ' ∉ qualified library name := by
  rw [qualified, List.mem_append, List.mem_cons, not_or, not_or]
  exact ⟨blank_notMem hl, by decide, blank_notMem hn⟩

theorem length_leading_le (t : Text) : (leading t).length ≤ t.length := by
  have h := congrArg List.length (leading_append_drop t)
  rw [List.length_append] at h
  omega

/-- What follows the identifier at the start of a text is no part of it. -/
theorem endsAt_drop_leading {t : Text} (h : leading t ≠ []) :
    Text.EndsAt isPart (t.drop (leading t).length) := by
  cases t with
  | nil =>
      exact absurd rfl h
  | cons c t =>
      have hc : isStart c = true := by
        by_contra hc
        exact h (by rw [leading, if_neg hc])
      have hdrop : t.drop (t.takeWhile isPart).length = t.dropWhile isPart := by
        have hdrop := @List.drop_left _ (t.takeWhile isPart) (t.dropWhile isPart)
        rwa [List.takeWhile_append_dropWhile] at hdrop
      rw [leading, if_pos hc, List.length_cons, List.drop_succ_cons, hdrop]
      exact Text.endsAt_dropWhile isPart t

/-- A text that starts with an identifier is the identifier and what follows it. -/
theorem exists_leading {t : Text} (h : leading t ≠ []) :
    ∃ word rest, t = word ++ rest ∧ isIdent word = true ∧ Text.EndsAt isPart rest :=
  ⟨leading t, t.drop (leading t).length, (leading_append_drop t).symm, isIdent_leading h,
    endsAt_drop_leading h⟩

/-- What starts with no part of an identifier adds to none. -/
theorem leading_append_of_endsAt (t : Text) {rest : Text} (h : Text.EndsAt isPart rest) :
    leading (t ++ rest) = leading t := by
  cases t with
  | nil =>
      cases rest with
      | nil =>
          rfl
      | cons c rest =>
          refine if_neg fun hc => ?_
          have hpart := h c rfl
          rw [isPart_of_isStart hc] at hpart
          cases hpart
  | cons c t =>
      rw [List.cons_append, leading, leading, Text.takeWhile_append_of_endsAt t h]

/-- Nothing adds to the identifier at the start of a text behind which none goes on. -/
theorem leading_append_of_closes {t : Text} (h : Text.Closes isPart t) (hne : t ≠ [])
    (rest : Text) : leading (t ++ rest) = leading t := by
  cases t with
  | nil =>
      exact absurd rfl hne
  | cons c t =>
      cases t with
      | nil =>
          have hstart : ¬ isStart c = true := by
            intro hc
            have hpart := h c rfl
            rw [isPart_of_isStart hc] at hpart
            cases hpart
          simp [leading, hstart]
      | cons d t =>
          have hrun := Text.takeWhile_append_of_closes (h.of_suffix (List.suffix_cons c _))
            (List.cons_ne_nil d t) rest
          rw [List.cons_append, leading, leading, hrun]

end Ident
end DspCheck
