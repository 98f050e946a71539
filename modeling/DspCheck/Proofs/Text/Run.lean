import DspCheck.Text.Classes
import Mathlib.Data.Bool.AllAny
import Mathlib.Data.List.TakeWhile

/-!
# Runs of characters

Scanners take the longest run of characters of a class.  A text of such characters is the run that
they take if what follows does not go on with the class (`takeWhile_run`, `dropWhile_run`).

Two conditions keep runs from crossing the boundary between two texts: the one behind it does not
start with the class (`EndsAt`), or the one before it does not end with it (`Closes`).

The numeral of a number consists of digits, has that number as its value, and starts with a zero
only if it is the numeral of zero.
-/

namespace DspCheck
namespace Text

/-- What holds of the first 128 scalars holds of all ASCII characters. -/
theorem forall_ascii {p : Char → Bool} (h : ∀ n < 128, p (Char.ofNat n) = true) {c : Char}
    (hc : isAscii c = true) : p c = true := by
  have hlt : c.toNat < 128 := by simpa [isAscii] using hc
  have hp := h c.toNat hlt
  rwa [Char.ofNat_toNat] at hp

/-- A text does not go on with a class of characters. -/
def EndsAt (p : Char → Bool) (rest : Text) : Prop :=
  ∀ c, rest.head? = some c → p c = false

theorem endsAt_nil (p : Char → Bool) : EndsAt p [] := by
  intro c hc
  cases hc

theorem endsAt_cons {p : Char → Bool} {c : Char} (h : p c = false) (t : Text) :
    EndsAt p (c :: t) := by
  intro d hd
  obtain rfl := Option.some.inj hd
  exact h

theorem takeWhile_run {p : Char → Bool} {run rest : Text} (hrun : ∀ c ∈ run, p c = true)
    (hrest : EndsAt p rest) : (run ++ rest).takeWhile p = run := by
  have hstop : rest.takeWhile p = [] := by
    cases rest with
    | nil =>
        rfl
    | cons c rest =>
        exact List.takeWhile_cons_of_neg (by simp [hrest c rfl])
  rw [List.takeWhile_append_of_pos hrun, hstop, List.append_nil]

theorem dropWhile_run {p : Char → Bool} {run rest : Text} (hrun : ∀ c ∈ run, p c = true)
    (hrest : EndsAt p rest) : (run ++ rest).dropWhile p = rest := by
  rw [List.dropWhile_append_of_pos hrun]
  cases rest with
  | nil =>
      rfl
  | cons c rest =>
      exact List.dropWhile_cons_of_neg (by simp [hrest c rfl])

theorem trimStart_of_endsAt {t : Text} (h : EndsAt isBlank t) : trimStart t = t :=
  dropWhile_run (fun _ hc => absurd hc List.not_mem_nil) h

/-- A text that starts with a character that is no blank is not trimmed to nothing. -/
theorem trim_ne_nil {c : Char} {t : Text} (hc : isBlank c = false) : trim (c :: t) ≠ [] := by
  have hdrop : ∀ u : Text, (u ++ [c]).dropWhile isBlank ≠ [] := by
    intro u hnil
    have hblank := List.dropWhile_eq_nil_iff.1 hnil c (by simp)
    rw [hc] at hblank
    cases hblank
  rw [trim, trimStart_of_endsAt (endsAt_cons hc t), trimEnd, List.reverse_cons]
  exact fun hnil => hdrop _ (List.reverse_eq_nil_iff.1 hnil)

/-- No run of a class of characters goes on behind a text. -/
def Closes (p : Char → Bool) (t : Text) : Prop :=
  ∀ c, t.getLast? = some c → p c = false

theorem closes_nil (p : Char → Bool) : Closes p [] := by
  intro c hc
  cases hc

theorem Closes.of_suffix {p : Char → Bool} {s t : Text} (h : Closes p t) (hs : s <:+ t) :
    Closes p s := by
  obtain ⟨front, rfl⟩ := hs
  intro c hc
  apply h
  rw [List.getLast?_append, hc, Option.some_or]

theorem Closes.cons {p : Char → Bool} {c : Char} {t : Text} (ht : Closes p t)
    (hc : t = [] → p c = false) : Closes p (c :: t) := by
  cases t with
  | nil =>
      intro d hd
      obtain rfl := Option.some.inj hd
      exact hc rfl
  | cons d t =>
      exact ht

theorem Closes.mono {p q : Char → Bool} {t : Text} (h : Closes q t)
    (hpq : ∀ c, p c = true → q c = true) : Closes p t := by
  intro c hc
  have hq := h c hc
  cases hp : p c with
  | false =>
      rfl
  | true =>
      rw [hpq c hp] at hq
      cases hq

/-- What starts outside a class of characters adds nothing to the runs before it. -/
theorem takeWhile_append_of_endsAt {p : Char → Bool} (t : Text) {rest : Text}
    (h : EndsAt p rest) : (t ++ rest).takeWhile p = t.takeWhile p := by
  induction t with
  | nil =>
      have hnone : ∀ c ∈ ([] : Text), p c = true := fun _ hc => absurd hc List.not_mem_nil
      exact takeWhile_run hnone h
  | cons c t ih =>
      simp only [List.cons_append, List.takeWhile_cons, ih]

theorem dropWhile_append_of_endsAt {p : Char → Bool} (t : Text) {rest : Text}
    (h : EndsAt p rest) : (t ++ rest).dropWhile p = t.dropWhile p ++ rest := by
  induction t with
  | nil =>
      have hnone : ∀ c ∈ ([] : Text), p c = true := fun _ hc => absurd hc List.not_mem_nil
      exact dropWhile_run hnone h
  | cons c t ih =>
      simp only [List.cons_append, List.dropWhile_cons, ih]
      split <;> rfl

/-- Nothing adds to the runs of a text behind which none goes on. -/
theorem takeWhile_append_of_closes {p : Char → Bool} {t : Text} (h : Closes p t) (hne : t ≠ [])
    (rest : Text) : (t ++ rest).takeWhile p = t.takeWhile p := by
  induction t with
  | nil =>
      exact absurd rfl hne
  | cons c t ih =>
      cases t with
      | nil =>
          simp [h c rfl]
      | cons d t =>
          have hrest := ih (h.of_suffix (List.suffix_cons c _)) (List.cons_ne_nil d t)
          rw [List.cons_append, List.takeWhile_cons, List.takeWhile_cons, hrest]

theorem dropWhile_append_of_closes {p : Char → Bool} {t : Text} (h : Closes p t) (hne : t ≠ [])
    (rest : Text) : (t ++ rest).dropWhile p = t.dropWhile p ++ rest := by
  induction t with
  | nil =>
      exact absurd rfl hne
  | cons c t ih =>
      cases t with
      | nil =>
          simp [h c rfl]
      | cons d t =>
          have hrest := ih (h.of_suffix (List.suffix_cons c _)) (List.cons_ne_nil d t)
          rw [List.cons_append, List.dropWhile_cons, List.dropWhile_cons, hrest]
          split <;> rfl

/-! ## Numerals -/

theorem decimal_ne_nil (n : Nat) : decimal n ≠ [] :=
  Nat.toDigits_ne_nil

theorem isDigit_of_mem_decimal {n : Nat} {c : Char} (h : c ∈ decimal n) : c.isDigit = true :=
  Nat.isDigit_of_mem_toDigits (by decide) (by decide) h

theorem notMem_decimal {c : Char} (hc : c.isDigit = false) (n : Nat) : c ∉ decimal n := by
  intro h
  rw [isDigit_of_mem_decimal h] at hc
  cases hc

theorem digitsValue_decimal (n : Nat) : digitsValue (decimal n) = n :=
  Nat.ofDigitChars_ten_toDigits

theorem head?_decimal {n : Nat} (hn : n ≠ 0) : (decimal n).head? ≠ some '0' := by
  induction n using Nat.strongRecOn with
  | ind n ih =>
      by_cases hlt : n < 10
      · have hdigits : ∀ m < 10, m ≠ 0 → [Nat.digitChar m].head? ≠ some '0' := by decide
        rw [decimal, Nat.toDigits_of_lt_base hlt]
        exact hdigits n hlt hn
      · obtain ⟨c, t, hlead⟩ := List.exists_cons_of_ne_nil (decimal_ne_nil (n / 10))
        have hsplit : decimal n = decimal (n / 10) ++ [Nat.digitChar (n % 10)] :=
          Nat.toDigits_of_base_le (by decide) (by omega)
        have hne := ih (n / 10) (by omega) (by omega)
        rw [hlead] at hne
        rw [hsplit, hlead]
        exact hne

end Text
end DspCheck
