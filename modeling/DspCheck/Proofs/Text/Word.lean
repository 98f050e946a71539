import DspCheck.Proofs.Source.Identifier
import DspCheck.Text.Search

/-!
# Where a text stands in another one

A text is found in those of which it is a part (`contains_iff`), at its leftmost occurrence
(`breakAt?_append`).  A word is found where it stands alone: the two parts that `breakAtWord?`
yields, with the word between them, are the whole text (`append_of_breakAtWord?`).
-/

namespace DspCheck
namespace Text

theorem startsWith_append (s t : Text) : startsWith s (s ++ t) = true := by
  rw [startsWith, after?_append]
  rfl

/-- A text starts with those that are its prefixes. -/
theorem startsWith_iff {s t : Text} : startsWith s t = true ↔ s <+: t := by
  rw [startsWith, Option.isSome_iff_exists]
  constructor
  · rintro ⟨r, hr⟩
    exact ⟨r, (after?_eq_some_iff.1 hr).symm⟩
  · rintro ⟨r, rfl⟩
    exact ⟨r, after?_append s r⟩

theorem startsWith_of_head? {c : Char} {s t : Text} (h : t.head? ≠ some c) :
    startsWith (c :: s) t = false := by
  cases t with
  | nil =>
      rfl
  | cons d t =>
      have hne : c ≠ d := fun heq => h (congrArg some heq.symm)
      rw [startsWith, after?, if_neg hne]
      rfl

/-- A text is found at the start of those that start with it. -/
theorem breakAt?_start (s r : Text) : breakAt? s (s ++ r) = some ([], r) := by
  cases hsr : s ++ r with
  | nil =>
      obtain ⟨rfl, rfl⟩ := List.append_eq_nil_iff.1 hsr
      rfl
  | cons c t =>
      have hafter := after?_append s r
      rw [hsr] at hafter
      rw [breakAt?, hafter]

/-- Behind the leftmost occurrence of a text stands all that stands behind any other one. -/
theorem exists_breakAt? (s u r : Text) :
    ∃ b r', breakAt? s (u ++ s ++ r) = some (b, r') ∧ r <:+ r' := by
  induction u with
  | nil =>
      exact ⟨[], r, breakAt?_start s r, List.suffix_refl r⟩
  | cons c u ih =>
      rw [List.cons_append, List.cons_append, breakAt?]
      split
      · next r' hr' =>
          -- both rests end the same text, and the one behind the earlier occurrence is longer
          refine ⟨[], r', rfl, ?_⟩
          have htext := after?_eq_some_iff.1 hr'
          have hlength := congrArg List.length htext
          simp only [List.length_cons, List.length_append] at hlength
          have hsuffix : r <:+ s ++ r' := by
            rw [← htext]
            exact ⟨c :: (u ++ s), rfl⟩
          exact List.suffix_of_suffix_length_le hsuffix (List.suffix_append s r') (by omega)
      · obtain ⟨b, r', hbreak, hr⟩ := ih
        exact ⟨c :: b, r', by rw [hbreak]; rfl, hr⟩

/-- No occurrence of a text starts before the leftmost one. -/
theorem length_le_of_breakAt? {s t b r : Text} (h : breakAt? s t = some (b, r)) {b' r' : Text}
    (ht : t = b' ++ s ++ r') : b.length ≤ b'.length := by
  obtain ⟨b₀, r₀, hbreak, hsuffix⟩ := exists_breakAt? s b' r'
  rw [← ht, h] at hbreak
  obtain ⟨rfl, rfl⟩ := Prod.mk.inj (Option.some.inj hbreak)
  have hlength := congrArg List.length ((append_of_breakAt? h).symm.trans ht)
  have hle := hsuffix.length_le
  simp only [List.length_append] at hlength
  omega

/-- A text is found where its first character stands for the first time. -/
theorem breakAt?_append {c : Char} {b : Text} (h : c ∉ b) (s r : Text) :
    breakAt? (c :: s) (b ++ (c :: s) ++ r) = some (b, r) := by
  induction b with
  | nil =>
      exact breakAt?_start (c :: s) r
  | cons d b ih =>
      rw [List.mem_cons, not_or] at h
      rw [List.cons_append, List.cons_append, breakAt?, after?, if_neg h.1, ih h.2]
      rfl

/-- A text is cut at a character where it stands for the first time. -/
theorem breakAt?_singleton_iff {c : Char} {t b r : Text} :
    breakAt? [c] t = some (b, r) ↔ t = b ++ c :: r ∧ c ∉ b := by
  constructor
  · intro h
    have ht := append_of_breakAt? h
    rw [List.append_assoc, List.singleton_append] at ht
    refine ⟨ht, fun hmem => ?_⟩
    obtain ⟨x, y, hb⟩ := List.append_of_mem hmem
    have hearlier : t = x ++ [c] ++ (y ++ c :: r) := by
      rw [ht, hb]
      simp
    have hle := length_le_of_breakAt? h hearlier
    rw [hb, List.length_append, List.length_cons] at hle
    omega
  · rintro ⟨rfl, hc⟩
    have h := breakAt?_append hc [] r
    rwa [List.append_assoc, List.singleton_append] at h

/-- A text is not found in a shorter one. -/
theorem breakAt?_eq_none_of_length {s t : Text} (h : t.length < s.length) :
    breakAt? s t = none := by
  cases hbreak : breakAt? s t with
  | none =>
      rfl
  | some parts =>
      have hlength := congrArg List.length (append_of_breakAt? hbreak)
      simp only [List.length_append] at hlength
      omega

/-- A text with a character that another one does not have is not found in it. -/
theorem breakAt?_eq_none {c : Char} {s t : Text} (hs : c ∈ s) (ht : c ∉ t) :
    breakAt? s t = none := by
  cases hbreak : breakAt? s t with
  | none =>
      rfl
  | some parts =>
      refine absurd ?_ ht
      rw [append_of_breakAt? hbreak]
      exact List.mem_append_left _ (List.mem_append_right _ hs)

/-- A text is found in another one if it is a part of it. -/
theorem contains_iff {s t : Text} : contains s t = true ↔ s <:+: t := by
  constructor
  · intro h
    obtain ⟨⟨b, r⟩, hbreak⟩ := Option.isSome_iff_exists.1 h
    exact ⟨b, r, (append_of_breakAt? hbreak).symm⟩
  · rintro ⟨b, r, rfl⟩
    induction b with
    | nil =>
        rw [List.nil_append, contains, breakAt?_start]
        rfl
    | cons c b ih =>
        rw [List.cons_append, List.cons_append, contains, breakAt?]
        split
        · rfl
        · rw [Option.isSome_map]
          exact ih

theorem append_of_breakAtWordFrom? {word t b r : Text} {before? : Option Char}
    (h : breakAtWordFrom? word before? t = some (b, r)) : t = b ++ word ++ r := by
  induction t generalizing before? b with
  | nil =>
      cases h
  | cons c t ih =>
      have later : (breakAtWordFrom? word (some c) t).map (fun p => (c :: p.1, p.2)) =
          some (b, r) → c :: t = b ++ word ++ r := by
        intro h
        obtain ⟨p, hp, hpair⟩ := Option.map_eq_some_iff.1 h
        cases hpair
        rw [ih hp]
        rfl
      rw [breakAtWordFrom?] at h
      split at h
      · next rest hrest =>
          split at h
          · cases h
            exact after?_eq_some_iff.1 hrest
          · exact later h
      · exact later h

/-- The two parts with the word between them are the whole text. -/
theorem append_of_breakAtWord? {word t b r : Text} (h : breakAtWord? word t = some (b, r)) :
    t = b ++ word ++ r :=
  append_of_breakAtWordFrom? h

/-! ## Finding an identifier -/

variable {word : Text} {before? : Option Char}

/-- A word is found where it stands alone. -/
theorem breakAtWordFrom?_word (hword : Ident.isIdent word = true) (hbefore : isFree before? = true)
    {rest : Text} (hrest : isFree rest.head? = true) :
    breakAtWordFrom? word before? (word ++ rest) = some ([], rest) := by
  obtain ⟨c, w, rfl, -, -⟩ := Ident.isIdent_iff.1 hword
  rw [List.cons_append, breakAtWordFrom?, ← List.cons_append, after?_append]
  simp [hbefore, hrest]

/-- No identifier starts at a character that is no part of one. -/
theorem breakAtWordFrom?_other (hword : Ident.isIdent word = true) {c : Char}
    (hc : Ident.isPart c = false) (t : Text) :
    breakAtWordFrom? word before? (c :: t) =
      (breakAtWordFrom? word (some c) t).map fun p => (c :: p.1, p.2) := by
  obtain ⟨a, w, rfl, ha, -⟩ := Ident.isIdent_iff.1 hword
  have hne : a ≠ c := by
    rintro rfl
    rw [Ident.isPart_of_isStart ha] at hc
    cases hc
  rw [breakAtWordFrom?, after?, if_neg hne]

/-- No other identifier starts at an underscore that stands alone. -/
theorem breakAtWordFrom?_underscore (hword : Ident.isIdent word = true) (hne : word ≠ "_")
    {c : Char} (hc : Ident.isPart c = false) (t : Text) :
    breakAtWordFrom? word before? ('_' :: c :: t) =
      (breakAtWordFrom? word (some '_') (c :: t)).map fun p => ('_' :: p.1, p.2) := by
  obtain ⟨a, w, rfl, -, hw⟩ := Ident.isIdent_iff.1 hword
  have hnone : after? (a :: w) ('_' :: c :: t) = none := by
    by_cases ha : a = '_'
    · subst ha
      cases w with
      | nil =>
          exact absurd rfl hne
      | cons b w =>
          have hbc : b ≠ c := by
            rintro rfl
            rw [hw b List.mem_cons_self] at hc
            cases hc
          rw [after?, if_pos rfl, after?, if_neg hbc]
    · rw [after?, if_neg ha]
  rw [breakAtWordFrom?, hnone]

end Text
end DspCheck
