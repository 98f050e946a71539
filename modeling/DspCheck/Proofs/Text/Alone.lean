import DspCheck.Proofs.Text.Word

/-!
# Words that stand alone

A word stands alone in a text where no letter, digit or underscore touches it (`StandsAlone`).

* `breakAtWord?` finds the first place where a word stands alone, and fails only if there is none
  (`isFirstAlone_breakAtWord?`).
* `hasWord` looks at the occurrences that are taken from the left without overlap (`Taken`), and
  only at these (`hasWord_iff_taken`).  Every other occurrence overlaps one that is taken
  (`taken_or_overlapped`).  So a word that stands alone is missed only if an earlier occurrence
  goes on into it, and then the word ends with its own beginning, which itself ends where no
  identifier goes on (`OverlapsAtBreak`).

For words that do not overlap themselves in this way, such as identifiers, `hasWord` tells whether
they stand alone somewhere (`hasWord_iff`).  For every other word there is a text in which it is
missed (`exists_hasWord_eq_false`).
-/

namespace DspCheck
namespace Text

/-- A word stands alone between two parts of a text. -/
structure StandsAlone (word t b r : Text) : Prop where
  split : t = b ++ word ++ r
  before : isFree b.getLast? = true
  behind : isFree r.head? = true

/-- What a search for a word that stands alone should yield behind a text that was read: the first
place, or none if there is no place. -/
def IsFirstAlone (word read t : Text) : Option (Text × Text) → Prop
  | none => ∀ b r, ¬ StandsAlone word (read ++ t) (read ++ b) r
  | some (b, r) =>
      StandsAlone word (read ++ t) (read ++ b) r ∧
        ∀ b' r', StandsAlone word (read ++ t) (read ++ b') r' → b.length ≤ b'.length

variable {word : Text}

/-- Of two starts of a text, the longer one goes on from the shorter one. -/
theorem exists_append_of_length_le {s t u v : Text} (h : s ++ u = t ++ v)
    (hle : s.length ≤ t.length) : ∃ w, t = s ++ w ∧ u = w ++ v := by
  obtain ⟨w, rfl⟩ : s <+: t := by
    refine List.prefix_of_prefix_length_le (List.prefix_append s u) ?_ hle
    rw [h]
    exact List.prefix_append t v
  rw [List.append_assoc, List.append_right_inj] at h
  exact ⟨w, rfl, h⟩

/-- Two occurrences of a word that start at one place are the same. -/
theorem occurrence_inj {b r b' r' : Text} (h : b ++ word ++ r = b' ++ word ++ r')
    (hlength : b.length = b'.length) : b = b' ∧ r = r' := by
  rw [List.append_assoc, List.append_assoc] at h
  obtain ⟨rfl, hrest⟩ := List.append_inj h hlength
  exact ⟨rfl, List.append_cancel_left hrest⟩

/-- A place that is not before a part of a text is behind it. -/
theorem StandsAlone.exists_of_le {a t b r : Text} (h : StandsAlone word (a ++ t) b r)
    (hle : a.length ≤ b.length) : ∃ u, b = a ++ u ∧ t = u ++ word ++ r := by
  have hsplit := h.split
  rw [List.append_assoc] at hsplit
  obtain ⟨u, hb, ht⟩ := exists_append_of_length_le hsplit hle
  rw [← List.append_assoc] at ht
  exact ⟨u, hb, ht⟩

/-! ## The first place where a word stands alone -/

section First

variable {read t : Text}

/-- A word stands alone at the start of a text if it is found there and nothing touches it. -/
theorem standsAlone_start_iff {r : Text} :
    StandsAlone word (read ++ t) read r ↔
      after? word t = some r ∧ (isFree read.getLast? && isFree r.head?) = true := by
  rw [after?_eq_some_iff, Bool.and_eq_true]
  constructor
  · rintro ⟨hsplit, hbefore, hbehind⟩
    rw [List.append_assoc] at hsplit
    exact ⟨List.append_cancel_left hsplit, hbefore, hbehind⟩
  · rintro ⟨rfl, hbefore, hbehind⟩
    exact ⟨(List.append_assoc _ _ _).symm, hbefore, hbehind⟩

/-- A place that is not at the start of a text is behind its first character. -/
theorem StandsAlone.start_or_behind {c : Char} {b r : Text}
    (h : StandsAlone word (read ++ c :: t) (read ++ b) r) :
    b = [] ∨ ∃ b', b = c :: b' ∧ StandsAlone word (read ++ [c] ++ t) (read ++ [c] ++ b') r := by
  cases b with
  | nil =>
      exact Or.inl rfl
  | cons d b' =>
      have hsplit := h.split
      rw [List.append_assoc, List.append_assoc] at hsplit
      obtain ⟨rfl, -⟩ := List.cons.inj (List.append_cancel_left hsplit)
      refine Or.inr ⟨b', rfl, ?_⟩
      rw [List.append_assoc, List.append_assoc]
      exact h

/-- If a word does not stand alone at the start of a text, the search goes on behind the first
character. -/
theorem IsFirstAlone.cons {c : Char} {found? : Option (Text × Text)}
    (hstart : ∀ r, ¬ StandsAlone word (read ++ c :: t) read r)
    (h : IsFirstAlone word (read ++ [c]) t found?) :
    IsFirstAlone word read (c :: t) (found?.map fun p => (c :: p.1, p.2)) := by
  have hlater : ∀ {b r}, StandsAlone word (read ++ c :: t) (read ++ b) r →
      ∃ b', b = c :: b' ∧ StandsAlone word (read ++ [c] ++ t) (read ++ [c] ++ b') r := by
    intro b r hb
    rcases hb.start_or_behind with rfl | hbehind
    · rw [List.append_nil] at hb
      exact absurd hb (hstart r)
    · exact hbehind
  cases found? with
  | none =>
      intro b r hb
      obtain ⟨b', -, hb'⟩ := hlater hb
      exact h b' r hb'
  | some parts =>
      obtain ⟨b, r⟩ := parts
      obtain ⟨hb, hfirst⟩ := h
      rw [List.append_assoc, List.append_assoc] at hb
      refine ⟨hb, fun b' r' hb' => ?_⟩
      obtain ⟨b'', rfl, hb''⟩ := hlater hb'
      exact Nat.succ_le_succ (hfirst b'' r' hb'')

theorem isFirstAlone_breakAtWordFrom? (hword : word ≠ []) (read t : Text) :
    IsFirstAlone word read t (breakAtWordFrom? word read.getLast? t) := by
  induction t generalizing read with
  | nil =>
      intro b r h
      have hsplit := h.split
      rw [List.append_assoc, List.append_assoc] at hsplit
      have hnil := List.append_cancel_left hsplit
      exact hword (List.append_eq_nil_iff.1 (List.append_eq_nil_iff.1 hnil.symm).2).1
  | cons c t ih =>
      have hread := ih (read ++ [c])
      rw [List.getLast?_concat] at hread
      rw [breakAtWordFrom?]
      cases hafter : after? word (c :: t) with
      | none =>
          refine hread.cons fun r hr => ?_
          rw [standsAlone_start_iff, hafter] at hr
          cases hr.1
      | some rest =>
          dsimp only
          split
          · next hfree =>
              refine ⟨?_, fun _ _ _ => Nat.zero_le _⟩
              rw [List.append_nil]
              exact standsAlone_start_iff.2 ⟨hafter, hfree⟩
          · next hfree =>
              refine hread.cons fun r hr => ?_
              rw [standsAlone_start_iff, hafter] at hr
              obtain ⟨hrest, hr⟩ := hr
              obtain rfl := Option.some.inj hrest
              exact hfree hr

/-- The first place where a word stands alone in a text is found. -/
theorem isFirstAlone_breakAtWord? (hword : word ≠ []) (t : Text) :
    IsFirstAlone word [] t (breakAtWord? word t) :=
  isFirstAlone_breakAtWordFrom? hword [] t

/-- There is one first place at most. -/
theorem IsFirstAlone.unique {found? found?' : Option (Text × Text)}
    (h : IsFirstAlone word read t found?) (h' : IsFirstAlone word read t found?') :
    found? = found?' := by
  cases found? with
  | none =>
      cases found?' with
      | none =>
          rfl
      | some parts' =>
          exact absurd h'.1 (h parts'.1 parts'.2)
  | some parts =>
      cases found?' with
      | none =>
          exact absurd h.1 (h' parts.1 parts.2)
      | some parts' =>
          have hsplit := h.1.split.symm.trans h'.1.split
          have hle := h.2 _ _ h'.1
          have hge := h'.2 _ _ h.1
          obtain ⟨hb, hr⟩ := occurrence_inj hsplit (by
            rw [List.length_append, List.length_append]
            omega)
          exact congrArg some (Prod.ext (List.append_cancel_left hb) hr)

end First

/-! ## Occurrences that are taken from the left -/

/-- What stands before an occurrence of a word that is taken from the left without overlap: each is
the leftmost one behind the last one. -/
inductive Taken (word : Text) : Text → Text → Prop
  | first {t b r : Text} (h : breakAt? word t = some (b, r)) : Taken word t b
  | behind {t b r b' : Text} (h : breakAt? word t = some (b, r)) (later : Taken word r b') :
      Taken word t (b ++ word ++ b')

/-- Two occurrences of a word, of which the later one starts inside the earlier one: the word ends
with its own beginning. -/
theorem exists_overlap {b r b' r' : Text} (h : b ++ word ++ r = b' ++ word ++ r')
    (hlt : b.length < b'.length) (hinside : b'.length < b.length + word.length) :
    ∃ front back behind, b' = b ++ front ∧ word = front ++ back ∧ word = back ++ behind ∧
      front ≠ [] ∧ back ≠ [] := by
  rw [List.append_assoc, List.append_assoc] at h
  obtain ⟨front, rfl, hfront⟩ := exists_append_of_length_le h hlt.le
  rw [List.length_append] at hlt hinside
  obtain ⟨back, hword, hback⟩ := exists_append_of_length_le hfront.symm (by omega)
  have hlength := congrArg List.length hword
  rw [List.length_append] at hlength
  obtain ⟨behind, hbehind, -⟩ := exists_append_of_length_le hback.symm (by omega)
  refine ⟨front, back, behind, rfl, hword, hbehind, ?_, ?_⟩
  · exact List.ne_nil_of_length_pos (by omega)
  · exact List.ne_nil_of_length_pos (by omega)

/-- An occurrence that is not taken starts inside one that is. -/
theorem taken_or_overlapped (hword : word ≠ []) {t b r : Text} (h : t = b ++ word ++ r) :
    Taken word t b ∨
      ∃ b₀ r₀, Taken word t b₀ ∧ t = b₀ ++ word ++ r₀ ∧ b₀.length < b.length ∧
        b.length < b₀.length + word.length := by
  have hpos := List.length_pos_of_ne_nil hword
  -- on what is left behind the leftmost occurrence
  induction hn : t.length using Nat.strong_induction_on generalizing t b with
  | _ n ih =>
      obtain ⟨b₀, r₀, hbreak, -⟩ := exists_breakAt? word b r
      rw [← h] at hbreak
      have htext := append_of_breakAt? hbreak
      rcases Nat.lt_or_ge b.length (b₀.length + word.length) with hinside | houtside
      · rcases Nat.eq_or_lt_of_le (length_le_of_breakAt? hbreak h) with heq | hlt
        · obtain ⟨rfl, -⟩ := occurrence_inj (htext.symm.trans h) heq
          exact Or.inl (Taken.first hbreak)
        · exact Or.inr ⟨b₀, r₀, Taken.first hbreak, htext, hlt, hinside⟩
      · have hcut : b₀ ++ word ++ r₀ = b ++ (word ++ r) := by
          rw [← htext, h, List.append_assoc]
        rw [← List.length_append] at houtside
        obtain ⟨b', rfl, hrest⟩ := exists_append_of_length_le hcut houtside
        rw [← List.append_assoc] at hrest
        have hshorter : r₀.length < n := by
          rw [← hn, htext]
          simp only [List.length_append]
          omega
        rcases ih r₀.length hshorter hrest rfl with htaken | ⟨b₁, r₁, htaken, hsplit, hlt, hinside⟩
        · exact Or.inl (Taken.behind hbreak htaken)
        · refine Or.inr ⟨b₀ ++ word ++ b₁, r₁, Taken.behind hbreak htaken, ?_, ?_, ?_⟩
          · rw [htext, hsplit]
            simp only [List.append_assoc]
          · simp only [List.length_append]
            omega
          · simp only [List.length_append] at hinside ⊢
            omega

/-! ## What a search without overlap finds -/

section Search

theorem hasWordFrom_skip (word read s t : Text) :
    hasWordFrom word read.getLast? s.length (s ++ t) =
      hasWordFrom word (read ++ s).getLast? 0 t := by
  induction s generalizing read with
  | nil =>
      rw [List.append_nil]
      rfl
  | cons c s ih =>
      have hread := ih (read ++ [c])
      rw [List.getLast?_concat, List.append_assoc] at hread
      rw [List.length_cons, List.cons_append, hasWordFrom]
      exact hread

/-- The search goes from one taken occurrence to the next one. -/
theorem hasWordFrom_eq (hword : word ≠ []) (read t : Text) :
    hasWordFrom word read.getLast? 0 t =
      (breakAt? word t).any fun p =>
        isFree (read ++ p.1).getLast? && isFree p.2.head? ||
          hasWordFrom word (read ++ p.1 ++ word).getLast? 0 p.2 := by
  induction t generalizing read with
  | nil =>
      rw [hasWordFrom, breakAt?, if_neg hword, decide_eq_false hword]
      rfl
  | cons c t ih =>
      rw [hasWordFrom, breakAt?]
      cases hafter : after? word (c :: t) with
      | none =>
          have hread := ih (read ++ [c])
          rw [List.getLast?_concat] at hread
          simp only [hread, Option.any_map, List.append_assoc, List.singleton_append]
      | some rest =>
          obtain ⟨d, w, rfl⟩ := List.exists_cons_of_ne_nil hword
          have htext := after?_eq_some_iff.1 hafter
          rw [List.cons_append] at htext
          obtain ⟨rfl, rfl⟩ := List.cons.inj htext
          have hskip := hasWordFrom_skip (c :: w) (read ++ [c]) w rest
          rw [List.getLast?_concat, List.append_assoc, List.singleton_append] at hskip
          simp only [Option.any_some, List.append_nil, List.length_cons, Nat.add_sub_cancel, hskip]

/-- Behind an occurrence a word stands alone in what is left where it does so in the text. -/
theorem standsAlone_behind_iff {read b t b' r : Text} :
    StandsAlone word (read ++ (b ++ word ++ t)) (read ++ (b ++ word ++ b')) r ↔
      StandsAlone word (read ++ b ++ word ++ t) (read ++ b ++ word ++ b') r := by
  simp only [List.append_assoc]

theorem hasWordFrom_of_taken (hword : word ≠ []) (read : Text) {t b r : Text}
    (htaken : Taken word t b) (h : StandsAlone word (read ++ t) (read ++ b) r) :
    hasWordFrom word read.getLast? 0 t = true := by
  induction htaken generalizing read with
  | @first t b r' hbreak =>
      have hsplit := h.split
      rw [append_of_breakAt? hbreak] at hsplit
      simp only [List.append_assoc, List.append_cancel_left_eq] at hsplit
      subst hsplit
      rw [hasWordFrom_eq hword, hbreak, Option.any_some, h.before, h.behind]
      rfl
  | @behind t b r' b' hbreak later ih =>
      rw [append_of_breakAt? hbreak, standsAlone_behind_iff] at h
      rw [hasWordFrom_eq hword, hbreak, Option.any_some, ih _ h, Bool.or_true]

theorem exists_of_hasWordFrom (hword : word ≠ []) (read t : Text)
    (h : hasWordFrom word read.getLast? 0 t = true) :
    ∃ b r, StandsAlone word (read ++ t) (read ++ b) r ∧ Taken word t b := by
  -- on what is left behind the leftmost occurrence
  induction hn : t.length using Nat.strong_induction_on generalizing read t with
  | _ n ih =>
      rw [hasWordFrom_eq hword, Option.any_eq_true] at h
      obtain ⟨⟨b, r⟩, hbreak, h⟩ := h
      have htext := append_of_breakAt? hbreak
      rcases (Bool.or_eq_true _ _).mp h with hfree | hlater
      · rw [Bool.and_eq_true] at hfree
        refine ⟨b, r, ⟨?_, hfree.1, hfree.2⟩, Taken.first hbreak⟩
        rw [htext]
        simp only [List.append_assoc]
      · have hshorter : r.length < n := by
          have hpos := List.length_pos_of_ne_nil hword
          rw [← hn, htext]
          simp only [List.length_append]
          omega
        obtain ⟨b', r', halone, htaken⟩ := ih r.length hshorter _ _ hlater rfl
        refine ⟨b ++ word ++ b', r', ?_, Taken.behind hbreak htaken⟩
        rw [htext, standsAlone_behind_iff]
        exact halone

/-- A word is found if and only if it stands alone at an occurrence that is taken. -/
theorem hasWord_iff_taken (hword : word ≠ []) (t : Text) :
    hasWord word t = true ↔ ∃ b r, StandsAlone word t b r ∧ Taken word t b := by
  constructor
  · exact exists_of_hasWordFrom hword [] t
  · rintro ⟨b, r, halone, htaken⟩
    exact hasWordFrom_of_taken hword [] htaken halone

end Search

/-! ## Words that overlap themselves -/

/-- A word ends with its own beginning: two occurrences can overlap, so that no letter, digit or
underscore is right before the later one. -/
def OverlapsAtBreak (word : Text) : Prop :=
  ∃ front back behind, word = front ++ back ∧ word = back ++ behind ∧
    front ≠ [] ∧ back ≠ [] ∧ isFree front.getLast? = true

theorem overlapsAtBreak_iff :
    OverlapsAtBreak word ↔
      ∃ n < word.length, 0 < n ∧ word.drop n <+: word ∧ isFree (word.take n).getLast? = true := by
  constructor
  · rintro ⟨front, back, behind, hfront, hback, hne, hne', hfree⟩
    have hpos := List.length_pos_of_ne_nil hne'
    refine ⟨front.length, ?_, List.length_pos_of_ne_nil hne, ?_, ?_⟩
    · rw [hfront, List.length_append]
      omega
    · rw [hfront, List.drop_left, ← hfront, hback]
      exact List.prefix_append back behind
    · rwa [hfront, List.take_left]
  · rintro ⟨n, hlt, hpos, ⟨behind, hbehind⟩, hfree⟩
    refine ⟨word.take n, word.drop n, behind, (List.take_append_drop n word).symm, hbehind.symm,
      ?_, ?_, hfree⟩
    · exact List.ne_nil_of_length_pos (by rw [List.length_take]; omega)
    · exact List.ne_nil_of_length_pos (by rw [List.length_drop]; omega)

instance (word : Text) : Decidable (OverlapsAtBreak word) :=
  decidable_of_iff _ overlapsAtBreak_iff.symm

/-- Inside an identifier there is a letter, digit or underscore right before each character. -/
theorem not_overlapsAtBreak_of_isIdent (h : Ident.isIdent word = true) :
    ¬ OverlapsAtBreak word := by
  rintro ⟨front, back, -, rfl, -, hne, -, hfree⟩
  obtain ⟨init, c, rfl⟩ := (List.eq_nil_or_concat front).resolve_left hne
  rw [List.concat_eq_append] at h hfree
  have hpart := Ident.isPart_of_mem h (List.mem_append_left back List.mem_concat_self)
  rw [List.getLast?_concat, isFree, Option.any_some, hpart] at hfree
  cases hfree

/-- A word that stands alone inside an earlier occurrence overlaps itself. -/
theorem overlapsAtBreak_of_standsAlone {t b r b' r' : Text} (h : t = b ++ word ++ r)
    (halone : StandsAlone word t b' r') (hlt : b.length < b'.length)
    (hinside : b'.length < b.length + word.length) : OverlapsAtBreak word := by
  obtain ⟨front, back, behind, rfl, hfront, hback, hne, hne'⟩ :=
    exists_overlap (h.symm.trans halone.split) hlt hinside
  have hfree := halone.before
  rw [List.getLast?_append_of_ne_nil _ hne] at hfree
  exact ⟨front, back, behind, hfront, hback, hne, hne', hfree⟩

/-- Where an identifier occurs without standing alone, it does not stand alone inside that
occurrence either. -/
theorem StandsAlone.behind_of_isIdent (hword : Ident.isIdent word = true) {t b r b' r' : Text}
    (halone : StandsAlone word t b' r') (h : t = b ++ word ++ r)
    (hfree : ¬ (isFree b.getLast? && isFree r.head?) = true) (hle : b.length ≤ b'.length) :
    (b ++ word).length ≤ b'.length := by
  rw [List.length_append, ← Nat.not_lt]
  intro hinside
  rcases Nat.eq_or_lt_of_le hle with heq | hlt
  · obtain ⟨rfl, rfl⟩ := occurrence_inj (h.symm.trans halone.split) heq
    exact hfree (Bool.and_eq_true_iff.2 ⟨halone.before, halone.behind⟩)
  · exact not_overlapsAtBreak_of_isIdent hword
      (overlapsAtBreak_of_standsAlone h halone hlt hinside)

/-- A word that does not overlap itself is found if and only if it stands alone somewhere. -/
theorem hasWord_iff (hword : word ≠ []) (hoverlap : ¬ OverlapsAtBreak word) (t : Text) :
    hasWord word t = true ↔ ∃ b r, StandsAlone word t b r := by
  rw [hasWord_iff_taken hword]
  constructor
  · rintro ⟨b, r, halone, -⟩
    exact ⟨b, r, halone⟩
  · rintro ⟨b, r, halone⟩
    rcases taken_or_overlapped hword halone.split with htaken | ⟨b₀, r₀, -, hsplit, hlt, hinside⟩
    · exact ⟨b, r, halone, htaken⟩
    · exact absurd (overlapsAtBreak_of_standsAlone hsplit halone hlt hinside) hoverlap

/-- A word that overlaps itself is missed in some text: behind a letter, an occurrence that does
not stand alone goes on into one that does. -/
theorem exists_hasWord_eq_false (h : OverlapsAtBreak word) :
    ∃ t b r, StandsAlone word t b r ∧ hasWord word t = false := by
  obtain ⟨front, back, behind, hfront, hback, hne, hne', hfree⟩ := h
  have hword : word ≠ [] := by
    rw [hfront]
    exact List.append_ne_nil_of_left_ne_nil hne back
  obtain ⟨d, w, hcons⟩ := List.exists_cons_of_ne_nil hword
  obtain ⟨c, hletter, hdc⟩ : ∃ c, Ident.isPart c = true ∧ d ≠ c := by
    by_cases hd : d = 'a'
    · exact ⟨'b', rfl, by rw [hd]; decide⟩
    · exact ⟨'a', rfl, hd⟩
  -- the text has the word right behind the letter and, as `front` goes on into it, at its end
  have htext : c :: front ++ word = [c] ++ word ++ behind := by
    rw [List.append_assoc, List.singleton_append, List.cons_append]
    conv_lhs => rw [hback, ← List.append_assoc, ← hfront]
  have hbreak : breakAt? word ([c] ++ word ++ behind) = some ([c], behind) := by
    rw [hcons]
    exact breakAt?_append (by simpa using hdc) w behind
  have hshort : behind.length < word.length := by
    have hlength := congrArg List.length hback
    have hpos := List.length_pos_of_ne_nil hne'
    rw [List.length_append] at hlength
    omega
  have hrest : hasWordFrom word ([c] ++ word).getLast? 0 behind = false := by
    rw [hasWordFrom_eq hword, breakAt?_eq_none_of_length hshort]
    rfl
  refine ⟨c :: front ++ word, c :: front, [], ⟨(List.append_nil _).symm, ?_, rfl⟩, ?_⟩
  · rwa [List.getLast?_cons_of_ne_nil hne]
  · show hasWordFrom word (List.getLast? []) 0 _ = false
    rw [htext, hasWordFrom_eq hword, hbreak, Option.any_some, List.nil_append, hrest,
      List.getLast?_singleton, isFree, Option.any_some, hletter]
    rfl

end Text
end DspCheck
