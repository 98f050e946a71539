import DspCheck.Source.Masking
import Mathlib.Tactic.SplitIfs

/-!
# The theory of masking

What stands in a masked line and is no blank stands at the same place in the line itself
(`exists_of_mask_eq`).  A masked line is left alone when it is masked again (`mask_mask`): hidden
characters have become blanks, which change no mode, and a visible slash opens no comment, because
what follows it is visible, too.  A character outside ASCII is visible where the scanner reads
code (`mem_mask_iff`).

The second run sees neither comments nor escapes, so it is in the *visible mode* of the first one
(`Mode.visible`).

Up to its first quote a line without comments is its own masked form (`exists_append_of_mask_eq`).
-/

namespace DspCheck

namespace Mode

/-- The mode in which a scanner of the masked form is. -/
def visible : Mode → Mode
  | string => string
  | escape => string
  | _ => code

theorem visible_nextLine (m : Mode) : m.nextLine.visible = code := by
  cases m <;> rfl

theorem nextLine_visible (m : Mode) : m.visible.nextLine = code := by
  cases m <;> rfl

/-- Behind a hidden character the scanner of the masked form is where it was. -/
theorem visible_step_of_hidden {m : Mode} {c : Char} {ahead? : Option Char}
    (h : (m.step c ahead?).2 = false) : (m.step c ahead?).1.visible = m.visible := by
  cases m with
  | code =>
      simp only [step] at h ⊢
      split_ifs at h ⊢ <;> rfl
  | string =>
      simp only [step] at h ⊢
      split_ifs at h ⊢ <;> rfl
  | escape =>
      rfl
  | lineComment =>
      rfl
  | blockOpen =>
      rfl
  | block =>
      simp only [step] at h ⊢
      split_ifs <;> rfl
  | blockClose =>
      rfl

/-- A visible character is a quote in a string, or it stands in code, where it is no slash that
opens a comment. -/
theorem cases_of_visible {m : Mode} {c : Char} {ahead? : Option Char}
    (h : (m.step c ahead?).2 = true) :
    (m = string ∧ c = '"') ∨
      (m = code ∧ ¬ (c = '/' ∧ (ahead? = some '/' ∨ ahead? = some '*'))) := by
  cases m with
  | code =>
      refine Or.inr ⟨rfl, ?_⟩
      rintro ⟨rfl, rfl | rfl⟩ <;> simp [step] at h
  | string =>
      refine Or.inl ⟨rfl, ?_⟩
      simp only [step] at h
      split_ifs at h with hc
      exact hc
  | escape =>
      cases h
  | lineComment =>
      cases h
  | blockOpen =>
      cases h
  | block =>
      simp only [step] at h
      split_ifs at h
  | blockClose =>
      cases h

/-- In code all characters but quotes and slashes are visible and change nothing. -/
theorem step_code {c : Char} {ahead? : Option Char} (hq : c ≠ '"')
    (hs : ¬ (c = '/' ∧ (ahead? = some '/' ∨ ahead? = some '*'))) :
    code.step c ahead? = (code, true) := by
  simp only [step, if_neg hq, Bool.and_eq_true, decide_eq_true_eq]
  rw [if_neg fun h => hs ⟨h.1, Or.inl h.2⟩, if_neg fun h => hs ⟨h.1, Or.inr h.2⟩]

/-- In a string all characters but quotes and backslashes are hidden and change nothing. -/
theorem step_string {c : Char} {ahead? : Option Char} (hq : c ≠ '"') (hb : c ≠ '\\') :
    string.step c ahead? = (string, false) := by
  simp [step, hq, hb]

/-- A character outside ASCII opens and closes no comment. -/
theorem step_head? {d : Char} (hd : Text.isAscii d = false) (m : Mode) (c : Char)
    (front rest : Text) : m.step c (front ++ d :: rest).head? = m.step c front.head? := by
  cases front with
  | cons e front =>
      rfl
  | nil =>
      have hslash : d ≠ '/' := fun h => by rw [h] at hd; cases hd
      have hstar : d ≠ '*' := fun h => by rw [h] at hd; cases hd
      cases m <;> simp [step, hslash, hstar]

end Mode

namespace Text

theorem mask_cons (m : Mode) (c : Char) (t : Text) :
    mask m (c :: t) = veil (m.step c t.head?).2 c ++ mask (m.step c t.head?).1 t := rfl

/-- The masked form of a text depends on the first character of what follows it only. -/
theorem exists_mask_append (m : Mode) (t : Text) (ahead? : Option Char) :
    ∃ v m', byteSize v = byteSize t ∧ ∀ rest, rest.head? = ahead? →
      mask m (t ++ rest) = v ++ mask m' rest ∧ m.after (t ++ rest) = m'.after rest := by
  induction t generalizing m with
  | nil =>
      exact ⟨[], m, rfl, fun rest _ => ⟨rfl, rfl⟩⟩
  | cons c t ih =>
      obtain ⟨v, m', hv, hrest⟩ := ih (m.step c (t.head?.or ahead?)).1
      refine ⟨veil (m.step c (t.head?.or ahead?)).2 c ++ v, m', ?_, fun rest hhead => ?_⟩
      · rw [byteSize_append, byteSize_veil, hv, byteSize_cons]
      · obtain ⟨hmask, hafter⟩ := hrest rest hhead
        rw [List.cons_append, mask_cons, Mode.after, List.head?_append, hhead, hmask, hafter,
          List.append_assoc]
        exact ⟨rfl, rfl⟩

theorem veil_ne_nil (kept : Bool) (c : Char) : veil kept c ≠ [] := by
  cases kept with
  | true =>
      simp [veil]
  | false =>
      have hc := c.utf8Size_pos
      simp only [veil, Bool.false_eq_true, if_false, ne_eq, List.replicate_eq_nil_iff]
      omega

/-- What is no blank in the visible form of a character is that character. -/
theorem veil_eq_of_mem {kept : Bool} {c d : Char} (hd : d ∈ veil kept c) (hne : d ≠ ' ') :
    veil kept c = [d] ∧ c = d := by
  cases kept with
  | true =>
      have hdc : d = c := by simpa [veil] using hd
      exact ⟨by simp [veil, hdc], hdc.symm⟩
  | false =>
      exact absurd (List.eq_of_mem_replicate (by simpa [veil] using hd)) hne

/-! ## From the masked form back to the text -/

/-- A character of the masked form that is no blank stands in the text with as many bytes before
it, and what is behind it is the masked form of what is behind it in the text. -/
theorem exists_of_mask_eq_cons {m : Mode} {t b a : Text} {c : Char}
    (h : mask m t = b ++ c :: a) (hc : c ≠ ' ') :
    ∃ b' a' m', t = b' ++ c :: a' ∧ byteSize b' = byteSize b ∧ mask m' a' = a := by
  induction t generalizing m b with
  | nil =>
      simp [mask] at h
  | cons d t ih =>
      have later : ∀ b₁, b = veil (m.step d t.head?).2 d ++ b₁ →
          mask (m.step d t.head?).1 t = b₁ ++ c :: a →
          ∃ b' a' m', d :: t = b' ++ c :: a' ∧ byteSize b' = byteSize b ∧ mask m' a' = a := by
        intro b₁ hb hrest
        obtain ⟨b', a', m', ht, hsize, ha⟩ := ih hrest
        refine ⟨d :: b', a', m', by rw [ht, List.cons_append], ?_, ha⟩
        rw [hb, byteSize_append, byteSize_veil, byteSize_cons, hsize]
      rw [mask_cons] at h
      rcases List.append_eq_append_iff.1 h with ⟨b₁, hb, hrest⟩ | ⟨x, hveil, hx⟩
      · exact later b₁ hb hrest
      · cases x with
        | nil =>
            refine later [] (by simpa using hveil.symm) (by simpa using hx.symm)
        | cons e x =>
            -- the character is the visible form of `d`
            obtain ⟨rfl, ha⟩ := List.cons.inj hx
            obtain ⟨hone, rfl⟩ :=
              veil_eq_of_mem (hveil ▸ List.mem_append_right b List.mem_cons_self) hc
            rw [hone] at hveil
            obtain ⟨rfl, hnil⟩ := List.append_eq_singleton_iff.1 hveil.symm |>.resolve_right
              (fun hb => by simp at hb)
            have hx' : x = [] := (List.cons.inj hnil).2
            subst hx'
            exact ⟨[], t, _, rfl, rfl, ha.symm⟩

/-- A part of the masked form without blanks stands in the text with as many bytes before it. -/
theorem exists_of_mask_eq {m : Mode} {t b x a : Text} (h : mask m t = b ++ x ++ a)
    (hx : ' ' ∉ x) (hne : x ≠ []) :
    ∃ b' a' m', t = b' ++ x ++ a' ∧ byteSize b' = byteSize b ∧ mask m' a' = a := by
  induction x generalizing m t b with
  | nil =>
      exact absurd rfl hne
  | cons c x ih =>
      rw [List.mem_cons, not_or] at hx
      have hcons : mask m t = b ++ c :: (x ++ a) := by simpa using h
      obtain ⟨b', a', m', ht, hsize, ha⟩ := exists_of_mask_eq_cons hcons (Ne.symm hx.1)
      cases x with
      | nil =>
          exact ⟨b', a', m', by simpa using ht, hsize, ha⟩
      | cons d x =>
          obtain ⟨b₂, a₂, m₂, ha', hsize₂, ha₂⟩ :=
            ih (b := []) (by simpa using ha) hx.2 (List.cons_ne_nil d x)
          have hnil : b₂ = [] := by
            cases b₂ with
            | nil =>
                rfl
            | cons e b₂ =>
                have he := e.utf8Size_pos
                rw [byteSize_cons, byteSize_nil] at hsize₂
                omega
          subst hnil
          exact ⟨b', a₂, m₂, by rw [ht, ha']; simp, hsize, ha₂⟩

/-- A character outside ASCII is visible where the scanner reads code. -/
theorem mem_mask_iff {d : Char} (hd : isAscii d = false) {m : Mode} {t : Text} :
    d ∈ mask m t ↔ ∃ front rest, t = front ++ d :: rest ∧ m.after front = .code := by
  have hne : ∀ c, isAscii c = true → d ≠ c := fun c hc h => by
    rw [h, hc] at hd
    cases hd
  induction t generalizing m with
  | nil =>
      simp [mask]
  | cons c t ih =>
      rw [mask_cons, List.mem_append]
      constructor
      · rintro (hveil | hlater)
        · obtain ⟨-, rfl⟩ := veil_eq_of_mem hveil (hne ' ' rfl)
          cases hkept : (m.step c t.head?).2 with
          | true =>
              rcases Mode.cases_of_visible hkept with ⟨-, rfl⟩ | ⟨rfl, -⟩
              · exact absurd rfl (hne '"' rfl)
              · exact ⟨[], t, rfl, rfl⟩
          | false =>
              rw [hkept] at hveil
              exact absurd (List.eq_of_mem_replicate hveil) (hne ' ' rfl)
        · obtain ⟨front, rest, rfl, hafter⟩ := ih.1 hlater
          refine ⟨c :: front, rest, rfl, ?_⟩
          rwa [Mode.after, ← Mode.step_head? hd m c front rest]
      · rintro ⟨_ | ⟨e, front⟩, rest, heq, hafter⟩
        · obtain ⟨rfl, rfl⟩ := List.cons.inj heq
          have hcode : m = .code := hafter
          have hstep : m.step c t.head? = (.code, true) := by
            rw [hcode]
            exact Mode.step_code (hne '"' rfl) fun h => hne '/' rfl h.1
          rw [hstep]
          exact Or.inl List.mem_cons_self
        · obtain ⟨rfl, rfl⟩ := List.cons.inj heq
          rw [Mode.after, ← Mode.step_head? hd m c front rest] at hafter
          exact Or.inr (ih.2 ⟨front, rest, rfl, hafter⟩)

/-! ## Masking twice -/

/-- What follows in code does not change its first character, unless that is a slash. -/
theorem head?_mask_code {t : Text} (h : t.head? ≠ some '/') :
    (mask .code t).head? = t.head? := by
  cases t with
  | nil =>
      rfl
  | cons c t =>
      have hc : c ≠ '/' := fun hc => h (by simp [hc])
      by_cases hq : c = '"'
      · subst hq
        rfl
      · rw [mask_cons, Mode.step_code hq fun hs => hc hs.1]
        rfl

/-- Blanks change no mode of the scanner of the masked form. -/
theorem mask_visible_replicate (m : Mode) (n : Nat) (t : Text) :
    mask m.visible (List.replicate n ' ' ++ t) =
      List.replicate n ' ' ++ mask m.visible t := by
  induction n with
  | zero =>
      rfl
  | succ n ih =>
      have hblank : ∀ ahead?,
          m.visible.step ' ' ahead? = (m.visible, decide (m.visible = .code)) := by
        intro ahead?
        cases m <;> rfl
      have hveil : ∀ kept, veil kept ' ' = [' '] := by
        intro kept
        cases kept <;> rfl
      rw [List.replicate_succ, List.cons_append, mask_cons, hblank, hveil, ih]
      rfl

theorem after_visible_replicate (m : Mode) (n : Nat) (t : Text) :
    m.visible.after (List.replicate n ' ' ++ t) = m.visible.after t := by
  induction n with
  | zero =>
      rfl
  | succ n ih =>
      have hblank : ∀ ahead?, (m.visible.step ' ' ahead?).1 = m.visible := by
        intro ahead?
        cases m <;> rfl
      rw [List.replicate_succ, List.cons_append, Mode.after, hblank, ih]

/-- A visible character of a text is visible in the masked form, too, and leads to the visible form
of the same mode. -/
theorem step_mask {m : Mode} {c : Char} {t : Text} (h : (m.step c t.head?).2 = true) :
    m.visible.step c (mask (m.step c t.head?).1 t).head? =
      ((m.step c t.head?).1.visible, true) := by
  rcases Mode.cases_of_visible h with ⟨rfl, rfl⟩ | ⟨rfl, hslash⟩
  · rfl
  · by_cases hq : c = '"'
    · subst hq
      rfl
    · rw [Mode.step_code hq hslash]
      refine Mode.step_code hq ?_
      rintro ⟨rfl, hahead⟩
      rw [head?_mask_code fun hs => hslash ⟨rfl, Or.inl hs⟩] at hahead
      exact hslash ⟨rfl, hahead⟩

/-- The masked form is its own masked form. -/
theorem mask_mask (m : Mode) (t : Text) : mask m.visible (mask m t) = mask m t := by
  induction t generalizing m with
  | nil =>
      rfl
  | cons c t ih =>
      rw [mask_cons]
      cases hk : (m.step c t.head?).2 with
      | true =>
          have hstep := step_mask hk
          simp only [veil, if_true, List.singleton_append]
          rw [mask_cons, hstep, ih]
          rfl
      | false =>
          simp only [veil, Bool.false_eq_true, if_false]
          rw [mask_visible_replicate, ← Mode.visible_step_of_hidden hk, ih]

/-- Scanning the masked form ends in the visible form of the mode in which scanning the text
ends. -/
theorem after_mask (m : Mode) (t : Text) :
    m.visible.after (mask m t) = (m.after t).visible := by
  induction t generalizing m with
  | nil =>
      rfl
  | cons c t ih =>
      rw [mask_cons, Mode.after]
      cases hk : (m.step c t.head?).2 with
      | true =>
          have hstep := step_mask hk
          simp only [veil, if_true, List.singleton_append]
          rw [Mode.after, hstep, ih]
      | false =>
          simp only [veil, Bool.false_eq_true, if_false]
          rw [after_visible_replicate, ← Mode.visible_step_of_hidden hk, ih]

/-- A text that does not end in a carriage return has a masked form that does not. -/
theorem getLast?_mask {m : Mode} {t : Text} (h : t.getLast? ≠ some '\r') :
    (mask m t).getLast? ≠ some '\r' := by
  intro hlast
  obtain ⟨front, hfront⟩ := List.getLast?_eq_some_iff.1 hlast
  obtain ⟨b, a, m', ht, -, ha⟩ := exists_of_mask_eq_cons hfront (by decide)
  have hnil : a = [] := by
    cases a with
    | nil =>
        rfl
    | cons c a =>
        rw [mask_cons, List.append_eq_nil_iff] at ha
        exact absurd ha.1 (veil_ne_nil _ c)
  subst hnil
  exact h (by simp [ht])

/-- A masked form has the line feeds of the text only. -/
theorem newline_notMem_mask {m : Mode} {t : Text} (h : '\n' ∉ t) : '\n' ∉ mask m t := by
  intro hmem
  obtain ⟨b, a, hsplit⟩ := List.append_of_mem hmem
  obtain ⟨b', a', -, ht, -⟩ := exists_of_mask_eq_cons hsplit (by decide)
  exact h (by simp [ht])

/-! ## Texts that leave the scanner in code -/

/-- In code a text has the masked form `u` and leads back to code, whatever follows it. -/
def MasksAs (t u : Text) : Prop :=
  ∀ rest, mask .code (t ++ rest) = u ++ mask .code rest ∧
    Mode.code.after (t ++ rest) = Mode.code.after rest

theorem MasksAs.append {t u t' u' : Text} (h : MasksAs t u) (h' : MasksAs t' u') :
    MasksAs (t ++ t') (u ++ u') := by
  intro rest
  rw [List.append_assoc, (h _).1, (h _).2, (h' rest).1, (h' rest).2, List.append_assoc]
  exact ⟨rfl, rfl⟩

theorem masksAs_self {t : Text} (h : ∀ c ∈ t, c ≠ '"' ∧ c ≠ '/') : MasksAs t t := by
  intro rest
  induction t with
  | nil =>
      exact ⟨rfl, rfl⟩
  | cons c t ih =>
      rw [List.forall_mem_cons] at h
      rw [List.cons_append, mask_cons, Mode.after, Mode.step_code h.1.1 fun hs => h.1.2 hs.1,
        (ih h.2).1, (ih h.2).2]
      exact ⟨rfl, rfl⟩

/-- A slash before a blank opens no comment. -/
theorem masksAs_division : MasksAs " / " " / " :=
  fun _ => ⟨rfl, rfl⟩

/-- A string literal without escapes has a blank for each byte of its content. -/
theorem masksAs_literal {content : Text} (h : ∀ c ∈ content, c ≠ '"' ∧ c ≠ '\\') :
    MasksAs ('"' :: (content ++ ['"']))
      ('"' :: (List.replicate (byteSize content) ' ' ++ ['"'])) := by
  have inside : ∀ rest, mask .string (content ++ '"' :: rest) =
      List.replicate (byteSize content) ' ' ++ '"' :: mask .code rest ∧
      Mode.string.after (content ++ '"' :: rest) = Mode.code.after rest := by
    intro rest
    induction content with
    | nil =>
        exact ⟨rfl, rfl⟩
    | cons c content ih =>
        rw [List.forall_mem_cons] at h
        rw [List.cons_append, mask_cons, Mode.after, Mode.step_string h.1.1 h.1.2, (ih h.2).1,
          (ih h.2).2, byteSize_cons, ← List.replicate_append_replicate, List.append_assoc]
        exact ⟨rfl, rfl⟩
  intro rest
  have hquote : ∀ ahead?, Mode.code.step '"' ahead? = (.string, true) := fun _ => rfl
  rw [List.cons_append, mask_cons, Mode.after, hquote, List.append_assoc, List.singleton_append,
    (inside rest).1, (inside rest).2]
  exact ⟨by simp [veil], rfl⟩

end Text

/-! ## Texts without comments -/

namespace Mode

/-- Whether the scanner is inside of a comment. -/
def isComment : Mode → Bool
  | code | string | escape => false
  | lineComment | blockOpen | block | blockClose => true

/-- Whether the scanner comes into a comment in a text. -/
def meetsComment (m : Mode) : Text → Bool
  | [] => m.isComment
  | c :: t => m.isComment || meetsComment (m.step c t.head?).1 t

theorem not_isComment_of_not_meetsComment {m : Mode} {t : Text} (h : m.meetsComment t = false) :
    m.isComment = false := by
  cases t with
  | nil =>
      exact h
  | cons c t =>
      exact (Bool.or_eq_false_iff.1 h).1

/-- Where no comment starts, each character of code but a quote leads to code. -/
theorem step_code_of_not_meetsComment {c : Char} {t : Text} (hquote : c ≠ '"')
    (h : code.meetsComment (c :: t) = false) :
    code.step c t.head? = (code, true) ∧ code.meetsComment t = false := by
  have hlater : (code.step c t.head?).1.meetsComment t = false := (Bool.or_eq_false_iff.1 h).2
  have hstep : code.step c t.head? = (code, true) := by
    refine step_code hquote ?_
    have hopen := not_isComment_of_not_meetsComment hlater
    rintro ⟨rfl, hahead | hahead⟩
    · rw [hahead] at hopen
      cases hopen
    · rw [hahead] at hopen
      cases hopen
  rw [hstep] at hlater
  exact ⟨hstep, hlater⟩

/-- Behind a line without comments the scanner reads code. -/
theorem nextLine_after_of_not_meetsComment {m : Mode} {t : Text} (h : m.meetsComment t = false) :
    (m.after t).nextLine = code := by
  induction t generalizing m with
  | nil =>
      cases m <;> first | rfl | cases h
  | cons c t ih =>
      rw [meetsComment, Bool.or_eq_false_iff] at h
      exact ih h.2

end Mode

namespace Text

/-- Without comments, what stands before the first quote of a masked line stands in the line. -/
theorem exists_append_of_mask_eq {t u v : Text} (h : mask .code t = u ++ v) (hquote : '"' ∉ u)
    (hcomment : Mode.code.meetsComment t = false) :
    ∃ t', t = u ++ t' ∧ mask .code t' = v := by
  induction u generalizing t with
  | nil =>
      exact ⟨t, rfl, h⟩
  | cons c u ih =>
      rw [List.mem_cons, not_or] at hquote
      cases t with
      | nil =>
          cases h
      | cons d t =>
          by_cases hd : d = '"'
          · subst hd
            exact absurd (List.cons.inj h).1 hquote.1
          · obtain ⟨hstep, hrest⟩ := Mode.step_code_of_not_meetsComment hd hcomment
            rw [mask_cons, hstep] at h
            obtain ⟨rfl, htail⟩ := List.cons.inj h
            obtain ⟨t', rfl, hv⟩ := ih htail hquote.2 hrest
            exact ⟨t', rfl, hv⟩

end Text
end DspCheck
