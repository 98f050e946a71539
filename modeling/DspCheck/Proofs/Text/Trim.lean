import DspCheck.Proofs.Text.Run
import Mathlib.Data.List.DropRight

/-!
# Texts without blanks at their ends

A text is left alone by trimming if and only if it neither starts nor ends with a blank
(`trim_eq_self_iff`).  Trimming yields such a text (`trim_trim`), and all that it takes away are
blanks at the two ends (`exists_trim_append`).
-/

namespace DspCheck
namespace Text

theorem dropWhile_eq_self_iff {p : Char → Bool} {t : Text} : t.dropWhile p = t ↔ EndsAt p t := by
  constructor
  · intro h
    have hhead := List.head?_dropWhile_not p t
    rw [h] at hhead
    intro c hc
    rw [hc] at hhead
    exact hhead
  · intro h
    exact dropWhile_run (fun _ hc => absurd hc List.not_mem_nil) h

theorem endsAt_dropWhile (p : Char → Bool) (t : Text) : EndsAt p (t.dropWhile p) :=
  dropWhile_eq_self_iff.1 (List.dropWhile_idempotent p t)

/-- A text that starts in a run is the run and what follows it. -/
theorem exists_run {p : Char → Bool} {c : Char} (hc : p c = true) (t : Text) :
    ∃ run rest, c :: t = run ++ rest ∧ run ≠ [] ∧ (∀ d ∈ run, p d = true) ∧ EndsAt p rest := by
  refine ⟨(c :: t).takeWhile p, (c :: t).dropWhile p, List.takeWhile_append_dropWhile.symm, ?_,
    fun d hd => List.mem_takeWhile_imp hd, endsAt_dropWhile p _⟩
  rw [List.takeWhile_cons_of_pos hc]
  exact List.cons_ne_nil _ _

theorem trimEnd_eq_self_iff {t : Text} : trimEnd t = t ↔ EndsAt isBlank t.reverse := by
  rw [trimEnd, List.reverse_eq_iff, dropWhile_eq_self_iff]

theorem isPrefix_trimEnd (t : Text) : trimEnd t <+: t :=
  List.rdropWhile_prefix isBlank t

theorem EndsAt.mono {p : Char → Bool} {s t : Text} (h : EndsAt p t) (hs : s <+: t) :
    EndsAt p s := by
  obtain ⟨rest, rfl⟩ := hs
  intro c hc
  cases s with
  | nil =>
      cases hc
  | cons d s =>
      exact h c hc

theorem isInfix_trim (t : Text) : trim t <:+: t :=
  (isPrefix_trimEnd _).isInfix.trans (List.dropWhile_suffix isBlank).isInfix

/-- Trimming takes away blanks at the two ends. -/
theorem exists_trim_append (t : Text) : ∃ front back, t = front ++ trim t ++ back ∧
    (∀ c ∈ front, isBlank c = true) ∧ ∀ c ∈ back, isBlank c = true := by
  have hstart : t = t.takeWhile isBlank ++ trimStart t :=
    List.takeWhile_append_dropWhile.symm
  have hend : trimStart t = trim t ++ ((trimStart t).reverse.takeWhile isBlank).reverse := by
    rw [trim, trimEnd, ← List.reverse_append, List.takeWhile_append_dropWhile, List.reverse_reverse]
  refine ⟨t.takeWhile isBlank, ((trimStart t).reverse.takeWhile isBlank).reverse, ?_,
    fun c => List.mem_takeWhile_imp, fun c hc => List.mem_takeWhile_imp (List.mem_reverse.1 hc)⟩
  rw [List.append_assoc, ← hend, ← hstart]

theorem mem_trim_of_mem {c : Char} {t : Text} (hc : isBlank c = false) (h : c ∈ t) :
    c ∈ trim t := by
  obtain ⟨front, back, ht, hfront, hback⟩ := exists_trim_append t
  rw [ht] at h
  rcases List.mem_append.1 h with h | h
  · rcases List.mem_append.1 h with h | h
    · rw [hfront c h] at hc
      cases hc
    · exact h
  · rw [hback c h] at hc
    cases hc

/-- Trimming leaves nothing of a blank text, and something of any other one. -/
theorem trim_eq_nil_iff {t : Text} : trim t = [] ↔ isAllBlank t = true := by
  rw [isAllBlank, List.all_eq_true]
  constructor
  · intro h c hc
    by_contra hblank
    have hmem := mem_trim_of_mem (Bool.eq_false_iff.2 hblank) hc
    rw [h] at hmem
    cases hmem
  · intro h
    rw [trim, trimStart, List.dropWhile_eq_nil_iff.2 h]
    rfl

/-- Trimming leaves a text alone if it neither starts nor ends with a blank. -/
theorem trim_eq_self_iff {t : Text} :
    trim t = t ↔ EndsAt isBlank t ∧ EndsAt isBlank t.reverse := by
  constructor
  · intro h
    have hstart : trimStart t = t := by
      have hprefix := (isPrefix_trimEnd (trimStart t)).length_le
      rw [show trimEnd (trimStart t) = t from h] at hprefix
      exact (List.dropWhile_suffix isBlank).eq_of_length_le hprefix
    rw [trim, hstart] at h
    exact ⟨dropWhile_eq_self_iff.1 hstart, trimEnd_eq_self_iff.1 h⟩
  · rintro ⟨hstart, hend⟩
    rw [trim, trimStart_of_endsAt hstart, trimEnd_eq_self_iff.2 hend]

/-- Trimming twice is trimming once. -/
theorem trim_trim (t : Text) : trim (trim t) = trim t := by
  refine trim_eq_self_iff.2 ⟨?_, ?_⟩
  · exact (endsAt_dropWhile isBlank t).mono (isPrefix_trimEnd _)
  · rw [trim, trimEnd, List.reverse_reverse]
    exact endsAt_dropWhile isBlank _

/-- A text without blanks is left alone. -/
theorem trim_of_forall {t : Text} (h : ∀ c ∈ t, isBlank c = false) : trim t = t := by
  refine trim_eq_self_iff.2 ⟨fun c hc => h c (List.mem_of_mem_head? hc), fun c hc => ?_⟩
  exact h c (List.mem_reverse.1 (List.mem_of_mem_head? hc))

theorem EndsAt.append {p : Char → Bool} {s : Text} (h : EndsAt p s) (hne : s ≠ []) (t : Text) :
    EndsAt p (s ++ t) := by
  cases s with
  | nil =>
      exact absurd rfl hne
  | cons c s =>
      exact endsAt_cons (h c rfl) (s ++ t)

/-- A text is left alone if its two ends are. -/
theorem trim_append {s t : Text} (hs : s ≠ []) (ht : t ≠ []) (hstart : trim s = s)
    (hend : trim t = t) (m : Text) : trim (s ++ (m ++ t)) = s ++ (m ++ t) := by
  refine trim_eq_self_iff.2 ⟨(trim_eq_self_iff.1 hstart).1.append hs _, ?_⟩
  rw [← List.append_assoc, List.reverse_append]
  exact (trim_eq_self_iff.1 hend).2.append (List.reverse_ne_nil_iff.2 ht) _

/-- Blanks around a text are cut off. -/
theorem trim_between {front t back : Text} (hfront : ∀ c ∈ front, isBlank c = true)
    (hback : ∀ c ∈ back, isBlank c = true) (h : trim t = t) (hne : t ≠ []) :
    trim (front ++ t ++ back) = t := by
  obtain ⟨hstart, hend⟩ := trim_eq_self_iff.1 h
  have hreverse : ∀ c ∈ back.reverse, isBlank c = true := fun c hc =>
    hback c (List.mem_reverse.1 hc)
  rw [trim, trimStart, List.append_assoc, dropWhile_run hfront (hstart.append hne back), trimEnd,
    List.reverse_append, dropWhile_run hreverse hend, List.reverse_reverse]

/-- What is left of a text without the blanks at its start. -/
theorem trimStart_eq_cons_iff {c : Char} (hc : isBlank c = false) {t r : Text} :
    trimStart t = c :: r ↔ ∃ pad, t = pad ++ c :: r ∧ ∀ d ∈ pad, isBlank d = true := by
  constructor
  · intro h
    refine ⟨t.takeWhile isBlank, ?_, fun _ => List.mem_takeWhile_imp⟩
    rw [← h, trimStart, List.takeWhile_append_dropWhile]
  · rintro ⟨pad, rfl, hpad⟩
    exact dropWhile_run hpad (endsAt_cons hc r)

/-- Blanks before a text start with no other character. -/
theorem head?_append_ne {pad t : Text} {c : Char} (hpad : ∀ d ∈ pad, isBlank d = true)
    (hc : isBlank c = false) (ht : t.head? ≠ some c) : (pad ++ t).head? ≠ some c := by
  cases pad with
  | nil =>
      exact ht
  | cons d pad =>
      intro hd
      rw [List.cons_append, List.head?_cons, Option.some.injEq] at hd
      rw [← hd, hpad d List.mem_cons_self] at hc
      cases hc

theorem trim_blank_cons {c : Char} {t : Text} (hc : isBlank c = true) (h : trim t = t) :
    trim (c :: t) = t := by
  conv_rhs => rw [← h]
  rw [trim, trimStart, List.dropWhile_cons_of_pos hc]
  rfl

theorem getLast?_ne_of_trim {t : Text} {c : Char} (h : trim t = t) (hc : isBlank c = true) :
    t.getLast? ≠ some c := by
  intro hlast
  have hfalse := (trim_eq_self_iff.1 h).2 c (List.head?_reverse.trans hlast)
  rw [hc] at hfalse
  cases hfalse

end Text
end DspCheck
