import DspCheck.Proofs.Source.ArgumentList

/-!
# Argument lists by their grammar

An argument list is made of arguments with commas between them, in parentheses.  An argument is made
of *groups* in parentheses, string literals and single characters; it may be empty.  A group is made
of the same, and of commas.

The grammar is read from the top down.  A part that is not there is given back, and what stands
around it is tried without it.  That never helps: behind a parenthesis or a quote that does not
close, no list ends (`IsStuck`).

Main statement: `list?_eq`.
-/

namespace DspCheck
namespace ArgumentGrammar

open ArgumentList (Passes pieces? prepend)

/-- What follows a character at the start of a text. -/
def char? (d : Char) : Text → Option Text
  | [] => none
  | c :: t => if c = d then some t else none

/-- What follows the string literal at the start of a text. -/
def literal? (t : Text) : Option Text :=
  (char? '"' t).bind fun content => char? '"' (content.dropWhile (· ≠ '"'))

/-- The characters that stand for themselves in an argument, or in a group. -/
def isSingle (inGroup : Bool) (c : Char) : Bool :=
  c ≠ '(' && c ≠ ')' && c ≠ '"' && (inGroup || c ≠ ',')

/-- What follows the single character at the start of a text. -/
def single? (inGroup : Bool) : Text → Option Text
  | [] => none
  | c :: t => if isSingle inGroup c then some t else none

mutual

/-- What follows the group at the start of a text. -/
def group? : Text → Option Text
  | [] => none
  | c :: t => if c = '(' then char? ')' (content true t) else none
termination_by t => (t.length, 0)

/-- What follows the groups, string literals and single characters at the start of a text. -/
def content (inGroup : Bool) (t : Text) : Text :=
  match (group? t).or ((literal? t).or (single? inGroup t)) with
  | none => t
  | some rest => if rest.length < t.length then content inGroup rest else t
termination_by (t.length, 1)

end

/-- The argument at the start of a text. -/
def argument (t : Text) : Text :=
  Text.trim (t.take (t.length - (content false t).length))

theorem content_eq (inGroup : Bool) (t : Text) :
    content inGroup t =
      match (group? t).or ((literal? t).or (single? inGroup t)) with
      | none => t
      | some rest => if rest.length < t.length then content inGroup rest else t := by
  rw [content]

theorem length_content_le (inGroup : Bool) (t : Text) :
    (content inGroup t).length ≤ t.length := by
  induction h : t.length using Nat.strong_induction_on generalizing t with
  | _ n ih =>
      subst h
      rw [content_eq]
      split
      · exact Nat.le_refl _
      · next rest _ =>
          split
          · next hlt =>
              exact Nat.le_trans (ih _ hlt rest rfl) (Nat.le_of_lt hlt)
          · exact Nat.le_refl _

theorem char?_eq_some_iff {d : Char} {t rest : Text} : char? d t = some rest ↔ t = d :: rest := by
  cases t with
  | nil =>
      simp [char?]
  | cons c t =>
      by_cases hc : c = d <;> simp [char?, hc]

/-- The arguments at the start of a text, and what follows them. -/
def arguments (t : Text) : List Text × Text :=
  match _h : char? ',' (content false t) with
  | none => ([argument t], content false t)
  | some later => (argument t :: (arguments later).1, (arguments later).2)
termination_by t.length
decreasing_by
  all_goals
    have hle := length_content_le false t
    rw [char?_eq_some_iff.1 _h, List.length_cons] at hle
    exact hle

/-- The arguments of the list at the start of a text, and the number of its bytes. -/
def list? (t : Text) : Option (List Text × Nat) :=
  (char? '(' t).bind fun inside =>
    (char? ')' (arguments inside).2).map fun rest =>
      (if (arguments inside).1 = [[]] then [] else (arguments inside).1,
        Text.byteSize t - Text.byteSize rest)

/-! ## Parts of a list -/

/-- At the start of a text no list ends. -/
def IsStuck (t : Text) : Prop :=
  ∀ depth, pieces? false depth t = none

/-- A text starts with a part of an argument or of a group, which a reader passes. -/
def StartsWithPart (inGroup : Bool) (t rest : Text) : Prop :=
  ∃ part, t = part ++ rest ∧ part ≠ [] ∧ Passes inGroup.toNat part

theorem startsWithPart_single {inGroup : Bool} {t rest : Text}
    (h : single? inGroup t = some rest) : StartsWithPart inGroup t rest := by
  cases t with
  | nil =>
      cases h
  | cons c t =>
      rw [single?] at h
      split at h
      · next hc =>
          cases h
          refine ⟨[c], rfl, List.cons_ne_nil _ _, ?_⟩
          by_cases hcomma : c = ','
          · subst hcomma
            cases inGroup with
            | false =>
                cases hc
            | true =>
                exact ArgumentList.passes_comma
          · refine (ArgumentList.passes_of_plain ?_).mono (Nat.zero_le _)
            simp only [isSingle, Bool.and_eq_true, decide_eq_true_eq] at hc
            simp [ArgumentList.isPlain, hc, hcomma]
      · cases h

theorem startsWithPart_literal {inGroup : Bool} {t rest : Text} (h : literal? t = some rest) :
    StartsWithPart inGroup t rest := by
  obtain ⟨u, hu, hclose⟩ := Option.bind_eq_some_iff.1 h
  rw [char?_eq_some_iff] at hu hclose
  subst hu
  refine ⟨'"' :: (u.takeWhile (· ≠ '"') ++ ['"']), ?_, List.cons_ne_nil _ _,
    (ArgumentList.passes_literal ?_).mono (Nat.zero_le _)⟩
  · conv_lhs => rw [← List.takeWhile_append_dropWhile (p := (· ≠ '"')) (l := u), hclose]
    simp
  · intro hmem
    simpa using List.mem_takeWhile_imp hmem

theorem pieces?_quoted_eq_none {t : Text} (h : '"' ∉ t) (depth : Nat) :
    pieces? true depth t = none := by
  induction t with
  | nil =>
      rfl
  | cons c t ih =>
      rw [List.mem_cons, not_or] at h
      simp [pieces?, Ne.symm h.1, ih h.2]

/-- Behind a quote that does not close no list ends. -/
theorem isStuck_of_literal?_eq_none {t : Text} (h : literal? ('"' :: t) = none) :
    IsStuck ('"' :: t) := by
  have hquote : '"' ∉ t := by
    intro hmem
    cases hrest : t.dropWhile (· ≠ '"') with
    | nil =>
        have hall := List.dropWhile_eq_nil_iff.1 hrest '"' hmem
        simp at hall
    | cons c rest =>
        have hc := Text.endsAt_dropWhile (· ≠ '"') t c (by rw [hrest]; rfl)
        obtain rfl : c = '"' := by simpa using hc
        rw [literal?, char?, if_pos rfl, Option.bind_some, hrest, char?, if_pos rfl] at h
        cases h
  intro depth
  simp [pieces?, pieces?_quoted_eq_none hquote]

/-- What may stand behind the parts of an argument or of a group: its end, or a place behind which
no list ends. -/
def IsEnd (inGroup : Bool) (t : Text) : Prop :=
  t.head? = some ')' ∨ (inGroup = false ∧ t.head? = some ',') ∨ IsStuck t

/-- The parts at the start of a text are passed, up to an end. -/
def IsRead (inGroup : Bool) (t : Text) : Prop :=
  ∃ front, t = front ++ content inGroup t ∧ Passes inGroup.toNat front ∧
    IsEnd inGroup (content inGroup t)

section Groups

variable {t rest : Text}

theorem group?_cons_of_ne {c : Char} (hc : c ≠ '(') (t : Text) : group? (c :: t) = none := by
  rw [group?, if_neg hc]

theorem startsWithPart_group {inGroup : Bool} (hread : IsRead true t)
    (h : group? ('(' :: t) = some rest) : StartsWithPart inGroup ('(' :: t) rest := by
  obtain ⟨front, hfront, hpass, -⟩ := hread
  rw [group?, if_pos rfl, char?_eq_some_iff] at h
  rw [h] at hfront
  refine ⟨'(' :: (front ++ [')']), ?_, List.cons_ne_nil _ _, hpass.parens.mono (Nat.zero_le _)⟩
  rw [hfront]
  simp

/-- Behind a parenthesis that does not close no list ends. -/
theorem isStuck_of_group?_eq_none (hread : IsRead true t) (h : group? ('(' :: t) = none) :
    IsStuck ('(' :: t) := by
  obtain ⟨front, hfront, hpass, hend⟩ := hread
  rw [group?, if_pos rfl] at h
  have hstuck : IsStuck (content true t) := by
    rcases hend with hclose | ⟨hgroup, -⟩ | hstuck
    · obtain ⟨rest, hrest⟩ := List.head?_eq_some_iff.1 hclose
      rw [char?_eq_some_iff.2 hrest] at h
      cases h
    · cases hgroup
    · exact hstuck
  intro depth
  have hopen : pieces? false depth ('(' :: t) =
      (pieces? false (depth + 1) t).map (prepend ['(']) := by
    simp [pieces?, ArgumentList.extend_eq_prepend]
  rw [hopen, hfront, hpass (depth + 1) _ (Nat.le_add_left 1 depth), hstuck (depth + 1)]
  rfl

end Groups

/-- No part stands at the start of a text if it is at an end. -/
theorem isEnd_of_none {inGroup : Bool} {t : Text} (hread : ∀ c u, t = c :: u → IsRead true u)
    (h : (group? t).or ((literal? t).or (single? inGroup t)) = none) : IsEnd inGroup t := by
  cases t with
  | nil =>
      exact Or.inr (Or.inr fun _ => rfl)
  | cons c t =>
      obtain ⟨hgroup, hliteral, hsingle⟩ : group? (c :: t) = none ∧ literal? (c :: t) = none ∧
          single? inGroup (c :: t) = none := by
        rwa [Option.or_eq_none_iff, Option.or_eq_none_iff] at h
      by_cases hopen : c = '('
      · subst hopen
        exact Or.inr (Or.inr (isStuck_of_group?_eq_none (hread _ t rfl) hgroup))
      by_cases hquote : c = '"'
      · subst hquote
        exact Or.inr (Or.inr (isStuck_of_literal?_eq_none hliteral))
      by_cases hclose : c = ')'
      · subst hclose
        exact Or.inl rfl
      · have hcomma : inGroup = false ∧ c = ',' := by
          simpa [single?, isSingle, hopen, hquote, hclose] using hsingle
        exact Or.inr (Or.inl ⟨hcomma.1, congrArg some hcomma.2⟩)

theorem startsWithPart_of_some {inGroup : Bool} {t rest : Text}
    (hread : ∀ c u, t = c :: u → IsRead true u)
    (h : (group? t).or ((literal? t).or (single? inGroup t)) = some rest) :
    StartsWithPart inGroup t rest := by
  rcases Option.or_eq_some_iff.1 h with hgroup | ⟨-, h⟩
  · cases t with
    | nil =>
        rw [group?] at hgroup
        cases hgroup
    | cons c t =>
        by_cases hopen : c = '('
        · subst hopen
          exact startsWithPart_group (hread _ t rfl) hgroup
        · rw [group?_cons_of_ne hopen] at hgroup
          cases hgroup
  · rcases Option.or_eq_some_iff.1 h with hliteral | ⟨-, hsingle⟩
    · exact startsWithPart_literal hliteral
    · exact startsWithPart_single hsingle

/-- The parts of an argument or of a group are read up to its end.  A group is read if what is in it
is, so the induction is on the length of the text. -/
theorem isRead (inGroup : Bool) (t : Text) : IsRead inGroup t := by
  induction h : t.length using Nat.strong_induction_on generalizing inGroup t with
  | _ n ih =>
      subst h
      have hshorter : ∀ c u, t = c :: u → IsRead true u := by
        rintro c u rfl
        exact ih u.length (Nat.lt_succ_self _) true u rfl
      rw [IsRead, content_eq]
      split
      · next hnone =>
          exact ⟨[], rfl, ArgumentList.passes_nil _, isEnd_of_none hshorter hnone⟩
      · next rest hrest =>
          obtain ⟨part, rfl, hne, hpass⟩ := startsWithPart_of_some hshorter hrest
          have hlt : rest.length < (part ++ rest).length := by
            rw [List.length_append]
            exact Nat.lt_add_of_pos_left (List.length_pos_iff.2 hne)
          obtain ⟨front, hfront, hfrontPass, hend⟩ := ih rest.length hlt inGroup rest rfl
          rw [if_pos hlt]
          exact ⟨part ++ front, by rw [List.append_assoc, ← hfront], hpass.append hfrontPass, hend⟩

/-! ## Lists -/

theorem char?_eq_none_of_head? {d : Char} {t : Text} (h : t.head? ≠ some d) : char? d t = none := by
  cases t with
  | nil =>
      rfl
  | cons c t =>
      exact if_neg fun hc => h (congrArg some hc)

theorem argument_eq {front t : Text} (h : t = front ++ content false t) :
    argument t = Text.trim front := by
  have hlength := congrArg List.length h
  rw [List.length_append] at hlength
  have htake : t.take front.length = front := by
    conv_lhs => rw [h, List.take_left]
  rw [argument, ← htake]
  congr 2
  omega

/-- At an end that is no comma the reader finds the end of the list, or no list ends. -/
theorem pieces?_of_isEnd {t : Text} (hend : IsEnd false t) (hcomma : char? ',' t = none) :
    pieces? false 0 t = (char? ')' t).map fun rest => ([[]], rest) := by
  rcases hend with hclose | ⟨-, hhead⟩ | hstuck
  · obtain ⟨rest, rfl⟩ := List.head?_eq_some_iff.1 hclose
    rfl
  · obtain ⟨rest, hrest⟩ := List.head?_eq_some_iff.1 hhead
    rw [char?_eq_some_iff.2 hrest] at hcomma
    cases hcomma
  · have hopen : char? ')' t = none := by
      refine char?_eq_none_of_head? fun hclose => ?_
      obtain ⟨rest, rfl⟩ := List.head?_eq_some_iff.1 hclose
      cases hstuck 0
    rw [hstuck 0, hopen]
    rfl

/-- The arguments at the start of a text are the pieces that the reader finds, without the blanks
around them. -/
theorem map_pieces?_eq (t : Text) :
    (pieces? false 0 t).map (fun p => (p.1.map Text.trim, p.2)) =
      (char? ')' (arguments t).2).map fun rest => ((arguments t).1, rest) := by
  induction h : t.length using Nat.strong_induction_on generalizing t with
  | _ n ih =>
      subst h
      obtain ⟨front, hfront, hpass, hend⟩ := isRead false t
      have hargument := argument_eq hfront
      have hpieces : pieces? false 0 t =
          (pieces? false 0 (content false t)).map (prepend front) := by
        conv_lhs => rw [hfront]
        exact hpass 0 _ (Nat.le_refl 0)
      rw [arguments, hpieces]
      split
      · next hcomma =>
          rw [pieces?_of_isEnd hend hcomma, Option.map_map, Option.map_map, hargument]
          simp [Function.comp_def, prepend]
      · next later hcomma =>
          rw [char?_eq_some_iff] at hcomma
          have hshorter := length_content_le false t
          rw [hcomma, List.length_cons] at hshorter
          have hseparate : pieces? false 0 (content false t) =
              (pieces? false 0 later).map fun p => ([] :: p.1, p.2) := by
            rw [hcomma]
            rfl
          have hlater := congrArg (Option.map fun q => (Text.trim front :: q.1, q.2))
            (ih later.length hshorter later rfl)
          rw [Option.map_map, Option.map_map] at hlater
          rw [hseparate, Option.map_map, Option.map_map, hargument]
          simpa [Function.comp_def, prepend] using hlater

theorem argsOf_eq (ps : List Text) :
    ArgumentList.argsOf ps = if ps.map Text.trim = [[]] then [] else ps.map Text.trim := by
  split
  · next h =>
      rw [ArgumentList.argsOf, h]
  · next h =>
      exact ArgumentList.argsOf_eq_map h

/-- Reading a list by its grammar gives what the reader of argument lists gives. -/
theorem list?_eq (t : Text) :
    list? t = (ArgumentList.read? t).map fun l => (l.args, l.consumed) := by
  cases t with
  | nil =>
      rfl
  | cons c t =>
      by_cases hc : c = '('
      · subst hc
        have hpieces := map_pieces?_eq t
        rw [list?, char?, if_pos rfl, Option.bind_some, ArgumentList.read?]
        cases hp : pieces? false 0 t with
        | none =>
            rw [hp, Option.map_none, eq_comm, Option.map_eq_none_iff] at hpieces
            rw [hpieces]
            rfl
        | some p =>
            rw [hp, Option.map_some, eq_comm, Option.map_eq_some_iff] at hpieces
            obtain ⟨rest, hrest, heq⟩ := hpieces
            obtain ⟨hargs, rfl⟩ := Prod.mk.inj heq
            have htext := congrArg Text.byteSize (ArgumentList.pieces?_spec hp).2
            rw [hrest, hargs, ← argsOf_eq, Option.map_some, Option.map_some, Option.map_some]
            refine congrArg some (Prod.ext rfl ?_)
            show Text.byteSize ('(' :: t) - Text.byteSize p.2 =
              Text.byteSize ('(' :: Text.join "," p.1 ++ [')'])
            rw [Text.byteSize_cons, ← htext]
            simp only [Text.byteSize_append, Text.byteSize_cons, Text.byteSize_nil]
            omega
      · have hread : ArgumentList.read? (c :: t) = none := by
          simp [ArgumentList.read?, hc]
        rw [hread, list?, char?, if_neg hc]
        rfl

end ArgumentGrammar
end DspCheck
