import DspCheck.Text.Classes

/-!
# Argument lists

`ArgumentList.read?` reads the argument list in parentheses at the start of a text.  Its arguments
are the pieces between the commas at the outermost level, without the blanks around them: commas in
inner parentheses or in string literals separate nothing.  A text whose parentheses do not close has
no argument list.

The scanner looks at each character once.  It knows whether it is inside a string literal, and how
many parentheses are open inside the outermost ones.
-/

namespace DspCheck

/-- The argument list at the start of a text. -/
structure ArgumentList where
  /-- The arguments, without the blanks around them. -/
  args : List Text
  /-- The text of the list, from its opening to its closing parenthesis. -/
  extent : Text
  /-- The text behind the list. -/
  rest : Text
  deriving DecidableEq, Repr

namespace ArgumentList

/-- A character before the first piece. -/
def extend (c : Char) (p : List Text × Text) : List Text × Text :=
  (p.1.modifyHead (c :: ·), p.2)

/-- The pieces of a list from behind its opening parenthesis, and the text behind its closing
one. -/
def pieces? (quoted : Bool) (depth : Nat) : Text → Option (List Text × Text)
  | [] => none
  | c :: t =>
      if c = '"' then (pieces? (!quoted) depth t).map (extend c)
      else if quoted then (pieces? true depth t).map (extend c)
      else if c = '(' then (pieces? false (depth + 1) t).map (extend c)
      else if c = ')' then
        match depth with
        | 0 => some ([[]], t)
        | depth + 1 => (pieces? false depth t).map (extend c)
      else if c = ',' && depth = 0 then
        (pieces? false depth t).map fun p => ([] :: p.1, p.2)
      else (pieces? false depth t).map (extend c)

/-- The arguments that pieces stand for: a single blank piece stands for none. -/
def argsOf (pieces : List Text) : List Text :=
  match pieces.map Text.trim with
  | [[]] => []
  | args => args

/-- The argument list at the start of a text. -/
def read? : Text → Option ArgumentList
  | '(' :: t =>
      (pieces? false 0 t).map fun p =>
        { args := argsOf p.1
          extent := '(' :: Text.join "," p.1 ++ [')']
          rest := p.2 }
  | _ => none

/-- Number of bytes of the list in the text. -/
def consumed (l : ArgumentList) : Nat :=
  Text.byteSize l.extent

theorem join_modifyHead (c : Char) {ps : List Text} (h : ps ≠ []) :
    Text.join "," (ps.modifyHead (c :: ·)) = c :: Text.join "," ps := by
  match ps with
  | [] => exact absurd rfl h
  | [p] => rfl
  | p :: q :: ps => rfl

/-- A scanner that has found the closing parenthesis has found a piece, and the pieces with what
follows them are the text that it read. -/
theorem pieces?_spec {quoted : Bool} {depth : Nat} {t : Text} {p : List Text × Text}
    (h : pieces? quoted depth t = some p) :
    p.1 ≠ [] ∧ Text.join "," p.1 ++ ')' :: p.2 = t := by
  have extended : ∀ {c : Char} {t : Text} {r? : Option (List Text × Text)} {p : List Text × Text},
      (∀ {q}, r? = some q → q.1 ≠ [] ∧ Text.join "," q.1 ++ ')' :: q.2 = t) →
      r?.map (extend c) = some p → p.1 ≠ [] ∧ Text.join "," p.1 ++ ')' :: p.2 = c :: t := by
    intro c t r? p ih h
    obtain ⟨q, hq, rfl⟩ := Option.map_eq_some_iff.1 h
    obtain ⟨hne, rfl⟩ := ih hq
    exact ⟨by cases hl : q.1 <;> simp_all [extend], by rw [extend, join_modifyHead c hne]; rfl⟩
  fun_induction pieces? quoted depth t generalizing p with
  | case1 => cases h
  | case2 quoted depth t ih => exact extended ih h
  | case3 => rename_i ih; exact extended ih h
  | case4 => rename_i ih; exact extended ih h
  | case5 => cases h; simp_all [Text.join]
  | case6 => rename_i ih; exact extended ih h
  | case7 quoted depth c t hq hn ho hc hs ih =>
      obtain ⟨q, hq, rfl⟩ := Option.map_eq_some_iff.1 h
      obtain ⟨hne, rfl⟩ := ih hq
      have hcomma : c = ',' := by simp_all
      subst hcomma
      refine ⟨by simp, ?_⟩
      match hl : q.1 with
      | [] => exact absurd hl hne
      | a :: as => simp [Text.join]
  | case8 => rename_i ih; exact extended ih h

/-- An argument list and what follows it are the text that was read. -/
theorem extent_append_rest {t : Text} {l : ArgumentList} (h : read? t = some l) :
    l.extent ++ l.rest = t := by
  match t with
  | [] => cases h
  | c :: t =>
      by_cases hc : c = '('
      · subst hc
        obtain ⟨p, hp, rfl⟩ := Option.map_eq_some_iff.1 h
        exact congrArg ('(' :: ·) (by simpa using (pieces?_spec hp).2)
      · simp [read?, hc] at h

end ArgumentList
end DspCheck
