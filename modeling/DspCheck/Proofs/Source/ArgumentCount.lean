import DspCheck.Proofs.Source.ArgumentGrammar

/-!
# Argument lists by counting

Whether an argument list ends, and where, is a matter of counting: a flag that every quote flips,
and a number of open parentheses that is counted while the flag is off.  The list ends where the
number gets to zero.  Its arguments are between the commas that have the outermost parentheses only
around them.

Main statement: `list?_eq_counted?`.
-/

namespace DspCheck
namespace ArgumentCount

/-- What is counted. -/
structure Count where
  /-- Whether the number of quotes is odd. -/
  quoted : Bool
  /-- The number of open parentheses. -/
  depth : Nat
  deriving DecidableEq, Repr

/-- The count behind the parenthesis that opens a list. -/
def Count.opened : Count :=
  ⟨false, 1⟩

/-- The count behind a character. -/
def Count.after (k : Count) (c : Char) : Count :=
  if c = '"' then { k with quoted := !k.quoted }
  else if k.quoted then k
  else if c = '(' then { k with depth := k.depth + 1 }
  else if c = ')' then { k with depth := k.depth - 1 }
  else k

/-- The characters of a text, each with the count before it. -/
def counts (k : Count) : Text → List (Count × Char)
  | [] => []
  | c :: t => (k, c) :: counts (k.after c) t

/-- Whether a character brings the number of open parentheses to zero. -/
def closes (p : Count × Char) : Bool :=
  (p.1.after p.2).depth = 0

/-- Whether a character is a comma with the outermost parentheses only around it. -/
def separates (p : Count × Char) : Bool :=
  p.1 = .opened && p.2 = ','

/-- The characters before the one that closes the list. -/
def inside (k : Count) (t : Text) : List (Count × Char) :=
  (counts k t).takeWhile (!closes ·)

/-- The pieces between the commas that separate. -/
def piecesOf (ps : List (Count × Char)) : List Text :=
  (ps.splitOnP separates).map (·.map Prod.snd)

/-- The arguments of the list at the start of a text, and the number of its bytes. -/
def counted? : Text → Option (List Text × Nat)
  | [] => none
  | c :: t =>
      let within := inside .opened t
      if c = '(' && within.length < t.length then
        let args := (piecesOf within).map Text.trim
        some (if args = [[]] then [] else args, Text.byteSize (c :: t.take (within.length + 1)))
      else none

/-- The pieces up to the character that closes the list, and what stands behind it. -/
def scan? (k : Count) (t : Text) : Option (List Text × Text) :=
  if (inside k t).length < t.length then
    some (piecesOf (inside k t), t.drop ((inside k t).length + 1))
  else none

section Steps

variable {k : Count} {c : Char}

theorem scan?_cons_of_closes (h : closes (k, c) = true) (t : Text) :
    scan? k (c :: t) = some ([[]], t) := by
  have hinside : inside k (c :: t) = [] := by
    simp [inside, counts, h]
  rw [scan?, hinside]
  rfl

theorem inside_cons (h : closes (k, c) = false) (t : Text) :
    inside k (c :: t) = (k, c) :: inside (k.after c) t := by
  simp [inside, counts, h]

theorem scan?_cons_of_separates (h : separates (k, c) = true) (t : Text) :
    scan? k (c :: t) = (scan? k t).map fun p => ([] :: p.1, p.2) := by
  obtain ⟨rfl, rfl⟩ : k = .opened ∧ c = ',' := by
    simpa [separates] using h
  simp only [scan?, inside_cons, show Count.opened.after ',' = .opened from rfl,
    show closes (.opened, ',') = false from rfl, List.length_cons, Nat.add_lt_add_iff_right,
    List.drop_succ_cons]
  split
  · rw [piecesOf, List.splitOnP_cons_eq_if_modifyHead, if_pos h]
    rfl
  · rfl

/-- A character that neither closes the list nor separates goes into the piece behind it. -/
theorem scan?_cons (hcloses : closes (k, c) = false) (hseparates : separates (k, c) = false)
    (t : Text) : scan? k (c :: t) = (scan? (k.after c) t).map (ArgumentList.extend c) := by
  simp only [scan?, inside_cons hcloses, List.length_cons, Nat.add_lt_add_iff_right,
    List.drop_succ_cons]
  split
  · rw [piecesOf, List.splitOnP_cons_eq_if_modifyHead, hseparates, Option.map_some,
      ArgumentList.extend, piecesOf]
    cases (inside (k.after c) t).splitOnP separates <;> rfl
  · rfl

end Steps

/-- The reader of argument lists counts the parentheses inside the outermost ones. -/
theorem pieces?_eq_scan? (quoted : Bool) (depth : Nat) (t : Text) :
    ArgumentList.pieces? quoted depth t = scan? ⟨quoted, depth + 1⟩ t := by
  induction t generalizing quoted depth with
  | nil =>
      rfl
  | cons c t ih =>
      simp only [ArgumentList.pieces?]
      split
      · next hquote =>
          subst hquote
          rw [ih, scan?_cons (by simp [closes, Count.after]) (by simp [separates])]
          rfl
      split
      · next hquote hquoted =>
          subst hquoted
          rw [ih, scan?_cons (by simp [closes, Count.after, hquote])
            (by simp [separates, Count.opened])]
          simp [Count.after, hquote]
      next hquote hquoted =>
        rw [Bool.not_eq_true] at hquoted
        subst hquoted
        split
        · next hopen =>
            subst hopen
            rw [ih, scan?_cons (by simp [closes, Count.after]) (by simp [separates])]
            rfl
        split
        · next hclose =>
            subst hclose
            cases depth with
            | zero =>
                rw [scan?_cons_of_closes rfl]
            | succ depth =>
                rw [scan?_cons (by simp [closes, Count.after]) (by simp [separates])]
                exact congrArg (Option.map (ArgumentList.extend ')')) (ih false depth)
        next hopen hclose =>
          have hafter : Count.after ⟨false, depth + 1⟩ c = ⟨false, depth + 1⟩ := by
            simp [Count.after, hquote, hopen, hclose]
          split
          · next hcomma =>
              obtain ⟨rfl, rfl⟩ : c = ',' ∧ depth = 0 := by
                simpa using hcomma
              rw [ih, scan?_cons_of_separates rfl]
          · next hcomma =>
              have hseparates : separates (⟨false, depth + 1⟩, c) = false := by
                simpa [separates, Count.opened, imp_not_comm] using hcomma
              rw [ih, scan?_cons (by simp [closes, hafter]) hseparates, hafter]

/-- Counting gives what the reader of argument lists gives. -/
theorem counted?_eq (t : Text) :
    counted? t = (ArgumentList.read? t).map fun l => (l.args, l.consumed) := by
  cases t with
  | nil =>
      rfl
  | cons c t =>
      by_cases hc : c = '('
      · subst hc
        have hscan : ArgumentList.pieces? false 0 t = scan? .opened t := pieces?_eq_scan? false 0 t
        rw [scan?] at hscan
        rw [counted?, ArgumentList.read?]
        split at hscan
        · next hlt =>
            have htake := (ArgumentList.pieces?_spec hscan).2.trans
              (List.take_append_drop ((inside .opened t).length + 1) t).symm
            rw [← List.singleton_append, ← List.append_assoc] at htake
            rw [hscan, if_pos (by simpa using hlt), ← List.append_cancel_right htake]
            simp only [Option.map_some, ArgumentGrammar.argsOf_eq]
            rfl
        · next hlt =>
            rw [hscan, if_neg (by simpa using hlt)]
            rfl
      · simp [counted?, ArgumentList.read?, hc]

/-! ## What stands behind a list -/

/-- A list that has been read is read in the same way before any other text. -/
theorem pieces?_join_append {quoted : Bool} {depth : Nat} {t : Text} {p : List Text × Text}
    (h : ArgumentList.pieces? quoted depth t = some p) (u : Text) :
    ArgumentList.pieces? quoted depth (Text.join "," p.1 ++ ')' :: u) = some (p.1, u) := by
  have htext := (ArgumentList.pieces?_spec h).2
  have hassoc : ∀ v, Text.join "," p.1 ++ ')' :: v = (Text.join "," p.1 ++ [')']) ++ v := by
    simp
  rw [← htext, hassoc] at h
  rw [hassoc]
  rcases ArgumentList.goesOn_pieces? quoted depth (Text.join "," p.1 ++ [')']) with
    ⟨ps, rest, hstop⟩ | ⟨quoted', depth', done, begun, hgo⟩
  · have heq := Option.some_inj.1 ((hstop p.2).symm.trans h)
    have hrest : rest = [] := by
      simpa using congrArg Prod.snd heq
    have hps : ps = p.1 := congrArg Prod.fst heq
    exact (hstop u).trans (by rw [hps, hrest, List.nil_append])
  · -- the reader would find the end of the list behind it
    obtain ⟨q, hq, heq⟩ := Option.map_eq_some_iff.1 ((hgo p.2).symm.trans h)
    have hrest : q.2 = p.2 := by
      rw [← heq]
      rfl
    have hlength := congrArg List.length (ArgumentList.pieces?_spec hq).2
    rw [hrest] at hlength
    simp only [List.length_append, List.length_cons] at hlength
    omega

theorem exists_closed {t : Text} {l : ArgumentList} (h : ArgumentList.read? t = some l) :
    ∃ front rest, t = front ++ ')' :: rest ∧ l.consumed = Text.byteSize (front ++ [')']) ∧
      ∀ u, ArgumentList.read? (front ++ ')' :: u) = some { l with rest := u } := by
  unfold ArgumentList.read? at h
  split at h
  · next v =>
      obtain ⟨p, hp, rfl⟩ := Option.map_eq_some_iff.1 h
      refine ⟨'(' :: Text.join "," p.1, p.2, ?_, rfl, fun u => ?_⟩
      · rw [List.cons_append, (ArgumentList.pieces?_spec hp).2]
      · rw [List.cons_append, ArgumentList.read?, pieces?_join_append hp u]
        rfl
  · cases h

/-- Reading an argument list by its grammar is reading it by counting, for every text, and so is
what the reader of argument lists does.  The text behind the parenthesis that closes the list makes
no difference to the arguments and to the number of bytes. -/
theorem list?_eq_counted? (t : Text) :
    ArgumentGrammar.list? t = counted? t ∧
      ((ArgumentList.read? t).map fun l => (l.args, l.consumed)) = counted? t ∧
      ∀ args consumed, counted? t = some (args, consumed) →
        ∃ front rest, t = front ++ ')' :: rest ∧ consumed = Text.byteSize (front ++ [')']) ∧
          ∀ u, ArgumentGrammar.list? (front ++ ')' :: u) = some (args, consumed) := by
  refine ⟨(ArgumentGrammar.list?_eq t).trans (counted?_eq t).symm, (counted?_eq t).symm, ?_⟩
  intro args consumed h
  rw [counted?_eq] at h
  obtain ⟨l, hl, heq⟩ := Option.map_eq_some_iff.1 h
  obtain ⟨rfl, rfl⟩ := Prod.mk.inj heq
  obtain ⟨front, rest, htext, hconsumed, hread⟩ := exists_closed hl
  refine ⟨front, rest, htext, hconsumed, fun u => ?_⟩
  rw [ArgumentGrammar.list?_eq, hread u]
  rfl

/-- Quotes hide what they enclose, inner parentheses keep their commas, and a parenthesis behind the
list belongs to no list. -/
theorem list?_eq_counted?_nested :
    counted? "(N, max(fc, 20), \"a,)b\") : (_".toList =
        some (["N".toList, "max(fc, 20)".toList, "\"a,)b\"".toList], 24) ∧
      ∃ front rest, "(N, max(fc, 20), \"a,)b\") : (_".toList = front ++ ')' :: rest ∧
        24 = Text.byteSize (front ++ [')']) ∧
        ∀ u, ArgumentGrammar.list? (front ++ ')' :: u) =
          some (["N".toList, "max(fc, 20)".toList, "\"a,)b\"".toList], 24) :=
  have h : counted? "(N, max(fc, 20), \"a,)b\") : (_".toList =
      some (["N".toList, "max(fc, 20)".toList, "\"a,)b\"".toList], 24) := by
    decide
  ⟨h, (list?_eq_counted? _).2.2 _ _ h⟩

end ArgumentCount
end DspCheck
