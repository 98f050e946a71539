import DspCheck.ArgumentList
import DspCheck.Proofs.Text.Lines
import DspCheck.Proofs.Text.Run
import DspCheck.Proofs.Text.Trim

/-!
# Reading a written argument list

The reader of argument lists *passes* a text if the text goes into the piece that is being read and
the reader is behind it where it was before it.  Inside parentheses the reader passes commas, too.

If it passes the arguments, it finds as many arguments as have been written
(`exists_read?_join`).

A piece that has been read closes as many parentheses as it opens (`levels_of_pieces?`), so
arguments that have been read can be written and read again (`exists_read?_args`).

Which word stands in a list makes no difference to the number of its arguments (`read?_cases`).
-/

namespace DspCheck
namespace ArgumentList

/-- A text before the first piece. -/
def prepend (t : Text) (p : List Text × Text) : List Text × Text :=
  (p.1.modifyHead (t ++ ·), p.2)

theorem prepend_nil (p : List Text × Text) : prepend [] p = p := by
  obtain ⟨ps, rest⟩ := p
  cases ps with
  | nil =>
      rfl
  | cons t ts =>
      rfl

theorem prepend_prepend (t u : Text) (p : List Text × Text) :
    prepend t (prepend u p) = prepend (t ++ u) p := by
  obtain ⟨ps, rest⟩ := p
  cases ps with
  | nil =>
      rfl
  | cons v vs =>
      simp [prepend]

theorem extend_eq_prepend (c : Char) : extend c = prepend [c] := rfl

/-- The reader passes a text with at least a given number of parentheses open inside the outermost
ones. -/
def Passes (least : Nat) (t : Text) : Prop :=
  ∀ depth rest, least ≤ depth →
    pieces? false depth (t ++ rest) = (pieces? false depth rest).map (prepend t)

theorem Passes.mono {m n : Nat} {t : Text} (h : Passes m t) (hmn : m ≤ n) : Passes n t :=
  fun depth rest hle => h depth rest (Nat.le_trans hmn hle)

theorem passes_nil (n : Nat) : Passes n [] := by
  intro depth rest _
  rw [List.nil_append, funext prepend_nil, Option.map_id']

theorem Passes.append {n : Nat} {t u : Text} (ht : Passes n t) (hu : Passes n u) :
    Passes n (t ++ u) := by
  intro depth rest hle
  rw [List.append_assoc, ht depth _ hle, hu depth _ hle, Option.map_map]
  congr 1
  exact funext (prepend_prepend t u)

/-- The characters that are neither quotes nor parentheses nor commas. -/
def isPlain (c : Char) : Bool :=
  c ≠ '"' && c ≠ '(' && c ≠ ')' && c ≠ ','

theorem passes_of_plain {t : Text} (h : ∀ c ∈ t, isPlain c = true) : Passes 0 t := by
  induction t with
  | nil =>
      exact passes_nil 0
  | cons c t ih =>
      rw [List.forall_mem_cons] at h
      refine Passes.append (t := [c]) ?_ (ih h.2)
      intro depth rest _
      obtain ⟨⟨⟨hquote, hopen⟩, hclose⟩, hcomma⟩ := by simpa [isPlain] using h.1
      simp [pieces?, hquote, hopen, hclose, hcomma, extend_eq_prepend]

/-- Inside parentheses a comma separates nothing. -/
theorem passes_comma : Passes 1 [','] := by
  intro depth rest hle
  have hdepth : depth ≠ 0 := by omega
  simp [pieces?, hdepth, extend_eq_prepend]

/-- In a string literal nothing separates arguments. -/
theorem passes_literal {content : Text} (h : '"' ∉ content) :
    Passes 0 ('"' :: (content ++ ['"'])) := by
  have hquote : ∀ quoted depth u, pieces? quoted depth ('"' :: u) =
      (pieces? (!quoted) depth u).map (prepend ['"']) := by
    intro quoted depth u
    simp [pieces?, extend_eq_prepend]
  have inside : ∀ depth rest, pieces? true depth (content ++ '"' :: rest) =
      (pieces? false depth rest).map (prepend (content ++ ['"'])) := by
    intro depth rest
    induction content with
    | nil =>
        exact hquote true depth rest
    | cons c content ih =>
        rw [List.mem_cons, not_or] at h
        have hstep : ∀ u, pieces? true depth (c :: u) =
            (pieces? true depth u).map (prepend [c]) := by
          intro u
          simp [pieces?, Ne.symm h.1, extend_eq_prepend]
        rw [List.cons_append, hstep, ih h.2, Option.map_map]
        congr 1
        exact funext (prepend_prepend [c] _)
  intro depth rest _
  rw [List.cons_append, List.append_assoc, List.singleton_append, hquote, Bool.not_false, inside,
    Option.map_map]
  congr 1
  exact funext (prepend_prepend ['"'] _)

/-- The reader passes parentheses if it passes what is in them. -/
theorem Passes.parens {t : Text} (h : Passes 1 t) : Passes 0 ('(' :: (t ++ [')'])) := by
  intro depth rest _
  have hclose : pieces? false (depth + 1) (')' :: rest) =
      (pieces? false depth rest).map (prepend [')']) := by
    simp [pieces?, extend_eq_prepend]
  have hopen : ∀ u, pieces? false depth ('(' :: u) =
      (pieces? false (depth + 1) u).map (prepend ['(']) := by
    intro u
    simp [pieces?, extend_eq_prepend]
  rw [List.cons_append, List.append_assoc, List.singleton_append, hopen,
    h _ _ (Nat.le_add_left 1 depth), hclose, Option.map_map, Option.map_map]
  congr 1
  funext p
  rw [Function.comp_apply, Function.comp_apply, prepend_prepend, prepend_prepend]
  rfl

theorem passes_join {ts : List Text} (h : ∀ t ∈ ts, Passes 0 t) :
    Passes 1 (Text.join ", " ts) := by
  induction ts with
  | nil =>
      exact passes_nil 1
  | cons t ts ih =>
      rw [List.forall_mem_cons] at h
      have hfirst : Passes 1 t := h.1.mono (Nat.le_succ 0)
      cases ts with
      | nil =>
          exact hfirst
      | cons u us =>
          have hblank : Passes 0 [' '] := passes_of_plain (List.all_iff_forall_prop.1 (by decide))
          rw [Text.join_cons_cons]
          exact (hfirst.append (passes_comma.append (hblank.mono (Nat.le_succ 0)))).append (ih h.2)

/-- The pieces of written arguments: the gap behind each comma goes to the piece behind it. -/
theorem pieces?_join {gap t : Text} {ts : List Text} (hgap : Passes 0 gap)
    (h : ∀ u ∈ t :: ts, Passes 0 u) (rest : Text) :
    pieces? false 0 (Text.join (',' :: gap) (t :: ts) ++ ')' :: rest) =
      some (t :: ts.map (gap ++ ·), rest) := by
  induction ts generalizing t with
  | nil =>
      have ht := h t List.mem_cons_self
      rw [show Text.join (',' :: gap) [t] = t from rfl, ht 0 _ (Nat.le_refl 0)]
      simp [pieces?, prepend]
  | cons u us ih =>
      rw [List.forall_mem_cons] at h
      have hcomma : ∀ v, pieces? false 0 (',' :: v) =
          (pieces? false 0 v).map fun p => ([] :: p.1, p.2) := by
        intro v
        simp [pieces?]
      rw [Text.join_cons_cons, List.append_assoc, List.append_assoc, h.1 0 _ (Nat.le_refl 0),
        List.cons_append, hcomma, hgap 0 _ (Nat.le_refl 0), ih h.2]
      simp [prepend]

/-- The arguments are the trimmed pieces, unless there is a single blank one. -/
theorem argsOf_eq_map {ps : List Text} (h : ps.map Text.trim ≠ [[]]) :
    argsOf ps = ps.map Text.trim := by
  unfold argsOf
  split
  · contradiction
  · rfl

/-- The reader finds as many arguments as have been written, and what it reads ends with their
closing parenthesis. -/
theorem exists_read?_join {ts : List Text} (hpass : ∀ t ∈ ts, Passes 0 t)
    (hblank : ts.map Text.trim ≠ [[]]) (rest : Text) :
    ∃ l, read? ('(' :: (Text.join ", " ts ++ [')']) ++ rest) = some l ∧
      l.args.length = ts.length ∧ l.extent = '(' :: (Text.join ", " ts ++ [')']) := by
  have hread : ∃ l, read? ('(' :: (Text.join ", " ts ++ [')']) ++ rest) = some l ∧
      l.args.length = ts.length ∧ l.rest = rest := by
    rw [List.cons_append, List.append_assoc, List.singleton_append, read?]
    cases ts with
    | nil =>
        exact ⟨_, rfl, rfl, rfl⟩
    | cons t ts =>
        have hgap : Passes 0 [' '] := passes_of_plain (List.all_iff_forall_prop.1 (by decide))
        have hpieces : pieces? false 0 (Text.join ", " (t :: ts) ++ ')' :: rest) = _ :=
          pieces?_join hgap hpass rest
        rw [hpieces]
        refine ⟨_, rfl, ?_, rfl⟩
        show (argsOf (t :: ts.map ([' '] ++ ·))).length = ts.length + 1
        rw [argsOf_eq_map]
        · simp
        · intro hnil
          rw [List.map_cons, List.cons.injEq, List.map_eq_nil_iff, List.map_eq_nil_iff] at hnil
          obtain ⟨ht, rfl⟩ := hnil
          exact hblank (congrArg ([·]) ht)
  obtain ⟨l, hl, hcount, hrest⟩ := hread
  refine ⟨l, hl, hcount, ?_⟩
  have htext := extent_append_rest hl
  rw [hrest] at htext
  exact List.append_cancel_right htext

/-- Arguments that are written without gaps are read as they are. -/
theorem exists_read?_tight {ts : List Text} (hpass : ∀ t ∈ ts, Passes 0 t)
    (htrim : ∀ t ∈ ts, Text.trim t = t) (hblank : ts ≠ [[]]) (rest : Text) :
    ∃ l, read? ('(' :: (Text.join "," ts ++ ')' :: rest)) = some l ∧ l.args = ts ∧
      l.rest = rest := by
  cases ts with
  | nil =>
      exact ⟨_, rfl, rfl, rfl⟩
  | cons t ts =>
      have hpieces : pieces? false 0 (Text.join "," (t :: ts) ++ ')' :: rest) = _ :=
        pieces?_join (passes_nil 0) hpass rest
      rw [read?, hpieces]
      refine ⟨_, rfl, ?_, rfl⟩
      show argsOf (t :: ts.map ([] ++ ·)) = t :: ts
      have hmap : (t :: ts.map ([] ++ ·)).map Text.trim = t :: ts := by
        simpa using List.map_congr_left htrim
      rw [argsOf_eq_map (hmap ▸ hblank), hmap]

/-! ## Reading the pieces of a list again -/

/-- The number of open parentheses inside a piece, behind a character.  There is none behind a
character that ends the piece or starts a string literal. -/
def levelAfter? (level : Nat) (c : Char) : Option Nat :=
  if c = '"' then none
  else if c = '(' then some (level + 1)
  else if c = ')' then (if level = 0 then none else some (level - 1))
  else if c = ',' && level = 0 then none
  else some level

/-- The reader passes a piece and is left with as many open parentheses as the piece leaves open. -/
theorem pieces?_of_levels {t : Text} {level level' : Nat}
    (h : t.foldlM levelAfter? level = some level') (depth : Nat) (rest : Text) :
    pieces? false (depth + level) (t ++ rest) =
      (pieces? false (depth + level') rest).map (prepend t) := by
  induction t generalizing level with
  | nil =>
      cases h
      rw [List.nil_append, funext prepend_nil, Option.map_id']
  | cons c t ih =>
      rw [List.foldlM_cons, Option.bind_eq_bind, Option.bind_eq_some_iff] at h
      obtain ⟨next, hnext, h⟩ := h
      have hstep : pieces? false (depth + level) (c :: (t ++ rest)) =
          (pieces? false (depth + next) (t ++ rest)).map (prepend [c]) := by
        rw [← extend_eq_prepend]
        unfold levelAfter? at hnext
        split at hnext
        · cases hnext
        split at hnext
        · cases hnext
          next hopen =>
            simp [pieces?, hopen, Nat.add_assoc]
        split at hnext
        · next hclose =>
            split at hnext
            · cases hnext
            · next hlevel =>
                cases hnext
                obtain ⟨l, rfl⟩ := Nat.exists_eq_succ_of_ne_zero hlevel
                simp [pieces?, hclose]
        split at hnext
        · cases hnext
        · cases hnext
          simp_all [pieces?]
      rw [List.cons_append, hstep, ih h, Option.map_map]
      congr 1
      exact funext (prepend_prepend [c] t)

theorem exists_of_map_extend {r? : Option (List Text × Text)} {c : Char} {q rest : Text}
    {qs : List Text} (h : r?.map (extend c) = some (q :: qs, rest)) :
    ∃ q', q = c :: q' ∧ r? = some (q' :: qs, rest) := by
  obtain ⟨⟨ps, rest'⟩, hr, heq⟩ := Option.map_eq_some_iff.1 h
  cases ps with
  | nil =>
      cases heq
  | cons q' qs =>
      cases heq
      exact ⟨q', rfl, hr⟩

/-- The first one of the pieces that have been read closes the parentheses that were open before it,
and the others close as many as they open, if there are no string literals. -/
theorem levels_of_pieces? {t q rest : Text} {level : Nat} {qs : List Text}
    (h : pieces? false level t = some (q :: qs, rest)) (hquote : ∀ q' ∈ q :: qs, '"' ∉ q') :
    q.foldlM levelAfter? level = some 0 ∧ ∀ q' ∈ qs, q'.foldlM levelAfter? 0 = some 0 := by
  induction t generalizing level q qs with
  | nil =>
      cases h
  | cons c t ih =>
      rw [List.forall_mem_cons] at hquote
      -- a character that stays in the first piece is one step of its level
      have extended : ∀ {next : Nat}, levelAfter? level c = some next →
          (pieces? false next t).map (extend c) = some (q :: qs, rest) →
          q.foldlM levelAfter? level = some 0 ∧ ∀ q' ∈ qs, q'.foldlM levelAfter? 0 = some 0 := by
        intro next hnext h
        obtain ⟨q', rfl, hr⟩ := exists_of_map_extend h
        rw [List.mem_cons, not_or] at hquote
        rw [List.foldlM_cons, hnext]
        exact ih hr (List.forall_mem_cons.2 ⟨hquote.1.2, hquote.2⟩)
      by_cases hq : c = '"'
      · subst hq
        obtain ⟨q', rfl, -⟩ := exists_of_map_extend (show (pieces? true level t).map _ = _ from h)
        exact absurd List.mem_cons_self hquote.1
      by_cases hopen : c = '('
      · subst hopen
        exact extended rfl h
      by_cases hclose : c = ')'
      · subst hclose
        cases level with
        | zero =>
            cases h
            exact ⟨rfl, List.forall_mem_nil _⟩
        | succ level =>
            exact extended rfl h
      by_cases hcomma : c = ',' ∧ level = 0
      · obtain ⟨rfl, rfl⟩ := hcomma
        obtain ⟨⟨ps, rest'⟩, hr, heq⟩ := Option.map_eq_some_iff.1
          (show (pieces? false 0 t).map _ = _ from h)
        cases heq
        refine ⟨rfl, ?_⟩
        cases ps with
        | nil =>
            exact List.forall_mem_nil _
        | cons q' qs =>
            exact List.forall_mem_cons.2 (ih hr hquote.2)
      · have hlevel : levelAfter? level c = some level := by
          simp [levelAfter?, hq, hopen, hclose, hcomma]
        refine extended hlevel ?_
        simpa [pieces?, hq, hopen, hclose, hcomma] using h

theorem foldlM_levelAfter?_blanks {t : Text} (h : ∀ c ∈ t, Text.isBlank c = true) (level : Nat) :
    t.foldlM levelAfter? level = some level := by
  induction t with
  | nil =>
      rfl
  | cons c t ih =>
      rw [List.forall_mem_cons] at h
      have hc : levelAfter? level c = some level := by
        have hne : ∀ d, Text.isBlank d = false → c ≠ d := by
          rintro d hd rfl
          rw [h.1] at hd
          cases hd
        simp [levelAfter?, hne '"' (by decide), hne '(' (by decide), hne ')' (by decide),
          hne ',' (by decide)]
      rw [List.foldlM_cons, hc]
      exact ih h.2

/-- A piece passes again, without the blanks around it, if it closes as many parentheses as it
opens. -/
theorem passes_trim {t : Text} (h : t.foldlM levelAfter? 0 = some 0) : Passes 0 (Text.trim t) := by
  obtain ⟨front, back, ht, hfront, hback⟩ := Text.exists_trim_append t
  have htrim : (Text.trim t).foldlM levelAfter? 0 = some 0 := by
    rw [ht, List.foldlM_append, List.foldlM_append, foldlM_levelAfter?_blanks hfront] at h
    obtain ⟨level, hlevel, h⟩ := Option.bind_eq_some_iff.1 h
    rw [foldlM_levelAfter?_blanks hback] at h
    cases h
    exact hlevel
  exact fun depth rest _ => pieces?_of_levels htrim depth rest

/-- Arguments that have been read are as many arguments when they are written and read again, if
there are no string literals in them. -/
theorem exists_read?_args {t : Text} {l : ArgumentList} (h : read? t = some l)
    (hquote : ∀ a ∈ l.args, '"' ∉ a) (rest : Text) :
    ∃ l', read? ('(' :: (Text.join ", " l.args ++ [')']) ++ rest) = some l' ∧
      l'.args.length = l.args.length := by
  unfold read? at h
  split at h
  · next u =>
      obtain ⟨⟨ps, rest'⟩, hp, rfl⟩ := Option.map_eq_some_iff.1 h
      by_cases hblank : ps.map Text.trim = [[]]
      · have hargs : argsOf ps = [] := by
          rw [argsOf, hblank]
        rw [hargs]
        exact ⟨_, rfl, rfl⟩
      · rw [argsOf_eq_map hblank] at hquote ⊢
        have hpass : ∀ a ∈ ps.map Text.trim, Passes 0 a := by
          rw [List.forall_mem_map] at hquote ⊢
          have hquote' : ∀ q ∈ ps, '"' ∉ q := fun q hq hmem =>
            hquote q hq (Text.mem_trim_of_mem (by decide) hmem)
          cases ps with
          | nil =>
              exact List.forall_mem_nil _
          | cons q qs =>
              obtain ⟨hfirst, hothers⟩ := levels_of_pieces? hp hquote'
              refine List.forall_mem_cons.2 ⟨passes_trim hfirst, fun q' hq' => ?_⟩
              exact passes_trim (hothers q' hq')
        have hblank' : (ps.map Text.trim).map Text.trim ≠ [[]] := by
          rwa [List.map_map, show Text.trim ∘ Text.trim = Text.trim from funext Text.trim_trim]
        obtain ⟨l', hl', hcount, -⟩ := exists_read?_join hpass hblank' rest
        exact ⟨l', hl', hcount⟩
  · cases h

/-- The arguments of a list come from its text. -/
theorem mem_of_mem_args {t : Text} {l : ArgumentList} (h : read? t = some l) {a : Text}
    (ha : a ∈ l.args) {c : Char} (hc : c ∈ a) : c ∈ t := by
  rw [← extent_append_rest h]
  unfold read? at h
  split at h
  · obtain ⟨p, -, rfl⟩ := Option.map_eq_some_iff.1 h
    have hpiece : a ∈ p.1.map Text.trim := by
      change a ∈ argsOf p.1 at ha
      unfold argsOf at ha
      split at ha
      · cases ha
      · exact ha
    obtain ⟨q, hq, rfl⟩ := List.mem_map.1 hpiece
    have hmem : c ∈ Text.join "," p.1 :=
      (Text.isInfix_join_of_mem "," hq).subset ((Text.isInfix_trim q).subset hc)
    exact List.mem_append_left _ (List.mem_cons_of_mem _ (List.mem_append_left _ hmem))
  · cases h

/-! ## Argument lists that go on -/

/-- What is read behind some whole pieces and the beginning of the next one. -/
def behindPieces (done : List Text) (begun : Text) (p : List Text × Text) : List Text × Text :=
  (done ++ p.1.modifyHead (begun ++ ·), p.2)

/-- A reader has read its list before what is added to its text, or it goes on reading there. -/
def GoesOn (reader : Text → Option (List Text × Text)) : Prop :=
  (∃ ps rest, ∀ t, reader t = some (ps, rest ++ t)) ∨
    ∃ quoted depth done begun, ∀ t,
      reader t = (pieces? quoted depth t).map (behindPieces done begun)

theorem GoesOn.extend {reader : Text → Option (List Text × Text)} (h : GoesOn reader) (c : Char) :
    GoesOn fun t => (reader t).map (extend c) := by
  rcases h with ⟨ps, rest, h⟩ | ⟨quoted, depth, done, begun, h⟩
  · refine Or.inl ⟨ps.modifyHead (c :: ·), rest, fun t => ?_⟩
    dsimp only
    rw [h]
    rfl
  · cases done with
    | nil =>
        refine Or.inr ⟨quoted, depth, [], c :: begun, fun t => ?_⟩
        dsimp only
        rw [h, Option.map_map]
        congr 1
        funext p
        obtain ⟨ps, rest⟩ := p
        cases ps <;> rfl
    | cons d done =>
        refine Or.inr ⟨quoted, depth, (c :: d) :: done, begun, fun t => ?_⟩
        dsimp only
        rw [h, Option.map_map]
        rfl

theorem GoesOn.separate {reader : Text → Option (List Text × Text)} (h : GoesOn reader) :
    GoesOn fun t => (reader t).map fun p => ([] :: p.1, p.2) := by
  rcases h with ⟨ps, rest, h⟩ | ⟨quoted, depth, done, begun, h⟩
  · refine Or.inl ⟨[] :: ps, rest, fun t => ?_⟩
    dsimp only
    rw [h]
    rfl
  · refine Or.inr ⟨quoted, depth, [] :: done, begun, fun t => ?_⟩
    dsimp only
    rw [h, Option.map_map]
    rfl

theorem goesOn_pieces? (quoted : Bool) (depth : Nat) (f : Text) :
    GoesOn fun t => pieces? quoted depth (f ++ t) := by
  induction f generalizing quoted depth with
  | nil =>
      refine Or.inr ⟨quoted, depth, [], [], fun t => ?_⟩
      have hid : behindPieces [] [] = id := funext prepend_nil
      rw [hid, Option.map_id]
      rfl
  | cons c f ih =>
      simp only [List.cons_append, pieces?]
      split
      · exact (ih _ _).extend c
      · split
        · exact (ih _ _).extend c
        · split
          · exact (ih _ _).extend c
          · split
            · cases depth with
              | zero =>
                  exact Or.inl ⟨[[]], f, fun t => rfl⟩
              | succ depth =>
                  exact (ih _ _).extend c
            · split
              · exact (ih _ _).separate
              · exact (ih _ _).extend c

/-- Plain characters go into the piece that is being read. -/
theorem pieces?_plain {w : Text} (h : ∀ c ∈ w, isPlain c = true) (quoted : Bool) (depth : Nat)
    (rest : Text) :
    pieces? quoted depth (w ++ rest) = (pieces? quoted depth rest).map (prepend w) := by
  induction w with
  | nil =>
      rw [List.nil_append, funext prepend_nil, Option.map_id']
  | cons c w ih =>
      rw [List.forall_mem_cons] at h
      obtain ⟨⟨⟨hquote, hopen⟩, hclose⟩, hcomma⟩ := by simpa [isPlain] using h.1
      have hstep : pieces? quoted depth (c :: (w ++ rest)) =
          (pieces? quoted depth (w ++ rest)).map (prepend [c]) := by
        cases quoted <;> simp [pieces?, hquote, hopen, hclose, hcomma, extend_eq_prepend]
      rw [List.cons_append, hstep, ih h.2, Option.map_map]
      congr 1
      exact funext (prepend_prepend [c] w)

/-- A word in a list: characters that separate nothing, and not only blanks. -/
structure IsWord (w : Text) : Prop where
  plain : ∀ c ∈ w, isPlain c = true
  visible : ∃ c ∈ w, Text.isBlank c = false

/-- One word in a list is as good as another one: either the list ends before it, or the list has
as many arguments with the one as with the other and ends before the same text. -/
theorem read?_cases (f b : Text) :
    (∃ l : ArgumentList, ∀ t, read? (f ++ t) = some { l with rest := l.rest ++ t }) ∨
    (∀ w, IsWord w → read? (f ++ (w ++ b)) = none) ∨
    ∃ count rest, rest <:+ b ∧ ∀ w, IsWord w →
      ∃ l, read? (f ++ (w ++ b)) = some l ∧ l.args.length = count ∧ l.rest = rest := by
  match f with
  | [] =>
      refine Or.inr (Or.inl fun w hw => ?_)
      obtain ⟨c, hc, -⟩ := hw.visible
      cases w with
      | nil =>
          cases hc
      | cons d w =>
          have hplain := hw.plain d List.mem_cons_self
          have hd : d ≠ '(' := by
            rintro rfl
            cases hplain
          simp [read?, hd]
  | c :: f =>
      by_cases hc : c = '('
      · subst hc
        rcases goesOn_pieces? false 0 f with ⟨ps, rest, h⟩ | ⟨quoted, depth, done, begun, h⟩ <;>
          dsimp only at h
        · refine Or.inl ⟨⟨argsOf ps, '(' :: Text.join "," ps ++ [')'], rest⟩, fun t => ?_⟩
          rw [List.cons_append, read?, h]
          rfl
        · cases hb : pieces? quoted depth b with
          | none =>
              refine Or.inr (Or.inl fun w hw => ?_)
              rw [List.cons_append, read?, h, pieces?_plain hw.plain, hb]
              rfl
          | some p =>
              obtain ⟨hne, hsplit⟩ := pieces?_spec hb
              refine Or.inr (Or.inr ⟨done.length + p.1.length, p.2,
                ⟨Text.join "," p.1 ++ [')'], by simpa using hsplit⟩, fun w hw => ?_⟩)
              rw [List.cons_append, read?, h, pieces?_plain hw.plain, hb]
              refine ⟨_, rfl, ?_, rfl⟩
              obtain ⟨u, us, hu⟩ := List.exists_cons_of_ne_nil hne
              obtain ⟨v, hv, hvisible⟩ := hw.visible
              show (argsOf (done ++ (p.1.modifyHead (w ++ ·)).modifyHead (begun ++ ·))).length = _
              rw [argsOf_eq_map, hu]
              · simp
              · intro hblank
                have hmem : Text.trim (begun ++ (w ++ u)) ∈ ([[]] : List Text) := by
                  rw [← hblank, hu]
                  simp
                have hin : v ∈ Text.trim (begun ++ (w ++ u)) :=
                  Text.mem_trim_of_mem hvisible (by simp [hv])
                rw [List.mem_singleton.1 hmem] at hin
                cases hin
      · refine Or.inr (Or.inl fun w _ => ?_)
        simp [read?, hc]

end ArgumentList
end DspCheck
