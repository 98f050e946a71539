import DspCheck.Proofs.Source.Statement

/-!
# The pieces of a line

A masked line is cut at the characters that end statements outside parentheses.  `Statement.Cut`
says what the cut is without its scanner: the pieces stand one behind the other with one such
character between neighbours, none stands inside a piece, and the depth goes from a piece to the
next one over the character between them.  The pieces of a line are its cut (`cut_piecesFrom`), and
its statements are those of them that are not blank.

So statements do not overlap and stand in their order (`Cut.pairwise`).  If no brace of the line
stands inside parentheses, the pieces have no braces, and their depths are those of counting all
braces of the line (`Cut.exists_of_mem`).
-/

namespace DspCheck

/-- The number of parentheses that are open behind a text, if it stands at the start of a line. -/
def Text.openParens (before : Text) : Nat :=
  before.foldl parensAfter 0

namespace Text

@[simp] theorem openParens_append_singleton (before : Text) (c : Char) :
    openParens (before ++ [c]) = parensAfter (openParens before) c := by
  rw [openParens, List.foldl_append]
  rfl

end Text

namespace Statement

open Text

/-- What stands before a character on a line lets it end a statement. -/
def Ends (before : Text) (c : Char) : Prop :=
  isEnd c = true ∧ openParens before = 0

theorem Ends.parensAfter {before : Text} {c : Char} (h : Ends before c) :
    openParens (before ++ [c]) = openParens before := by
  rw [openParens_append_singleton]
  rcases cases_of_isEnd h.1 with rfl | rfl | rfl <;> rfl

/-- A piece stands behind a text, at a depth, and nothing ends it before its end. -/
structure IsPiece (s : Statement) (before : Text) (depth : Nat) : Prop where
  start : s.start = byteSize before
  depth : s.depth = depth
  unended : ∀ front c rest, s.text = front ++ c :: rest → ¬ Ends (before ++ front) c

/-- A text that stands behind another one on its line is made of pieces, with the character that
ends a piece behind each of them but the last one. -/
inductive Cut : Text → Nat → List Statement → Text → Prop
  | last {before : Text} {depth : Nat} {s : Statement} (piece : s.IsPiece before depth) :
      Cut before depth [s] s.text
  | next {before : Text} {depth : Nat} {s : Statement} {c : Char} {ss : List Statement} {t : Text}
      (piece : s.IsPiece before depth) (ends : Ends (before ++ s.text) c)
      (rest : Cut (before ++ s.text ++ [c]) (depthAfter depth c) ss t) :
      Cut before depth (s :: ss) (s.text ++ c :: t)

/-! ## The scanner cuts -/

theorem IsPiece.extend {s : Statement} {before : Text} {c : Char} {depth : Nat}
    (h : s.IsPiece (before ++ [c]) depth) (hc : ¬ Ends before c) :
    (s.extend c (byteSize before)).IsPiece before depth := by
  refine ⟨rfl, h.depth, fun front d rest hsplit => ?_⟩
  cases front with
  | nil =>
      obtain ⟨rfl, -⟩ := List.cons.inj hsplit
      rwa [List.append_nil]
  | cons e front =>
      obtain ⟨rfl, htext⟩ := List.cons.inj hsplit
      have hunended := h.unended front d rest htext
      rwa [List.append_assoc] at hunended

/-- A character that ends no statement joins the first piece behind it. -/
theorem Cut.extend {before t : Text} {c : Char} {depth : Nat} {ss : List Statement}
    (h : Cut (before ++ [c]) depth ss t) (hc : ¬ Ends before c) :
    Cut before depth (ss.modifyHead (Statement.extend c (byteSize before))) (c :: t) := by
  cases h with
  | last piece =>
      exact Cut.last (piece.extend hc)
  | @next _ _ s d ss t piece ends rest =>
      have hends : Ends (before ++ (s.extend c (byteSize before)).text) d := by
        simpa [Statement.extend] using ends
      refine Cut.next (piece.extend hc) hends ?_
      simpa [Statement.extend] using rest

/-- The pieces of a text are its cut. -/
theorem cut_piecesFrom (before : Text) (depth : Nat) (t : Text) :
    Cut before depth (piecesFrom (byteSize before) depth (openParens before) t) t := by
  induction t generalizing before depth with
  | nil =>
      exact Cut.last ⟨rfl, rfl, by simp⟩
  | cons c t ih =>
      have hsize : byteSize before + c.utf8Size = byteSize (before ++ [c]) := by simp
      have hends : (isEnd c && decide (openParens before = 0)) = true ↔ Ends before c := by
        rw [Bool.and_eq_true, decide_eq_true_eq, Ends]
      unfold piecesFrom
      rw [hsize]
      split
      · next h =>
          -- an empty piece, and the character behind it
          have hc : Ends before c := hends.1 h
          rw [← hc.parensAfter]
          exact Cut.next (s := ⟨byteSize before, depth, []⟩) ⟨rfl, rfl, by simp⟩ (by simpa using hc)
            (by simpa using ih (before ++ [c]) (depthAfter depth c))
      · next h =>
          rw [← openParens_append_singleton]
          exact (ih (before ++ [c]) depth).extend (mt hends.2 h)

/-! ## What follows for the pieces -/

/-- No piece starts before the text. -/
theorem Cut.le_start {before t : Text} {depth : Nat} {ss : List Statement}
    (h : Cut before depth ss t) {s : Statement} (hs : s ∈ ss) : byteSize before ≤ s.start := by
  induction h with
  | last piece =>
      rw [List.mem_singleton.1 hs, piece.start]
  | next piece ends rest ih =>
      rcases List.mem_cons.1 hs with rfl | hs
      · rw [piece.start]
      · have hle := ih hs
        rw [byteSize_append, byteSize_append] at hle
        omega

theorem Cut.isPiece {before t : Text} {depth : Nat} {s : Statement} {ss : List Statement}
    (h : Cut before depth (s :: ss) t) : s.IsPiece before depth := by
  cases h with
  | last piece =>
      exact piece
  | next piece ends rest =>
      exact piece

theorem Cut.head_eq {t : Text} {depth : Nat} {s : Statement} {ss : List Statement}
    (h : Cut [] depth (s :: ss) t) : s = ⟨0, depth, s.text⟩ := by
  have hpiece := h.isPiece
  obtain ⟨start, depth', text⟩ := s
  obtain rfl : start = 0 := hpiece.start
  obtain rfl : depth' = depth := hpiece.depth
  rfl

/-- The first piece stands at the start of the text. -/
theorem Cut.exists_append {before t : Text} {depth : Nat} {s : Statement} {ss : List Statement}
    (h : Cut before depth (s :: ss) t) : ∃ rest, t = s.text ++ rest := by
  cases h with
  | last piece =>
      exact ⟨[], (List.append_nil _).symm⟩
  | next piece ends rest =>
      exact ⟨_, rfl⟩

/-- What ends no statement at the start of the text belongs to the first piece. -/
theorem Cut.exists_first {before t u r : Text} {depth : Nat} {s : Statement}
    {ss : List Statement} (h : Cut before depth (s :: ss) t) (ht : t = u ++ r)
    (hu : ∀ c ∈ u, isEnd c = false) : ∃ rest, s.text = u ++ rest := by
  cases h with
  | last piece =>
      exact ⟨r, ht⟩
  | next piece ends rest =>
      rcases List.append_eq_append_iff.1 ht with ⟨x, hx, hrest⟩ | ⟨x, hx, -⟩
      · cases x with
        | nil =>
            exact ⟨[], by rw [hx, List.append_nil, List.append_nil]⟩
        | cons d x =>
            obtain ⟨rfl, -⟩ := List.cons.inj hrest
            have hend := hu _ (hx ▸ List.mem_append_right _ List.mem_cons_self)
            rw [ends.1] at hend
            cases hend
      · exact ⟨x, hx⟩

/-- All other pieces stand behind a character that ends statements. -/
theorem Cut.exists_end {before t : Text} {depth : Nat} {s s' : Statement} {ss : List Statement}
    (h : Cut before depth (s :: ss) t) (hs : s' ∈ ss) :
    ∃ front c rest, t = front ++ c :: rest ∧ isEnd c = true ∧
      byteSize (before ++ front ++ [c]) ≤ s'.start := by
  cases h with
  | last piece =>
      cases hs
  | next piece ends rest =>
      exact ⟨_, _, _, rfl, ends.1, rest.le_start hs⟩

/-- Each piece ends before the later ones start. -/
theorem Cut.pairwise {before t : Text} {depth : Nat} {ss : List Statement}
    (h : Cut before depth ss t) : ss.Pairwise fun s s' => s.start + byteSize s.text < s'.start := by
  induction h with
  | last piece =>
      exact List.pairwise_singleton _ _
  | @next before depth s c ss t piece ends rest ih =>
      refine List.pairwise_cons.2 ⟨fun s' hs' => ?_, ih⟩
      have hle := rest.le_start hs'
      have hc := c.utf8Size_pos
      rw [byteSize_append, byteSize_append, byteSize_cons, ← piece.start] at hle
      omega

/-! ## Braces outside parentheses -/

/-- No brace of a text stands inside parentheses, if it stands behind another text on its line. -/
def BracesOutside (before t : Text) : Prop :=
  ∀ front c rest, t = front ++ c :: rest → c = '{' ∨ c = '}' → openParens (before ++ front) = 0

theorem bracesOutside_nil (before : Text) : BracesOutside before [] :=
  fun front c rest hsplit => by simp at hsplit

theorem bracesOutside_cons_iff {before t : Text} {c : Char} :
    BracesOutside before (c :: t) ↔
      (c = '{' ∨ c = '}' → openParens before = 0) ∧ BracesOutside (before ++ [c]) t := by
  constructor
  · refine fun h => ⟨fun hc => ?_, fun front d rest hsplit hd => ?_⟩
    · simpa using h [] c t rfl hc
    · simpa using h (c :: front) d rest (by rw [hsplit, List.cons_append]) hd
  · rintro ⟨hfirst, hrest⟩ (_ | ⟨e, front⟩) d rest hsplit hd
    · obtain ⟨rfl, -⟩ := List.cons.inj hsplit
      rw [List.append_nil]
      exact hfirst hd
    · obtain ⟨rfl, ht⟩ := List.cons.inj hsplit
      simpa using hrest front d rest ht hd

/-- The condition can be tested character by character. -/
instance decidableBracesOutside : (before t : Text) → Decidable (BracesOutside before t)
  | before, [] => isTrue (bracesOutside_nil before)
  | before, c :: t =>
      have := decidableBracesOutside (before ++ [c]) t
      decidable_of_iff _ bracesOutside_cons_iff.symm

theorem BracesOutside.of_append {before s t : Text} (h : BracesOutside before (s ++ t)) :
    BracesOutside before s ∧ BracesOutside (before ++ s) t := by
  constructor
  · intro front c rest hsplit
    exact h front c (rest ++ t) (by simp [hsplit])
  · intro front c rest hsplit hc
    simpa using h (s ++ front) c rest (by simp [hsplit]) hc

/-- A piece of which no brace stands inside parentheses has no braces. -/
theorem IsPiece.forall_ne {s : Statement} {before : Text} {depth : Nat}
    (h : s.IsPiece before depth) (hbraces : BracesOutside before s.text) :
    ∀ c ∈ s.text, c ≠ '{' ∧ c ≠ '}' := by
  intro c hc
  obtain ⟨front, rest, hsplit⟩ := List.append_of_mem hc
  have hunended := h.unended front c rest hsplit
  rw [← not_or]
  intro hbrace
  have hend : isEnd c = true := by
    rcases hbrace with rfl | rfl <;> rfl
  exact hunended ⟨hend, hbraces front c rest hsplit hbrace⟩

/-- Where no brace stands inside parentheses, a piece has no braces and stands at the depth of
counting all braces before it. -/
theorem Cut.exists_of_mem {before t : Text} {depth : Nat} {ss : List Statement}
    (h : Cut before depth ss t) (hbraces : BracesOutside before t) {s : Statement} (hs : s ∈ ss) :
    ∃ front rest, t = front ++ s.text ++ rest ∧ s.start = byteSize (before ++ front) ∧
      s.depth = front.foldl depthAfter depth ∧ ∀ c ∈ s.text, c ≠ '{' ∧ c ≠ '}' := by
  induction h with
  | @last before depth s' piece =>
      obtain rfl := List.mem_singleton.1 hs
      refine ⟨[], [], by simp, by rw [List.append_nil, piece.start], piece.depth,
        piece.forall_ne hbraces⟩
  | @next before depth s' c ss t piece ends rest ih =>
      obtain ⟨hfirst, hbehind⟩ := hbraces.of_append
      have hne := piece.forall_ne hfirst
      rcases List.mem_cons.1 hs with rfl | hs
      · exact ⟨[], c :: t, rfl, by rw [List.append_nil, piece.start], piece.depth, hne⟩
      · obtain ⟨front, after, hsplit, hstart, hdepth, hs⟩ :=
          ih (bracesOutside_cons_iff.1 hbehind).2 hs
        refine ⟨s'.text ++ c :: front, after, by simp [hsplit], by simpa using hstart, ?_, hs⟩
        rw [hdepth, List.foldl_append, List.foldl_cons, foldl_depthAfter_of_forall hne]

end Statement
end DspCheck
