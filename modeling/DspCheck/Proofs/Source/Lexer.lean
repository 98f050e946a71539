import DspCheck.Proofs.Source.Blanking
import DspCheck.Proofs.Source.Statement
import Mathlib.Data.List.Induction

/-!
# Lines by their lexemes

Lines are masked one after the other, and a mode and a depth go from each to the next.  A lexer of
the whole text needs no lines: it gives each character its role, and takes the marks of comments and
what is escaped in strings in one step.  Cut at the line feeds, what it gives is the lines of the
program, each of them with the place where it stands in the whole text.

The lexer and the scanner of lines agree line by line (`exists_lex_line`), with what follows the
line in sight of the lexer.

Main statement: `ofSource_eq_lines`.
-/

namespace DspCheck
namespace Lexer

/-- What a character of a program is inside of. -/
inductive Context
  | code
  | string
  | lineComment
  | block
  deriving DecidableEq, Repr

/-- What a character of a program is. -/
inductive Role
  | code
  /-- A quote that opens or closes a string. -/
  | quote
  /-- A part of the contents of a string. -/
  | content
  /-- A part of a comment or of its marks. -/
  | comment
  /-- A line feed, or the carriage return that belongs to the end of a line. -/
  | ending
  deriving DecidableEq, Repr

/-- A character with its role. -/
structure Lexeme where
  char : Char
  role : Role
  deriving DecidableEq, Repr

/-- Whether a character belongs to the end of a line.  The character after it is `ahead?`. -/
def endsLine (c : Char) (ahead? : Option Char) : Bool :=
  c = '\n' || c = '\r' && (ahead? = none || ahead? = some '\n')

/-- The context behind a line feed. -/
def Context.nextLine : Context → Context
  | block => block
  | _ => code

/-- One or two characters that are taken in one step. -/
structure Token where
  role : Role
  /-- The context behind them. -/
  next : Context
  /-- Whether there are two of them. -/
  isPair : Bool

/-- The token of a character inside of a line.  The text after it is looked at. -/
def token : Context → Char → Text → Token
  | .code, '/', '/' :: _ => ⟨.comment, .lineComment, true⟩
  | .code, '/', '*' :: _ => ⟨.comment, .block, true⟩
  | .code, '"', _ => ⟨.quote, .string, false⟩
  | .code, _, _ => ⟨.code, .code, false⟩
  | .string, '"', _ => ⟨.quote, .code, false⟩
  | .string, '\\', d :: t => ⟨.content, .string, !endsLine d t.head?⟩
  | .string, _, _ => ⟨.content, .string, false⟩
  | .lineComment, _, _ => ⟨.comment, .lineComment, false⟩
  | .block, '*', '/' :: _ => ⟨.comment, .code, true⟩
  | .block, _, _ => ⟨.comment, .block, false⟩

/-- The characters of a text with their roles. -/
def lex (m : Context) : Text → List Lexeme
  | [] => []
  | c :: t =>
      if endsLine c t.head? then ⟨c, .ending⟩ :: lex (if c = '\n' then m.nextLine else m) t
      else
        let k := token m c t
        match k.isPair, t with
        | true, d :: t => ⟨c, k.role⟩ :: ⟨d, k.role⟩ :: lex k.next t
        | _, t => ⟨c, k.role⟩ :: lex k.next t

/-! ## One line -/

/-- The mode of the scanner in a context. -/
def Context.mode : Context → Mode
  | code => .code
  | string => .string
  | lineComment => .lineComment
  | block => .block

/-- Whether the masked form of a line has a character of that role. -/
def Role.isKept : Role → Bool
  | code => true
  | quote => true
  | _ => false

/-- What the masked form of a line has in place of a character. -/
def shown (i : Lexeme) : Text :=
  if i.role = .ending then [] else Text.veil i.role.isKept i.char

theorem mode_nextLine (m : Context) : m.nextLine.mode = m.mode.nextLine := by
  cases m <;> rfl

/-- Before the end of a line stands a token of one character.  If it is a backslash in a string, the
modes differ, but not what goes to the next line. -/
theorem token_last {m : Context} {c : Char} {s : Text}
    (hs : ∀ d u, s = d :: u → endsLine d u.head? = true) :
    (token m c s).isPair = false ∧ (m.mode.step c none).2 = (token m c s).role.isKept ∧
      (m.mode.step c none).1.nextLine = (token m c s).next.mode.nextLine := by
  -- the cases are the rows of `token`: marks of comments and what is escaped need a character more
  fun_cases token m c s with
  | case1 | case2 | case9 =>
      exact absurd (hs _ _ rfl) (by simp [endsLine])
  | case6 d t =>
      exact ⟨by simp [hs d t rfl], rfl, rfl⟩
  | case7 _ _ hquote _ =>
      have hne : c ≠ '"' := hquote
      by_cases hc : c = '\\' <;>
        simp [Mode.step, Context.mode, hne, hc, Role.isKept, Mode.nextLine]
  | case3 | case4 | case5 | case8 | case10 =>
      simp_all [Mode.step, Context.mode, Role.isKept, Mode.nextLine]

section Inside

variable {m : Context} {c d : Char} {s u : Text}

/-- Inside of a line a token of one character is what the scanner makes of it. -/
theorem step_of_single (hs : s = d :: u) (hd : endsLine d u.head? = false)
    (hsingle : (token m c s).isPair = false) :
    m.mode.step c (some d) = ((token m c s).next.mode, (token m c s).role.isKept) := by
  fun_cases token m c s with
  | case1 | case2 | case9 =>
      simp [token] at hsingle
  | case3 | case5 | case8 =>
      simp [Mode.step, Context.mode, Role.isKept]
  | case4 c s hline hblock hquote =>
      subst hs
      exact Mode.step_code hquote (by rintro ⟨hc, hhead | hhead⟩ <;> simp_all)
  | case6 e t =>
      cases hs
      simp [token, hd] at hsingle
  | case7 c s hquote hescape =>
      exact Mode.step_string hquote fun hc => hescape d u hc hs
  | case10 c s hclose =>
      simp_all [Mode.step, Context.mode, Role.isKept]

/-- A token of two characters is what the scanner makes of the one and of the other. -/
theorem step_of_pair (hs : s = d :: u) (hpair : (token m c s).isPair = true) :
    (token m c s).role.isKept = false ∧ (m.mode.step c (some d)).2 = false ∧
      ∀ ahead?, (m.mode.step c (some d)).1.step d ahead? = ((token m c s).next.mode, false) := by
  fun_cases token m c s with
  | case1 | case2 | case6 | case9 =>
      cases hs
      exact ⟨rfl, rfl, fun _ => rfl⟩
  | case3 | case4 | case5 | case7 | case8 | case10 =>
      simp_all [token]

end Inside

/-- What the lexer gives of one line, and the context behind it. -/
structure IsLine (m : Context) (line : Text) (items : List Lexeme) (m' : Context) : Prop where
  chars : items.map Lexeme.char = line
  inside : ∀ i ∈ items, i.role ≠ .ending
  masked : items.flatMap shown = Text.mask m.mode line
  next : m'.mode.nextLine = (m.mode.after line).nextLine

section Line

variable {m k m' : Context} {c d : Char} {t : Text} {r : Role} {items : List Lexeme}

theorem shown_of_ne_ending (h : r ≠ .ending) : shown ⟨c, r⟩ = Text.veil r.isKept c :=
  if_neg h

theorem isLine_nil (m : Context) : IsLine m [] [] m :=
  ⟨rfl, List.forall_mem_nil _, rfl, rfl⟩

theorem IsLine.cons (h : IsLine k t items m') (hr : r ≠ .ending)
    (hstep : m.mode.step c t.head? = (k.mode, r.isKept)) :
    IsLine m (c :: t) (⟨c, r⟩ :: items) m' where
  chars := by
    rw [List.map_cons, h.chars]
  inside := List.forall_mem_cons.2 ⟨hr, h.inside⟩
  masked := by
    rw [List.flatMap_cons, shown_of_ne_ending hr, h.masked, Text.mask_cons, hstep]
  next := by
    rw [h.next, Mode.after, hstep]

theorem IsLine.cons_cons (h : IsLine k t items m') (hr : r ≠ .ending) (hkept : r.isKept = false)
    (hfirst : (m.mode.step c (some d)).2 = false)
    (hsecond : ∀ ahead?, (m.mode.step c (some d)).1.step d ahead? = (k.mode, false)) :
    IsLine m (c :: d :: t) (⟨c, r⟩ :: ⟨d, r⟩ :: items) m' where
  chars := by
    rw [List.map_cons, List.map_cons, h.chars]
  inside := List.forall_mem_cons.2 ⟨hr, List.forall_mem_cons.2 ⟨hr, h.inside⟩⟩
  masked := by
    rw [List.flatMap_cons, List.flatMap_cons, shown_of_ne_ending hr, shown_of_ne_ending hr,
      h.masked, Text.mask_cons, Text.mask_cons, List.head?_cons, hfirst, hsecond, hkept]
  next := by
    rw [h.next, Mode.after, Mode.after, List.head?_cons, hsecond]

theorem lex_newline (m : Context) (t : Text) :
    lex m ('\n' :: t) = ⟨'\n', .ending⟩ :: lex m.nextLine t := by
  simp [lex, endsLine]

theorem lex_cons_single (hc : endsLine c t.head? = false) (hsingle : (token m c t).isPair = false) :
    lex m (c :: t) = ⟨c, (token m c t).role⟩ :: lex (token m c t).next t := by
  rw [lex, hc, if_neg Bool.false_ne_true]
  simp only [hsingle]

theorem lex_cons_pair (hc : endsLine c (some d) = false)
    (hpair : (token m c (d :: t)).isPair = true) :
    lex m (c :: d :: t) = ⟨c, (token m c (d :: t)).role⟩ :: ⟨d, (token m c (d :: t)).role⟩ ::
      lex (token m c (d :: t)).next t := by
  rw [lex, List.head?_cons, hc, if_neg Bool.false_ne_true]
  simp only [hpair]

theorem role_token_ne_ending (m : Context) (c : Char) (s : Text) :
    (token m c s).role ≠ .ending := by
  fun_cases token m c s <;> exact Role.noConfusion

end Line

/-- What stands in a line is lexed as the scanner masks it, whatever ends the line. -/
theorem exists_lex_line {line s : Text} (m : Context)
    (hline : ∀ c t, c :: t <:+ line → endsLine c (t ++ s).head? = false)
    (hs : ∀ d u, s = d :: u → endsLine d u.head? = true) :
    ∃ items m', lex m (line ++ s) = items ++ lex m' s ∧ IsLine m line items m' := by
  induction line using List.twoStepInduction generalizing m with
  | nil =>
      exact ⟨[], m, rfl, isLine_nil m⟩
  | singleton c =>
      obtain ⟨hsingle, hkept, hnext⟩ := token_last (m := m) (c := c) hs
      refine ⟨[⟨c, (token m c s).role⟩], (token m c s).next,
        lex_cons_single (hline c [] List.suffix_rfl) hsingle, rfl, ?_, ?_, hnext.symm⟩
      · rw [List.forall_mem_singleton]
        exact role_token_ne_ending m c s
      · rw [List.flatMap_singleton, shown_of_ne_ending (role_token_ne_ending m c s), ← hkept,
          Text.mask, Text.mask, List.append_nil]
        rfl
  | cons_cons c d t ih ih' =>
      have hc : endsLine c (some d) = false := hline c (d :: t) List.suffix_rfl
      have hrest : ∀ e u, e :: u <:+ d :: t → endsLine e (u ++ s).head? = false := fun e u h =>
        hline e u (h.trans (List.suffix_cons c _))
      have hd : endsLine d (t ++ s).head? = false := hrest d t List.suffix_rfl
      have hrole := role_token_ne_ending m c (d :: (t ++ s))
      rw [List.cons_append, List.cons_append]
      cases hpair : (token m c (d :: (t ++ s))).isPair with
      | false =>
          obtain ⟨items, m', hlex, hitems⟩ := ih' d (token m c (d :: (t ++ s))).next hrest
          exact ⟨_ :: items, m', (lex_cons_single hc hpair).trans (congrArg (_ :: ·) hlex),
            hitems.cons hrole (step_of_single rfl hd hpair)⟩
      | true =>
          obtain ⟨items, m', hlex, hitems⟩ := ih (token m c (d :: (t ++ s))).next fun e u h =>
            hrest e u (h.trans (List.suffix_cons d t))
          obtain ⟨hkept, hfirst, hsecond⟩ := step_of_pair (m := m) (c := c) (u := t ++ s) rfl hpair
          exact ⟨_ :: _ :: items, m',
            (lex_cons_pair hc hpair).trans (congrArg (fun l => _ :: _ :: l) hlex),
            hitems.cons_cons hrole hkept hfirst hsecond⟩

/-! ## Lines with their ends -/

/-- The characters of a line as they are written. -/
def written (items : List Lexeme) : Text :=
  (items.filter fun i => i.role ≠ .ending).map Lexeme.char

/-- The masked form of a line. -/
def masked (items : List Lexeme) : Text :=
  items.flatMap shown

/-- What the lexer gives of a part between line feeds, and the context behind it. -/
structure IsPart (m : Context) (raw : Text) (part : List Lexeme) (m' : Context) : Prop where
  chars : part.map Lexeme.char = raw
  written : written part = Text.dropReturn raw
  masked : masked part = Text.mask m.mode (Text.dropReturn raw)
  next : m'.mode.nextLine = (m.mode.after (Text.dropReturn raw)).nextLine

section Ends

variable {raw s : Text}

theorem endsLine_of_suffix (hraw : '\n' ∉ raw) {c : Char} {t : Text}
    (h : c :: t <:+ Text.dropReturn raw) (s : Text) :
    endsLine c (t ++ (Text.lineEnd raw ++ s)).head? = false := by
  have hmem : ∀ d ∈ c :: t, d ≠ '\n' := by
    rintro d hd rfl
    exact Text.notMem_dropReturn hraw (h.subset hd)
  have hc : c ≠ '\n' := hmem c List.mem_cons_self
  cases t with
  | cons d t =>
      have hd : d ≠ '\n' := hmem d (List.mem_cons_of_mem c List.mem_cons_self)
      simp [endsLine, hc, hd]
  | nil =>
      -- a carriage return at the end is no part of the line
      rcases Text.lineEnd_cases raw with hend | hend
      · have hlast := Line.getLast?_dropReturn_of_lineEnd_nil hend
        obtain ⟨front, hfront⟩ := h
        rw [← hfront, List.getLast?_concat] at hlast
        have hreturn : c ≠ '\r' := fun hc => hlast (congrArg some hc)
        simp [endsLine, hc, hreturn]
      · simp [endsLine, hc, hend]

theorem endsLine_return (hs : ∀ d u, s = d :: u → d = '\n') : endsLine '\r' s.head? = true := by
  cases s with
  | nil =>
      rfl
  | cons d u =>
      rw [hs d u rfl]
      rfl

theorem endsLine_of_lineEnd_append (hs : ∀ d u, s = d :: u → d = '\n') {c : Char} {t : Text}
    (h : Text.lineEnd raw ++ s = c :: t) : endsLine c t.head? = true := by
  rcases Text.lineEnd_cases raw with hend | hend <;> rw [hend] at h
  · rw [hs c t h]
    rfl
  · obtain ⟨rfl, rfl⟩ := List.cons.inj h
    exact endsLine_return hs

theorem lex_lineEnd (raw : Text) (m : Context) (hs : ∀ d u, s = d :: u → d = '\n') :
    lex m (Text.lineEnd raw ++ s) = (Text.lineEnd raw).map (⟨·, .ending⟩) ++ lex m s := by
  rcases Text.lineEnd_cases raw with hend | hend <;> rw [hend]
  · rfl
  · rw [List.singleton_append, lex, endsLine_return hs]
    rfl

/-- A part between line feeds is lexed as a line and its end. -/
theorem exists_lex_raw (m : Context) (hraw : '\n' ∉ raw) (hs : ∀ d u, s = d :: u → d = '\n') :
    ∃ part m', lex m (raw ++ s) = part ++ lex m' s ∧ IsPart m raw part m' := by
  obtain ⟨items, m', hlex, hline⟩ := exists_lex_line m
    (fun c t h => endsLine_of_suffix hraw h s) fun c t h => endsLine_of_lineEnd_append hs h
  refine ⟨items ++ (Text.lineEnd raw).map (⟨·, .ending⟩), m', ?_, ?_, ?_, ?_, hline.next⟩
  · conv_lhs => rw [← Text.dropReturn_append_lineEnd raw, List.append_assoc, hlex]
    rw [lex_lineEnd raw m' hs, List.append_assoc]
  · have hends : ∀ u : Text, (u.map fun c => (⟨c, .ending⟩ : Lexeme)).map Lexeme.char = u := by
      simp [Function.comp_def]
    rw [List.map_append, hline.chars, hends, Text.dropReturn_append_lineEnd]
  · rw [written, List.filter_append, List.filter_eq_self.2 (by simpa using hline.inside),
      List.map_append, hline.chars]
    simp
  · rw [masked, List.flatMap_append, hline.masked]
    simp [shown]

end Ends

/-! ## All lines -/

/-- The parts of a lexed text between its line feeds. -/
def cut (items : List Lexeme) : List (List Lexeme) :=
  items.splitOnP (·.char = '\n')

/-- The characters of some parts, each with its line feed behind it. -/
def ended (parts : List (List Lexeme)) : List Lexeme :=
  parts.flatMap (· ++ [⟨'\n', .ending⟩])

/-- The characters of the code. -/
def codeOf (items : List Lexeme) : Text :=
  (items.filter fun i => i.role = .code).map Lexeme.char

/-- The position behind some parts. -/
def offsetBehind (earlier : List (List Lexeme)) : Nat :=
  Text.byteSize ((ended earlier).map Lexeme.char)

/-- The depth behind some parts. -/
def depthBehind (earlier : List (List Lexeme)) : Nat :=
  (codeOf (ended earlier)).foldl depthAfter 0

/-- The line that a part is behind other parts. -/
def lineOf (earlier : List (List Lexeme)) (part : List Lexeme) : Line where
  number := earlier.length + 1
  offset := offsetBehind earlier
  depth := depthBehind earlier
  text := written part
  code := masked part

/-- The lines that parts are behind other parts. -/
def linesBehind (earlier parts : List (List Lexeme)) : List Line :=
  parts.mapIdx fun k part => lineOf (earlier ++ parts.take k) part

/-- The lines of a text, by its lexemes. -/
def lines (source : Text) : List Line :=
  linesBehind [] (cut (lex .code source))

theorem linesBehind_cons (earlier parts : List (List Lexeme)) (part : List Lexeme) :
    linesBehind earlier (part :: parts) =
      lineOf earlier part :: linesBehind (earlier ++ [part]) parts := by
  simp [linesBehind, List.mapIdx_cons]

theorem ended_concat (earlier : List (List Lexeme)) (part : List Lexeme) :
    ended (earlier ++ [part]) = ended earlier ++ (part ++ [⟨'\n', .ending⟩]) := by
  simp [ended]

theorem token_quote {m : Context} {c : Char} {t : Text} (h : (token m c t).role = .quote) :
    c = '"' ∧ (token m c t).isPair = false := by
  fun_cases token m c t <;> simp_all [token]

/-- A character with the role of a quote is one. -/
theorem eq_quote_of_mem_lex {m : Context} {t : Text} {c : Char} (h : ⟨c, .quote⟩ ∈ lex m t) :
    c = '"' := by
  fun_induction lex m t with
  | case1 =>
      cases h
  | case2 _ _ _ _ ih =>
      rcases List.mem_cons.1 h with heq | h
      · cases heq
      · exact ih h
  | case3 _ d d' t _ k hpair ih =>
      have hrole : .quote ≠ k.role := fun hquote =>
        Bool.false_ne_true ((token_quote hquote.symm).2.symm.trans hpair)
      rcases List.mem_cons.1 h with heq | h
      · exact absurd (Lexeme.mk.inj heq).2 hrole
      rcases List.mem_cons.1 h with heq | h
      · exact absurd (Lexeme.mk.inj heq).2 hrole
      · exact ih h
  | case4 _ d t _ k _ ih =>
      rcases List.mem_cons.1 h with heq | h
      · obtain ⟨rfl, hquote⟩ := Lexeme.mk.inj heq
        exact (token_quote hquote.symm).1
      · exact ih h

/-- Each character has one role. -/
theorem map_fst_lex (m : Context) (t : Text) : (lex m t).map Lexeme.char = t := by
  fun_induction lex m t with
  | case1 =>
      rfl
  | case2 _ c t _ ih | case4 _ c t _ _ _ ih =>
      exact congrArg (c :: ·) ih
  | case3 _ c d t _ _ _ ih =>
      exact congrArg (c :: d :: ·) ih

/-- Braces count where they are code. -/
theorem foldl_depthAfter_masked {items : List Lexeme}
    (hquote : ∀ c, ⟨c, .quote⟩ ∈ items → c = '"') (depth : Nat) :
    (masked items).foldl depthAfter depth = (codeOf items).foldl depthAfter depth := by
  induction items generalizing depth with
  | nil =>
      rfl
  | cons i items ih =>
      obtain ⟨c, r⟩ := i
      have hrest := ih fun d hd => hquote d (List.mem_cons_of_mem _ hd)
      rw [masked, List.flatMap_cons, List.foldl_append, ← masked]
      by_cases hr : r = .code
      · subst hr
        exact hrest _
      · have hplain : ∀ d ∈ shown ⟨c, r⟩, d ≠ '{' ∧ d ≠ '}' := by
          cases r with
          | code =>
              exact absurd rfl hr
          | quote =>
              intro d hd
              rw [List.mem_singleton.1 hd, hquote c List.mem_cons_self]
              decide
          | content | comment =>
              intro d hd
              rw [List.eq_of_mem_replicate hd]
              decide
          | ending =>
              exact List.forall_mem_nil _
        have hcode : codeOf (⟨c, r⟩ :: items) = codeOf items := by
          simp [codeOf, hr]
        rw [foldl_depthAfter_of_forall hplain, hrest, hcode]

section Parts

variable {raw : Text} {part rest : List Lexeme}

theorem cut_part (hchars : part.map Lexeme.char = raw) (hraw : '\n' ∉ raw) : cut part = [part] := by
  refine List.splitOnP_eq_singleton fun i hi => decide_eq_false fun hbreak => hraw ?_
  rw [← hchars, ← hbreak]
  exact List.mem_map_of_mem hi

theorem cut_append (hchars : part.map Lexeme.char = raw) (hraw : '\n' ∉ raw) (r : Role) :
    cut (part ++ ⟨'\n', r⟩ :: rest) = part :: cut rest := by
  rw [cut, List.splitOnP_append_cons part rest rfl, ← cut, ← cut, cut_part hchars hraw]
  rfl

theorem offsetBehind_concat (earlier : List (List Lexeme))
    (hchars : part.map Lexeme.char = raw) :
    offsetBehind (earlier ++ [part]) = offsetBehind earlier + Text.byteSize raw + 1 := by
  rw [offsetBehind, ended_concat, List.map_append, List.map_append, hchars, Text.byteSize_append,
    Text.byteSize_append, Nat.add_assoc]
  rfl

theorem depthBehind_concat (earlier : List (List Lexeme))
    (hquote : ∀ c, ⟨c, .quote⟩ ∈ part → c = '"') :
    depthBehind (earlier ++ [part]) = (masked part).foldl depthAfter (depthBehind earlier) := by
  rw [foldl_depthAfter_masked hquote, depthBehind, depthBehind, ← List.foldl_append, ended_concat]
  simp [codeOf]

end Parts

/-- The lines from a given place on are those that the parts behind it are. -/
theorem linesFrom_eq_linesBehind (m : Context) (earlier : List (List Lexeme))
    {raws : List Text} (hne : raws ≠ []) (hraws : ∀ raw ∈ raws, '\n' ∉ raw) :
    Line.linesFrom (earlier.length + 1) (offsetBehind earlier) (depthBehind earlier) m.mode raws =
      linesBehind earlier (cut (lex m (Text.join "\n" raws))) := by
  induction raws generalizing m earlier with
  | nil =>
      exact absurd rfl hne
  | cons raw raws ih =>
      rw [List.forall_mem_cons] at hraws
      cases raws with
      | nil =>
          obtain ⟨part, m', hlex, hpart⟩ :=
            exists_lex_raw (s := []) m hraws.1 (fun d u h => by cases h)
          rw [List.append_nil, lex, List.append_nil] at hlex
          rw [show Text.join "\n" [raw] = raw from rfl, hlex, cut_part hpart.chars hraws.1,
            linesBehind_cons, lineOf, hpart.written, hpart.masked]
          rfl
      | cons next raws =>
          obtain ⟨part, m', hlex, hpart⟩ :=
            exists_lex_raw (s := '\n' :: Text.join "\n" (next :: raws)) m hraws.1
              (fun d u h => (List.cons.inj h).1.symm)
          have hquote : ∀ c, ⟨c, .quote⟩ ∈ part → c = '"' := fun c hc =>
            eq_quote_of_mem_lex (hlex ▸ List.mem_append_left _ hc)
          have hlater := ih m'.nextLine (earlier ++ [part]) (List.cons_ne_nil _ _) hraws.2
          rw [mode_nextLine, hpart.next, offsetBehind_concat earlier hpart.chars,
            depthBehind_concat earlier hquote, hpart.masked, List.length_append] at hlater
          have hjoin : Text.join "\n" (raw :: next :: raws) =
              raw ++ '\n' :: Text.join "\n" (next :: raws) := by
            rw [Text.join_cons_cons, List.append_assoc]
            rfl
          rw [hjoin, hlex, lex_newline, cut_append hpart.chars hraws.1, linesBehind_cons, lineOf,
            hpart.written, hpart.masked, ← hlater]
          rfl

/-- The lines of a program are those of its lexemes.  Each character has one role, and masking keeps
the number of bytes and all places between characters. -/
theorem ofSource_eq_lines (source : Text) :
    Line.ofSource source = lines source ∧ (lex .code source).map Lexeme.char = source ∧
      ∀ l ∈ Line.ofSource source, Text.byteSize l.code = Text.byteSize l.text ∧
        ∀ front rest, l.text = front ++ rest →
          ∃ front' rest', l.code = front' ++ rest' ∧
            Text.byteSize front' = Text.byteSize front := by
  refine ⟨?_, map_fst_lex .code source, fun l hl => ?_⟩
  · have hlines := linesFrom_eq_linesBehind .code [] (Text.rawLines_ne_nil source)
      fun raw h => Text.notMem_of_mem_rawLines h
    rwa [Text.join_rawLines] at hlines
  · obtain ⟨before, behind, hstands⟩ := Line.exists_stands hl
    obtain ⟨m, hmask⟩ := hstands.masked
    refine ⟨by rw [hmask, Text.byteSize_mask], fun front rest htext => ?_⟩
    obtain ⟨v, m', hv, hrest⟩ := Text.exists_mask_append m front rest.head?
    exact ⟨v, Text.mask m' rest, by rw [hmask, htext, (hrest rest rfl).1], hv⟩

/-- A program with an escaped quote and a backslash at the end of a line, with a comment that its
own marks do not close, and with carriage returns. -/
def tangled : Text :=
  "s = \"\\\"//\\\r\n\x7b /*/ \u00e9 \x7d\r\n*/ \x7d\r"

theorem ofSource_eq_lines_tangled :
    (lines tangled).map (fun l => (l.number, l.offset, l.depth, l.code)) =
        [(1, 0, 0, "s = \"     ".toList), (2, 12, 0, "\x7b         ".toList),
          (3, 24, 1, "   \x7d".toList)] ∧
      ∃ l ∈ Line.ofSource tangled, ∃ front' rest', l.code = front' ++ rest' ∧
        Text.byteSize front' = Text.byteSize "\x7b /*/ \u00e9" := by
  have hlines : (lines tangled).map (fun l => (l.number, l.offset, l.depth, l.code)) =
      [(1, 0, 0, "s = \"     ".toList), (2, 12, 0, "\x7b         ".toList),
        (3, 24, 1, "   \x7d".toList)] := by
    decide +kernel
  have hl : ⟨2, 12, 0, "\x7b /*/ \u00e9 \x7d".toList, "\x7b         ".toList⟩ ∈
      Line.ofSource tangled := by
    decide +kernel
  have hsplit : "\x7b /*/ \u00e9 \x7d".toList = "\x7b /*/ \u00e9".toList ++ " \x7d".toList := by
    decide
  have hplace := ((ofSource_eq_lines tangled).2.2 _ hl).2 _ _ hsplit
  exact ⟨hlines, _, hl, hplace⟩

end Lexer
end DspCheck
