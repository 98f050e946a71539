import DspCheck.Proofs.Source.ArgumentList
import DspCheck.Proofs.Source.Expression
import DspCheck.Proofs.Source.Identifier
import DspCheck.Proofs.Source.Masking
import DspCheck.Proofs.Source.Reference
import DspCheck.Source.Line

/-!
# How the scanners read the text of an expression

For each scanner that keeps a state there is one fact about expressions, proved by induction on the
tree: the masked form of the text is the code (`masksAs_code`), the code opens and closes the same
parentheses (`foldl_parensAfter_code`), and the reader of argument lists passes it
(`passes_code`).
-/

namespace DspCheck

theorem Text.mem_spaces {t : Text} {c : Char} (h : c ∈ spaces t) : c = ' ' :=
  List.eq_of_mem_replicate h

theorem Digits.exists_head (n : Digits) : ∃ c t, n.text = c :: t ∧ c.isDigit = true := by
  obtain ⟨c, t, hn⟩ := List.exists_cons_of_ne_nil n.ne_nil
  refine ⟨c, t, hn, n.isDigit c ?_⟩
  rw [hn]
  exact List.mem_cons_self

namespace Expression

/-! ## The characters of an expression -/

theorem isRunChar_of_mem_digits (n : Digits) :
    ∀ c ∈ n.text, Reference.isRunChar c = true := by
  intro c hc
  simp [Reference.isRunChar, Ident.isPart_of_isDigit (n.isDigit c hc)]

theorem isRunChar_of_mem_identifier (x : Identifier) :
    ∀ c ∈ x.text, Reference.isRunChar c = true := by
  intro c hc
  simp [Reference.isRunChar, Ident.isPart_of_mem x.isIdent hc]

theorem isRunChar_of_mem_decimal (digits fraction : Digits) :
    ∀ c ∈ digits.text ++ '.' :: fraction.text, Reference.isRunChar c = true :=
  List.forall_mem_append.2 ⟨isRunChar_of_mem_digits digits,
    List.forall_mem_cons.2 ⟨by decide, isRunChar_of_mem_digits fraction⟩⟩

theorem isRunChar_of_mem_qualified (library name : Identifier) :
    ∀ c ∈ Ident.qualified library.text name.text, Reference.isRunChar c = true :=
  List.forall_mem_append.2 ⟨isRunChar_of_mem_identifier library,
    List.forall_mem_cons.2 ⟨by decide, isRunChar_of_mem_identifier name⟩⟩

/-- No character of a run means anything to the scanners. -/
theorem inert_of_isRunChar {c : Char} (h : Reference.isRunChar c = true) :
    ArgumentList.isPlain c = true ∧ Statement.isEnd c = false ∧ c ≠ '/' ∧ c ≠ '\n' := by
  have hall := Text.forall_ascii (p := fun c => !Reference.isRunChar c ||
      (ArgumentList.isPlain c && !Statement.isEnd c && c ≠ '/' && c ≠ '\n')) (by decide)
    (Reference.isAscii_of_isRunChar h)
  simpa [h, and_assoc] using hall

/-- Induction on the tree in which the expressions without parts are one case: their text is one
run, however string literals are written. -/
theorem run_induction {motive : Expression → Prop}
    (run : ∀ e t, (∀ f, e.textWith f = t) → (∀ c ∈ t, Reference.isRunChar c = true) → motive e)
    (literal : ∀ content, motive (.literal content))
    (operation : ∀ left operator right, motive left → motive right →
      motive (.operation left operator right))
    (call : ∀ library name args, (∀ e ∈ args, motive e) → motive (.call library name args))
    (e : Expression) : motive e := by
  induction e with
  | whole digits =>
      exact run _ _ (fun _ => by rw [textWith]) (isRunChar_of_mem_digits digits)
  | decimal digits fraction =>
      exact run _ _ (fun _ => by rw [textWith]) (isRunChar_of_mem_decimal digits fraction)
  | var x =>
      exact run _ _ (fun _ => by rw [textWith]) (isRunChar_of_mem_identifier x)
  | member library name =>
      exact run _ _ (fun _ => by rw [textWith]) (isRunChar_of_mem_qualified library name)
  | literal content =>
      exact literal content
  | operation left operator right ihl ihr =>
      exact operation left operator right ihl ihr
  | call library name args ih =>
      exact call library name args ih

/-- The characters of expressions outside runs and the contents of strings. -/
def marks : Text := " ,()\"+-*/:"

/-- What holds of the characters of runs, of the marks and of the written contents holds of all
characters of an expression. -/
theorem forall_mem_textWith {p : Char → Prop} {f : Text → Text}
    (hrun : ∀ c, Reference.isRunChar c = true → p c) (hmark : ∀ c ∈ marks, p c)
    (hcontent : ∀ q : Quotation, ∀ c ∈ f q.text, p c) (e : Expression) :
    ∀ c ∈ e.textWith f, p c := by
  induction e using run_induction with
  | run e t ht hchar =>
      rw [ht f]
      exact fun c hc => hrun c (hchar c hc)
  | literal content =>
      rw [textWith, List.forall_mem_cons, List.forall_mem_append, List.forall_mem_singleton]
      exact ⟨hmark _ (by decide), hcontent content, hmark _ (by decide)⟩
  | operation left operator right ihl ihr =>
      have hoperator : operator.char ∈ marks := by
        cases operator <;> decide
      simp only [textWith, List.forall_mem_cons, List.forall_mem_append]
      exact ⟨hmark _ (by decide), ihl, hmark _ (by decide), hmark _ hoperator, hmark _ (by decide),
        ihr, hmark _ (by decide), List.forall_mem_nil _⟩
  | call library name args ih =>
      simp only [textWith_call, argumentsWith, List.forall_mem_append, List.forall_mem_cons]
      refine ⟨fun c hc => hrun c (isRunChar_of_mem_qualified library name c hc),
        hmark _ (by decide), ?_, hmark _ (by decide), List.forall_mem_nil _⟩
      intro c hc
      rcases Text.mem_join hc with hc | ⟨t, ht, hc⟩
      · have hcomma : ∀ c ∈ (", " : Text), c ∈ marks := List.all_iff_forall_prop.1 (by decide)
        exact hmark c (hcomma c hc)
      · obtain ⟨e, he, rfl⟩ := List.mem_map.1 ht
        exact ih e he c hc

theorem newline_notMem_text (e : Expression) : '\n' ∉ e.text := by
  have hall := forall_mem_textWith (p := (· ≠ '\n')) (f := id)
    (fun c hc => (inert_of_isRunChar hc).2.2.2) (List.all_iff_forall_prop.1 (by decide))
    (fun q c hc => (q.plain c hc).2.2) e
  exact fun hmem => hall _ hmem rfl

theorem isEnd_of_mem_code (e : Expression) : ∀ c ∈ e.code, Statement.isEnd c = false := by
  refine forall_mem_textWith (fun c hc => (inert_of_isRunChar hc).2.1)
    (List.all_iff_forall_prop.1 (by decide)) ?_ e
  intro q c hc
  rw [Text.mem_spaces hc]
  decide

/-! ## The start of an expression -/

/-- An expression starts with a character that is no blank. -/
theorem exists_head (f : Text → Text) (e : Expression) :
    ∃ c t, e.textWith f = c :: t ∧ Text.isBlank c = false := by
  have hident : ∀ (x : Identifier) (t : Text),
      ∃ c u, x.text ++ t = c :: u ∧ Text.isBlank c = false := by
    intro x t
    obtain ⟨c, r, hx, hc, -⟩ := Ident.isIdent_iff.1 x.isIdent
    exact ⟨c, r ++ t, by rw [hx, List.cons_append],
      Ident.not_isBlank_of_isPart (Ident.isPart_of_isStart hc)⟩
  have hdigits : ∀ (n : Digits) (t : Text),
      ∃ c u, n.text ++ t = c :: u ∧ Text.isBlank c = false := by
    intro n t
    obtain ⟨c, r, hn, hc⟩ := n.exists_head
    exact ⟨c, r ++ t, by rw [hn, List.cons_append],
      Ident.not_isBlank_of_isPart (Ident.isPart_of_isDigit hc)⟩
  cases e with
  | whole digits =>
      simpa [textWith] using hdigits digits []
  | decimal digits fraction =>
      exact hdigits digits _
  | var x =>
      simpa [textWith] using hident x []
  | member library name =>
      exact hident library _
  | literal content =>
      exact ⟨_, _, rfl, by decide⟩
  | operation left operator right =>
      exact ⟨_, _, rfl, by decide⟩
  | call library name args =>
      simp only [textWith_call, Ident.qualified, List.append_assoc]
      exact hident library _

/-- If the name leads the code of an expression with a dot behind it, it is used as a library. -/
theorem mem_libraries_of_code_eq {name : Text} (hname : Ident.isIdent name = true)
    {e : Expression} {rest : Text} (h : e.code = name ++ '.' :: rest) : name ∈ e.libraries := by
  have hlead : Ident.leading e.code = name := by
    rw [h]
    exact Ident.leading_append hname (Text.endsAt_cons (by decide) rest)
  have hdot : ∀ (x : Identifier) (t : Text), Ident.leading (x.text ++ '.' :: t) = x.text :=
    fun x t => Ident.leading_append x.isIdent (Text.endsAt_cons (by decide) t)
  have hdigits : ∀ (n : Digits) (t : Text), Ident.leading (n.text ++ t) = [] := by
    intro n t
    obtain ⟨c, r, hn, hc⟩ := n.exists_head
    rw [hn, List.cons_append, Ident.leading, if_neg (Ident.not_isStart_of_isDigit hc)]
  cases e with
  | whole digits =>
      have hnil := hdigits digits []
      rw [List.append_nil] at hnil
      exact absurd (hlead.symm.trans hnil) (Ident.ne_nil hname)
  | decimal digits fraction =>
      exact absurd (hlead.symm.trans (hdigits digits _)) (Ident.ne_nil hname)
  | var x =>
      have hmem : '.' ∈ (var x).code := by
        rw [h]
        simp
      exact absurd hmem (Ident.dot_notMem x.isIdent)
  | member library member =>
      rw [← hlead]
      simp [code, textWith, Ident.qualified, hdot, libraries]
  | literal content =>
      exact absurd (hlead.symm.trans rfl) (Ident.ne_nil hname)
  | operation left operator right =>
      exact absurd (hlead.symm.trans (by rw [code_operation]; rfl)) (Ident.ne_nil hname)
  | call library member args =>
      rw [← hlead]
      simp [code, textWith_call, Ident.qualified, hdot, libraries]

/-- Only a string literal starts with a quote. -/
theorem eq_literal_of_code_eq {e : Expression} {rest : Text} (h : e.code = '"' :: rest) :
    ∃ content, e = .literal content := by
  have hrun : ∀ {t u : Text}, t ≠ [] → (∀ c ∈ t, Reference.isRunChar c = true) →
      t ++ u ≠ '"' :: rest := by
    intro t u hne ht heq
    obtain ⟨c, r, rfl⟩ := List.exists_cons_of_ne_nil hne
    obtain ⟨rfl, -⟩ := List.cons.inj heq
    exact absurd (ht '"' List.mem_cons_self) (by decide)
  cases e with
  | literal content =>
      exact ⟨content, rfl⟩
  | operation left operator right =>
      rw [code_operation] at h
      cases h
  | call library member args =>
      rw [code, textWith_call] at h
      exact absurd h (hrun (by simp [Ident.qualified])
        (isRunChar_of_mem_qualified library member))
  | whole digits =>
      rw [← List.append_nil (whole digits).code] at h
      exact absurd h (hrun digits.ne_nil (isRunChar_of_mem_digits digits))
  | decimal digits fraction =>
      rw [← List.append_nil (decimal digits fraction).code] at h
      exact absurd h (hrun (by simp [code, textWith]) (isRunChar_of_mem_decimal digits fraction))
  | var x =>
      rw [← List.append_nil (var x).code] at h
      exact absurd h (hrun (Ident.ne_nil x.isIdent) (isRunChar_of_mem_identifier x))
  | member library name =>
      rw [← List.append_nil (Expression.member library name).code] at h
      exact absurd h (hrun (by simp [code, textWith, Ident.qualified])
        (isRunChar_of_mem_qualified library name))

/-! ## Masking -/

theorem masksAs_run {t : Text} (h : ∀ c ∈ t, Reference.isRunChar c = true) : Text.MasksAs t t := by
  refine Text.masksAs_self fun c hc => ?_
  obtain ⟨hplain, -, hslash, -⟩ := inert_of_isRunChar (h c hc)
  obtain ⟨⟨⟨hquote, -⟩, -⟩, -⟩ := by simpa [ArgumentList.isPlain] using hplain
  exact ⟨hquote, hslash⟩

theorem masksAs_join {es : List Expression} (h : ∀ e ∈ es, Text.MasksAs e.text e.code) :
    Text.MasksAs (Text.join ", " (es.map text)) (Text.join ", " (es.map code)) := by
  induction es with
  | nil =>
      exact Text.masksAs_self (fun _ hc => absurd hc List.not_mem_nil)
  | cons e es ih =>
      rw [List.forall_mem_cons] at h
      cases es with
      | nil =>
          exact h.1
      | cons e' es =>
          have hcomma : Text.MasksAs ", " ", " :=
            Text.masksAs_self (List.all_iff_forall_prop.1 (by decide))
          exact (h.1.append hcomma).append (ih h.2)

/-- The masked form of an expression is its code, and it ends in code. -/
theorem masksAs_code (e : Expression) : Text.MasksAs e.text e.code := by
  have hopen : Text.MasksAs ['('] ['('] :=
    Text.masksAs_self (List.all_iff_forall_prop.1 (by decide))
  have hclose : Text.MasksAs [')'] [')'] :=
    Text.masksAs_self (List.all_iff_forall_prop.1 (by decide))
  induction e using run_induction with
  | run e t ht hchar =>
      rw [text, code, ht, ht]
      exact masksAs_run hchar
  | literal content =>
      exact Text.masksAs_literal fun c hc => ⟨(content.plain c hc).1, (content.plain c hc).2.1⟩
  | operation left operator right ihl ihr =>
      have hoperator : Text.MasksAs [' ', operator.char, ' '] [' ', operator.char, ' '] := by
        cases operator with
        | div =>
            exact Text.masksAs_division
        | _ =>
            exact Text.masksAs_self (List.all_iff_forall_prop.1 (by decide))
      exact hopen.append (ihl.append (hoperator.append (ihr.append hclose)))
  | call library name args ih =>
      rw [text, code, textWith_call, textWith_call]
      have hname := masksAs_run (isRunChar_of_mem_qualified library name)
      exact hname.append (hopen.append ((masksAs_join ih).append hclose))

/-- An expression has as many bytes as its code. -/
@[simp] theorem byteSize_code (e : Expression) : Text.byteSize e.code = Text.byteSize e.text := by
  have hmask := (masksAs_code e []).1
  rw [List.append_nil, Text.mask, List.append_nil] at hmask
  rw [← hmask, Text.byteSize_mask]

/-! ## Parentheses -/

theorem foldl_parensAfter_of_notMem {t : Text} (h : ∀ c ∈ t, c ≠ '(' ∧ c ≠ ')') (n : Nat) :
    t.foldl parensAfter n = n := by
  induction t with
  | nil =>
      rfl
  | cons c t ih =>
      rw [List.forall_mem_cons] at h
      rw [List.foldl_cons, parensAfter, if_neg h.1.1, if_neg h.1.2, ih h.2]

theorem foldl_parensAfter_run {t : Text} (h : ∀ c ∈ t, Reference.isRunChar c = true) (n : Nat) :
    t.foldl parensAfter n = n := by
  refine foldl_parensAfter_of_notMem (fun c hc => ?_) n
  obtain ⟨⟨⟨-, hopen⟩, hclose⟩, -⟩ :=
    by simpa [ArgumentList.isPlain] using (inert_of_isRunChar (h c hc)).1
  exact ⟨hopen, hclose⟩

theorem foldl_parensAfter_join {ts : List Text} (h : ∀ t ∈ ts, ∀ n, t.foldl parensAfter n = n)
    (n : Nat) : (Text.join ", " ts).foldl parensAfter n = n := by
  induction ts with
  | nil =>
      rfl
  | cons t ts ih =>
      rw [List.forall_mem_cons] at h
      cases ts with
      | nil =>
          exact h.1 n
      | cons u us =>
          rw [Text.join_cons_cons, List.foldl_append, List.foldl_append, h.1]
          exact ih h.2

/-- Behind an expression as many parentheses are open as before it. -/
theorem foldl_parensAfter_code (e : Expression) (n : Nat) : e.code.foldl parensAfter n = n := by
  have hopen : ∀ n, parensAfter n '(' = n + 1 := fun _ => rfl
  have hclose : ∀ n, parensAfter (n + 1) ')' = n := fun _ => rfl
  induction e using run_induction generalizing n with
  | run e t ht hchar =>
      rw [code, ht]
      exact foldl_parensAfter_run hchar n
  | literal content =>
      refine foldl_parensAfter_of_notMem ?_ n
      rw [code, textWith, List.forall_mem_cons, List.forall_mem_append, List.forall_mem_singleton]
      refine ⟨by decide, ?_, by decide⟩
      intro c hc
      rw [Text.mem_spaces hc]
      decide
  | operation left operator right ihl ihr =>
      have hoperator : ∀ n,
          parensAfter (parensAfter (parensAfter n ' ') operator.char) ' ' = n := by
        intro n
        cases operator <;> rfl
      rw [code_operation, List.foldl_cons, hopen, List.foldl_append, ihl, List.foldl_cons,
        List.foldl_cons, List.foldl_cons, hoperator, List.foldl_append, ihr]
      exact hclose n
  | call library name args ih =>
      have hargs : (Text.join ", " (args.map code)).foldl parensAfter (n + 1) = n + 1 :=
        foldl_parensAfter_join (List.forall_mem_map.2 ih) (n + 1)
      rw [code, textWith_call, List.foldl_append,
        foldl_parensAfter_run (isRunChar_of_mem_qualified library name), argumentsWith,
        List.foldl_cons, hopen, List.foldl_append]
      rw [show args.map (textWith Text.spaces) = args.map code from rfl, hargs]
      exact hclose n

/-! ## Argument lists -/

theorem passes_run {t : Text} (h : ∀ c ∈ t, Reference.isRunChar c = true) :
    ArgumentList.Passes 0 t :=
  ArgumentList.passes_of_plain fun c hc => (inert_of_isRunChar (h c hc)).1

/-- The reader of argument lists passes an expression. -/
theorem passes_code (e : Expression) : ArgumentList.Passes 0 e.code := by
  induction e using run_induction with
  | run e t ht hchar =>
      rw [code, ht]
      exact passes_run hchar
  | literal content =>
      refine ArgumentList.passes_literal fun hmem => ?_
      exact absurd (Text.mem_spaces hmem) (by decide)
  | operation left operator right ihl ihr =>
      have hoperator : ArgumentList.Passes 0 [' ', operator.char, ' '] :=
        ArgumentList.passes_of_plain (List.all_iff_forall_prop.1 (by cases operator <;> decide))
      have hinside := ihl.append (hoperator.append ihr)
      have hparens := (hinside.mono (Nat.zero_le 1)).parens
      rw [code_operation]
      simpa using hparens
  | call library name args ih =>
      have hargs := (ArgumentList.passes_join (List.forall_mem_map.2 ih)).parens
      rw [code, textWith_call]
      exact (passes_run (isRunChar_of_mem_qualified library name)).append hargs

/-- The reader of argument lists finds the arguments of a call, and nothing else. -/
theorem exists_read?_arguments (args : List Expression) (rest : Text) :
    ∃ l, ArgumentList.read? (argumentsWith Text.spaces args ++ rest) = some l ∧
      l.args.length = args.length ∧ l.extent = argumentsWith Text.spaces args := by
  have hpass : ∀ t ∈ args.map code, ArgumentList.Passes 0 t :=
    List.forall_mem_map.2 fun e _ => passes_code e
  have hblank : (args.map code).map Text.trim ≠ [[]] := by
    intro hnil
    rw [List.map_map, List.map_eq_singleton_iff] at hnil
    obtain ⟨e, -, he⟩ := hnil
    obtain ⟨c, t, hhead, hc⟩ := exists_head Text.spaces e
    rw [Function.comp_apply, code, hhead] at he
    exact Text.trim_ne_nil hc he
  have hread := ArgumentList.exists_read?_join hpass hblank rest
  rwa [List.length_map] at hread

end Expression
end DspCheck
