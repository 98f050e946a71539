import DspCheck.Proofs.Source.ExpressionText
import Mathlib.Data.List.Forall2

/-!
# The references in an expression

In the code of an expression the scanner finds the calls of the tree, in the order of their sites,
each with its own arguments behind it.  What it finds besides is not called (`reads_code`).
-/

namespace DspCheck

/-- What the scanner of a line finds at a call, if `offset` bytes are before the line. -/
structure CallSite.IsRead (offset : Nat) (s : CallSite) (r : Reference) : Prop where
  library : r.library = s.library.text
  name : r.name = s.name.text
  start : offset + r.start = Text.byteSize s.before
  stop : r.stop = r.start + Text.byteSize s.fullName
  args : ∃ l, ArgumentList.read? r.follow = some l ∧ l.args.length = s.args.length ∧
    r.followStart + l.consumed = r.start + Text.byteSize s.text

namespace Expression

open Reference (scanFrom isRunChar isCall)

/-- What follows an expression: it neither goes on with a run nor calls it. -/
def Ends (rest : Text) : Prop :=
  Text.EndsAt isRunChar rest ∧ (Text.trimStart rest).head? ≠ some '('

/-- From a position on, the scanner reads a text with `rest` behind it as references of which those
that are called stand at the given sites. -/
def Reads (offset position : Nat) (t rest : Text) (sites : List CallSite) : Prop :=
  ∃ refs, scanFrom false position (t ++ rest) =
      (scanFrom false (position + Text.byteSize t) rest).map (refs ++ ·) ∧
    List.Forall₂ (CallSite.IsRead offset) sites (refs.filter isCall)

section Parts

variable {offset position : Nat} {t u rest : Text}

theorem Reads.append {ss us : List CallSite} (ht : Reads offset position t (u ++ rest) ss)
    (hu : Reads offset (position + Text.byteSize t) u rest us) :
    Reads offset position (t ++ u) rest (ss ++ us) := by
  obtain ⟨rs, hscan, hrs⟩ := ht
  obtain ⟨qs, hscan', hqs⟩ := hu
  refine ⟨rs ++ qs, ?_, ?_⟩
  · rw [List.append_assoc, hscan, hscan', Text.byteSize_append, Nat.add_assoc]
    cases scanFrom false (position + (Text.byteSize t + Text.byteSize u)) rest with
    | error e =>
        rfl
    | ok found =>
        exact congrArg Except.ok (List.append_assoc rs qs found).symm
  · rw [List.filter_append]
    exact List.rel_append hrs hqs

theorem reads_glue (h : ∀ c ∈ t, Text.isAscii c = true ∧ isRunChar c = false) :
    Reads offset position t rest [] := by
  refine ⟨[], ?_, List.Forall₂.nil⟩
  rw [Reference.scanFrom_glue h]
  cases scanFrom false (position + Text.byteSize t) rest with
  | error e =>
      rfl
  | ok found =>
      rfl

theorem Reads.parens {ss : List CallSite}
    (h : Reads offset (position + 1) t ([')'] ++ rest) ss) :
    Reads offset position ('(' :: (t ++ [')'])) rest ss := by
  have hopen : Reads offset position ['('] (t ++ [')'] ++ rest) [] :=
    reads_glue (List.all_iff_forall_prop.1 (by decide))
  have hclose : Reads offset (position + 1 + Text.byteSize t) [')'] rest [] :=
    reads_glue (List.all_iff_forall_prop.1 (by decide))
  have hall := hopen.append (h.append hclose)
  rwa [List.append_nil] at hall

/-- A run that is no reference is read as nothing. -/
theorem reads_run (hne : t ≠ []) (h : ∀ c ∈ t, isRunChar c = true)
    (hparts : Reference.partsOf? t = none) (hrest : Ends rest) :
    Reads offset position t rest [] := by
  refine ⟨[], ?_, List.Forall₂.nil⟩
  rw [Reference.scanFrom_word hne h hrest.1, Reference.leading?_append h hrest.1, hparts]
  rfl

theorem scanFrom_qualified (library name : Identifier) (hrest : Text.EndsAt isRunChar rest) :
    scanFrom false position (Ident.qualified library.text name.text ++ rest) =
      (scanFrom false (position + Text.byteSize (Ident.qualified library.text name.text)) rest).map
        ([{ library := library.text
            name := name.text
            start := position
            stop := position + Text.byteSize (Ident.qualified library.text name.text)
            follow := Text.trimStart rest
            followStart := position + Text.byteSize (Ident.qualified library.text name.text) +
              Text.byteSize (rest.takeWhile Text.isBlank) }] ++ ·) := by
  have hrun := isRunChar_of_mem_qualified library name
  have hne : Ident.qualified library.text name.text ≠ [] := by
    simp [Ident.qualified]
  rw [Reference.scanFrom_word hne hrun hrest, Reference.leading?_append hrun hrest,
    Reference.partsOf?_qualified library.isIdent name.isIdent]
  rfl

/-- A member that is not called is read as a reference that is not called. -/
theorem reads_member (library name : Identifier) (hrest : Ends rest) :
    Reads offset position (Ident.qualified library.text name.text) rest [] := by
  refine ⟨_, scanFrom_qualified library name hrest.1, ?_⟩
  rw [List.filter_cons_of_neg (by simpa [isCall] using hrest.2), List.filter_nil]
  exact List.Forall₂.nil

/-- The name of a called function is read as a reference with the arguments of the call. -/
theorem reads_name (library name : Identifier) (args : List Expression) {before : Text}
    (hbefore : offset + position = Text.byteSize before) :
    Reads offset position (Ident.qualified library.text name.text)
      (argumentsWith Text.spaces args ++ rest) [⟨before, library, name, args⟩] := by
  have hparen : Text.EndsAt isRunChar (argumentsWith Text.spaces args ++ rest) :=
    Text.endsAt_cons (by decide) _
  have hblank : Text.EndsAt Text.isBlank (argumentsWith Text.spaces args ++ rest) :=
    Text.endsAt_cons (by decide) _
  refine ⟨_, scanFrom_qualified library name hparen, ?_⟩
  rw [Text.trimStart_of_endsAt hblank, List.filter_cons_of_pos (by rfl), List.filter_nil]
  refine List.Forall₂.cons ⟨rfl, rfl, hbefore, rfl, ?_⟩ List.Forall₂.nil
  obtain ⟨l, hl, hcount, hextent⟩ := exists_read?_arguments args rest
  refine ⟨l, hl, hcount, ?_⟩
  have hcode : Text.byteSize (argumentsWith Text.spaces args) =
      Text.byteSize (argumentsWith id args) := by
    have hcall := byteSize_code (call library name args)
    rw [code, text, textWith_call, textWith_call, Text.byteSize_append,
      Text.byteSize_append] at hcall
    omega
  have hnone : (argumentsWith Text.spaces args ++ rest).takeWhile Text.isBlank = [] := rfl
  rw [ArgumentList.consumed, hextent, hcode, hnone, CallSite.text_eq, Text.byteSize_append]
  simp only [Text.byteSize_nil, CallSite.fullName]
  omega

end Parts

theorem ends_cons {c : Char} (hrun : isRunChar c = false) (hblank : Text.isBlank c = false)
    (hparen : c ≠ '(') (rest : Text) : Ends (c :: rest) := by
  refine ⟨Text.endsAt_cons hrun rest, ?_⟩
  rw [Text.trimStart_of_endsAt (Text.endsAt_cons hblank rest), List.head?_cons, ne_eq,
    Option.some.injEq]
  exact hparen

theorem ends_blank {c : Char} (hblank : Text.isBlank c = false) (hparen : c ≠ '(') (rest : Text) :
    Ends (' ' :: c :: rest) := by
  refine ⟨Text.endsAt_cons (by decide) _, ?_⟩
  rw [Text.trimStart, List.dropWhile_cons_of_pos (by decide),
    List.dropWhile_cons_of_neg (by simp [hblank]), List.head?_cons, ne_eq, Option.some.injEq]
  exact hparen

theorem ends_operator (operator : Operator) (rest : Text) :
    Ends (' ' :: operator.char :: rest) := by
  cases operator <;> exact ends_blank (by decide) (by decide) rest

/-- The scanner finds the calls in the arguments of a call. -/
theorem reads_join {offset : Nat} {es : List Expression}
    (ih : ∀ e ∈ es, ∀ before position rest, offset + position = Text.byteSize before → Ends rest →
      Reads offset position e.code rest (sites before e))
    (before : Text) (position : Nat) (rest : Text)
    (hbefore : offset + position = Text.byteSize before) (hrest : Ends rest) :
    Reads offset position (Text.join ", " (es.map code)) rest (argumentSites before es) := by
  induction es generalizing before position with
  | nil =>
      exact reads_glue fun _ hc => absurd hc List.not_mem_nil
  | cons e es ihes =>
      rw [List.forall_mem_cons] at ih
      cases es with
      | nil =>
          have hlast := ih.1 before position rest hbefore hrest
          rwa [← List.append_nil (sites before e)] at hlast
      | cons e' es =>
          have hcomma : ∀ position u, Reads offset position ", " u [] := by
            intro position u
            exact reads_glue (List.all_iff_forall_prop.1 (by decide))
          have hends : Ends (", " ++ (Text.join ", " ((e' :: es).map code) ++ rest)) :=
            ends_cons (by decide) (by decide) (by decide) _
          have hfirst := (ih.1 before position _ hbefore hends).append (hcomma _ _)
          have hothers := ihes ih.2 (before ++ e.text ++ ", ")
            (position + Text.byteSize (e.code ++ ", ")) (by
              simp only [Text.byteSize_append, byteSize_code]
              omega)
          rw [List.append_nil] at hfirst
          exact hfirst.append hothers

/-- The scanner finds exactly the calls in an expression. -/
theorem reads_code (offset : Nat) (e : Expression) (before : Text) (position : Nat) (rest : Text)
    (hbefore : offset + position = Text.byteSize before) (hrest : Ends rest) :
    Reads offset position e.code rest (sites before e) := by
  have hclosed : ∀ u, Ends ([')'] ++ u) :=
    fun u => ends_cons (by decide) (by decide) (by decide) u
  have hparen : Char.utf8Size '(' = 1 := by decide
  induction e generalizing before position rest with
  | whole digits =>
      obtain ⟨c, t, hdigits, hc⟩ := digits.exists_head
      rw [code, textWith]
      refine reads_run digits.ne_nil (isRunChar_of_mem_digits digits) ?_ hrest
      rw [hdigits]
      exact Reference.partsOf?_of_isDigit hc
  | decimal digits fraction =>
      obtain ⟨c, t, hdigits, hc⟩ := digits.exists_head
      rw [code, textWith]
      refine reads_run (by simp) (isRunChar_of_mem_decimal digits fraction) ?_ hrest
      rw [hdigits]
      exact Reference.partsOf?_of_isDigit hc
  | var x =>
      exact reads_run (Ident.ne_nil x.isIdent) (isRunChar_of_mem_identifier x)
        (Reference.partsOf?_of_notMem (Ident.dot_notMem x.isIdent)) hrest
  | member library name =>
      exact reads_member library name hrest
  | literal content =>
      refine reads_glue ?_
      rw [code, textWith, List.forall_mem_cons, List.forall_mem_append, List.forall_mem_singleton]
      refine ⟨by decide, ?_, by decide⟩
      intro c hc
      rw [Text.mem_spaces hc]
      decide
  | operation left operator right ihl ihr =>
      have hoperator : ∀ position u, Reads offset position [' ', operator.char, ' '] u [] := by
        intro position u
        exact reads_glue (List.all_iff_forall_prop.1 (by cases operator <;> decide))
      have hleft := ihl (before ++ ['(']) (position + 1)
        (([' ', operator.char, ' '] ++ right.code) ++ ([')'] ++ rest))
        (by
          simp only [Text.byteSize_append, Text.byteSize_cons, Text.byteSize_nil]
          omega)
        (ends_operator operator _)
      have hright := ihr (before ++ '(' :: (left.text ++ [' ', operator.char, ' ']))
        (position + 1 + Text.byteSize left.code + Text.byteSize [' ', operator.char, ' '])
        ([')'] ++ rest)
        (by
          simp only [Text.byteSize_append, Text.byteSize_cons, Text.byteSize_nil, byteSize_code]
          omega)
        (hclosed rest)
      have hinside := hleft.append ((hoperator _ _).append hright)
      rw [code_operation]
      simpa [sites] using hinside.parens
  | call library name args ih =>
      rw [code, textWith_call, sites]
      have hargs := reads_join (fun e he before position rest => ih e he before position rest)
        (before ++ Ident.qualified library.text name.text ++ ['('])
        (position + Text.byteSize (Ident.qualified library.text name.text) + 1) ([')'] ++ rest)
        (by
          simp only [Text.byteSize_append, Text.byteSize_cons, Text.byteSize_nil]
          omega)
        (hclosed rest)
      exact (reads_name library name args hbefore).append hargs.parens

end Expression
end DspCheck
