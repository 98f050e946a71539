import DspCheck.Proofs.Text.Lines
import DspCheck.Proofs.Text.Place
import DspCheck.Text.Classes

/-!
# Expressions and the calls in them

Most programs are made of definitions `name = expression;`, one on each line.  Here an expression is
a tree, and its text is written with one blank at each side of an operator and behind each comma.
The contents of its string literals are written by a function, so that one definition yields both
the text of an expression and its masked form.

A *call site* is a call in a program with the text before it.  The sites of an expression are listed
in the order in which they start (`pairwise_sites`), and each of them stands in the text of the
expression (`standsIn_of_mem_sites`).
-/

namespace DspCheck

/-- As many blanks as a text has bytes. -/
def Text.spaces (t : Text) : Text :=
  List.replicate (byteSize t) ' '

/-- An identifier. -/
structure Identifier where
  text : Text
  isIdent : Ident.isIdent text = true

/-- A run of digits. -/
structure Digits where
  text : Text
  ne_nil : text ≠ []
  isDigit : ∀ c ∈ text, c.isDigit = true

/-- What stands between the quotes of a string literal without escapes. -/
structure Quotation where
  text : Text
  plain : ∀ c ∈ text, c ≠ '"' ∧ c ≠ '\\' ∧ c ≠ '\n'

/-- An operator between two expressions. -/
inductive Operator
  | add
  | sub
  | mul
  | div
  /-- Sequential composition. -/
  | seq
  deriving DecidableEq, Repr

/-- The character of an operator. -/
def Operator.char : Operator → Char
  | add => '+'
  | sub => '-'
  | mul => '*'
  | div => '/'
  | seq => ':'

/-- An expression of a program. -/
inductive Expression
  | whole (digits : Digits)
  | decimal (digits fraction : Digits)
  | var (x : Identifier)
  /-- A member of a library that is not called. -/
  | member (library name : Identifier)
  | literal (content : Quotation)
  | operation (left : Expression) (operator : Operator) (right : Expression)
  | call (library name : Identifier) (args : List Expression)

namespace Expression

/-- Induction on the tree, over all arguments of a call at once. -/
@[induction_eliminator]
theorem tree_induction {motive : Expression → Prop}
    (whole : ∀ digits, motive (.whole digits))
    (decimal : ∀ digits fraction, motive (.decimal digits fraction))
    (var : ∀ x, motive (.var x))
    (member : ∀ library name, motive (.member library name))
    (literal : ∀ content, motive (.literal content))
    (operation : ∀ left operator right, motive left → motive right →
      motive (.operation left operator right))
    (call : ∀ library name args, (∀ e ∈ args, motive e) → motive (.call library name args))
    (e : Expression) : motive e :=
  @Expression.rec motive (fun args => ∀ e ∈ args, motive e) whole decimal var member literal
    operation call (fun _ h => absurd h List.not_mem_nil)
    (fun _ _ hhead htail => List.forall_mem_cons.2 ⟨hhead, htail⟩) e

mutual

/-- The text of an expression, with the contents of its string literals written by `f`. -/
def textWith (f : Text → Text) : Expression → Text
  | whole digits => digits.text
  | decimal digits fraction => digits.text ++ '.' :: fraction.text
  | var x => x.text
  | member library name => Ident.qualified library.text name.text
  | literal content => '"' :: (f content.text ++ ['"'])
  | operation left operator right =>
      '(' :: (textWith f left ++ ' ' :: operator.char :: ' ' :: (textWith f right ++ [')']))
  | call library name args =>
      Ident.qualified library.text name.text ++ '(' :: (Text.join ", " (textsWith f args) ++ [')'])

/-- The texts of a list of expressions. -/
def textsWith (f : Text → Text) : List Expression → List Text
  | [] => []
  | e :: es => textWith f e :: textsWith f es

end

@[simp] theorem textsWith_eq_map (f : Text → Text) (es : List Expression) :
    textsWith f es = es.map (textWith f) := by
  induction es with
  | nil =>
      rfl
  | cons e es ih =>
      rw [textsWith, ih, List.map_cons]

/-- The argument list of a call, with its parentheses. -/
def argumentsWith (f : Text → Text) (args : List Expression) : Text :=
  '(' :: (Text.join ", " (args.map (textWith f)) ++ [')'])

theorem textWith_call (f : Text → Text) (library name : Identifier) (args : List Expression) :
    textWith f (call library name args) =
      Ident.qualified library.text name.text ++ argumentsWith f args := by
  rw [textWith, textsWith_eq_map, argumentsWith]

/-- The text of an expression. -/
def text (e : Expression) : Text :=
  e.textWith id

/-- The masked form of an expression. -/
def code (e : Expression) : Text :=
  e.textWith Text.spaces

mutual

/-- The libraries that an expression refers to. -/
def libraries : Expression → List Text
  | member library _ => [library.text]
  | operation left _ right => libraries left ++ libraries right
  | call library _ args => library.text :: librariesOf args
  | _ => []

/-- The libraries that a list of expressions refers to. -/
def librariesOf : List Expression → List Text
  | [] => []
  | e :: es => libraries e ++ librariesOf es

end

@[simp] theorem librariesOf_eq_flatMap (es : List Expression) :
    librariesOf es = es.flatMap libraries := by
  induction es with
  | nil =>
      rfl
  | cons e es ih =>
      rw [librariesOf, ih, List.flatMap_cons]

end Expression

/-- A call in a program. -/
structure CallSite where
  /-- The text of the program before the call. -/
  before : Text
  library : Identifier
  name : Identifier
  args : List Expression

namespace CallSite

/-- The full name of the called function. -/
def fullName (s : CallSite) : Text :=
  Ident.qualified s.library.text s.name.text

/-- The text of the call, up to its own closing parenthesis. -/
def text (s : CallSite) : Text :=
  (Expression.call s.library s.name s.args).text

/-- A call starts before another one. -/
def Precedes (s t : CallSite) : Prop :=
  Text.byteSize s.before < Text.byteSize t.before

/-- A call stands in a text that has a text before it. -/
def StandsIn (s : CallSite) (before t : Text) : Prop :=
  ∃ front rest, s.before = before ++ front ∧ t = front ++ s.text ++ rest

theorem text_eq (s : CallSite) : s.text = s.fullName ++ Expression.argumentsWith id s.args :=
  Expression.textWith_call id s.library s.name s.args

theorem StandsIn.widen {s : CallSite} {before u t : Text} (h : s.StandsIn (before ++ u) t)
    (v : Text) : s.StandsIn before (u ++ t ++ v) := by
  obtain ⟨front, rest, hbefore, rfl⟩ := h
  exact ⟨u ++ front, rest ++ v, by rw [hbefore, List.append_assoc], by simp⟩

/-- A call starts inside the text in which it stands. -/
theorem StandsIn.bounds {s : CallSite} {before t : Text} (h : s.StandsIn before t) :
    Text.byteSize before ≤ Text.byteSize s.before ∧
      Text.byteSize s.before < Text.byteSize before + Text.byteSize t := by
  obtain ⟨front, rest, hbefore, rfl⟩ := h
  have hpos : 0 < Text.byteSize s.text := by
    apply Text.byteSize_pos
    rw [text_eq, Expression.argumentsWith]
    simp
  simp only [hbefore, Text.byteSize_append]
  omega

end CallSite

namespace Expression

mutual

/-- The calls in an expression that has a text before it. -/
def sites (before : Text) : Expression → List CallSite
  | operation left operator right =>
      sites (before ++ ['(']) left ++
        sites (before ++ '(' :: (left.text ++ [' ', operator.char, ' '])) right
  | call library name args =>
      ⟨before, library, name, args⟩ ::
        argumentSites (before ++ Ident.qualified library.text name.text ++ ['(']) args
  | _ => []

/-- The calls in arguments of which the first one has a text before it. -/
def argumentSites (before : Text) : List Expression → List CallSite
  | [] => []
  | e :: es => sites before e ++ argumentSites (before ++ e.text ++ ", ") es

end

theorem text_operation (left : Expression) (operator : Operator) (right : Expression) :
    (operation left operator right).text =
      '(' :: (left.text ++ ' ' :: operator.char :: ' ' :: (right.text ++ [')'])) := by
  rw [text, textWith]
  rfl

theorem code_operation (left : Expression) (operator : Operator) (right : Expression) :
    (operation left operator right).code =
      '(' :: (left.code ++ ' ' :: operator.char :: ' ' :: (right.code ++ [')'])) := by
  rw [code, textWith]
  rfl

theorem text_call (library name : Identifier) (args : List Expression) :
    (call library name args).text =
      Ident.qualified library.text name.text ++
        '(' :: (Text.join ", " (args.map text) ++ [')']) :=
  textWith_call id library name args

theorem standsIn_of_mem_argumentSites {s : CallSite} {es : List Expression}
    (ih : ∀ e ∈ es, ∀ before, s ∈ sites before e → s.StandsIn before e.text) {before : Text}
    (h : s ∈ argumentSites before es) : s.StandsIn before (Text.join ", " (es.map text)) := by
  induction es generalizing before with
  | nil =>
      cases h
  | cons e es ihes =>
      rw [List.forall_mem_cons] at ih
      rw [argumentSites] at h
      rcases List.mem_append.1 h with h | h
      · have hwide := (ih.1 (before ++ []) (by simpa using h)).widen
          ((es.map text).flatMap (", ".toList ++ ·))
        rwa [List.nil_append, ← Text.join_cons] at hwide
      · cases es with
        | nil =>
            cases h
        | cons e' es =>
            rw [List.append_assoc] at h
            have hwide := (ihes ih.2 h).widen []
            rwa [List.append_nil] at hwide

/-- The calls in an expression stand in its text. -/
theorem standsIn_of_mem_sites {s : CallSite} {e : Expression} {before : Text}
    (h : s ∈ sites before e) : s.StandsIn before e.text := by
  induction e generalizing before with
  | operation left operator right ihl ihr =>
      rw [sites] at h
      rw [text_operation]
      rcases List.mem_append.1 h with h | h
      · have hwide := (ihl h).widen (' ' :: operator.char :: ' ' :: (right.text ++ [')']))
        simpa using hwide
      · have hwide := (ihr h).widen [')']
        simpa using hwide
  | call library name args ih =>
      rw [sites] at h
      rw [text_call]
      rcases List.mem_cons.1 h with rfl | h
      · exact ⟨[], [], by simp, by simp [CallSite.text, text_call]⟩
      · rw [List.append_assoc] at h
        have hwide := (standsIn_of_mem_argumentSites (fun e he _ hs => ih e he hs) h).widen [')']
        simpa using hwide
  | _ =>
      cases h

theorem pairwise_argumentSites {es : List Expression}
    (ih : ∀ e ∈ es, ∀ before, (sites before e).Pairwise CallSite.Precedes) (before : Text) :
    (argumentSites before es).Pairwise CallSite.Precedes := by
  induction es generalizing before with
  | nil =>
      exact List.Pairwise.nil
  | cons e es ihes =>
      rw [List.forall_mem_cons] at ih
      refine List.pairwise_append.2 ⟨ih.1 before, ihes ih.2 _, ?_⟩
      intro s hs t ht
      have hleft := (standsIn_of_mem_sites hs).bounds
      have hright :=
        (standsIn_of_mem_argumentSites (fun _ _ _ h => standsIn_of_mem_sites h) ht).bounds
      simp only [Text.byteSize_append] at hright
      unfold CallSite.Precedes
      omega

/-- The calls in an expression are listed in the order in which they start. -/
theorem pairwise_sites (e : Expression) (before : Text) :
    (sites before e).Pairwise CallSite.Precedes := by
  induction e generalizing before with
  | operation left operator right ihl ihr =>
      refine List.pairwise_append.2 ⟨ihl _, ihr _, ?_⟩
      intro s hs t ht
      have hleft := (standsIn_of_mem_sites hs).bounds
      have hright := (standsIn_of_mem_sites ht).bounds
      simp only [Text.byteSize_append, Text.byteSize_cons, Text.byteSize_nil] at hleft hright
      unfold CallSite.Precedes
      omega
  | call library name args ih =>
      refine List.pairwise_cons.2 ⟨?_, pairwise_argumentSites (fun e he b => ih e he b) _⟩
      intro t ht
      have hargs :=
        (standsIn_of_mem_argumentSites (fun _ _ _ h => standsIn_of_mem_sites h) ht).bounds
      have hparen : Char.utf8Size '(' = 1 := by decide
      simp only [Text.byteSize_append, Text.byteSize_cons, Text.byteSize_nil] at hargs
      show Text.byteSize before < Text.byteSize t.before
      omega
  | _ =>
      exact List.Pairwise.nil

/-- The library of a call in an expression is one that the expression refers to. -/
theorem mem_libraries_of_mem_sites {s : CallSite} {e : Expression} {before : Text}
    (h : s ∈ sites before e) : s.library.text ∈ e.libraries := by
  induction e generalizing before with
  | operation left operator right ihl ihr =>
      rw [libraries]
      rcases List.mem_append.1 h with h | h
      · exact List.mem_append_left _ (ihl h)
      · exact List.mem_append_right _ (ihr h)
  | call library name args ih =>
      have inside : ∀ (es : List Expression) (before : Text), (∀ e ∈ es, e ∈ args) →
          s ∈ argumentSites before es → s.library.text ∈ es.flatMap libraries := by
        intro es
        induction es with
        | nil =>
            intro before _ h
            cases h
        | cons e es ihes =>
            intro before hes h
            rw [List.forall_mem_cons] at hes
            rw [List.flatMap_cons]
            rcases List.mem_append.1 h with h | h
            · exact List.mem_append_left _ (ih e hes.1 h)
            · exact List.mem_append_right _ (ihes _ hes.2 h)
      rw [libraries, librariesOf_eq_flatMap]
      rcases List.mem_cons.1 h with rfl | h
      · exact List.mem_cons_self
      · exact List.mem_cons_of_mem _ (inside args _ (fun _ => id) h)
  | _ =>
      cases h

end Expression
end DspCheck
