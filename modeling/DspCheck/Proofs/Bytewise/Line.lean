import DspCheck.Proofs.Bytewise.Masking
import DspCheck.Proofs.Check.Places
import DspCheck.Proofs.Fallible
import DspCheck.Proofs.Source.Continuation

/-!
# Lines by their bytes

The statements of a line end at bytes, and a line is cut there.  The bytes of a character outside
ASCII are passed one by one, so every cut is between two characters (`statementsFrom?_eq_some`).
A binding is cut behind its name, and its value starts as many bytes before the end of the statement
as it has.

Main statements: `diagnostic?_eq_some` and `bindings?_eq_some`.
-/

namespace DspCheck
namespace Bytewise

open Text (minus? upTo? from? slice? byteSize)

/-! ## Columns -/

/-- The column of a position.  The scalars before it are counted in the line as it is written, or in
the masked line if the position is inside a character of the line. -/
def column? (l : Line) (position : Nat) : Option Nat :=
  match upTo? position l.text with
  | some before => some (before.length + 1)
  | none => (upTo? position l.code).map fun before => before.length + 1

theorem column?_eq_some {l : Line} {front rest : Text} (h : l.text = front ++ rest) :
    column? l (byteSize front) = some (l.column (byteSize front)) := by
  rw [column?, Line.column, h, Text.upTo?_append, Text.scalarsBefore_append]

/-- The diagnostic of a remark on a line. -/
def diagnostic? (l : Line) (m : Remark) : Option Diagnostic :=
  (column? l m.start).map fun column =>
    { m.finding.diagnostic with
      line := l.number
      column
      span? := some (Span.between (l.offset + m.start) (l.offset + m.stop)) }

theorem diagnostic?_eq_some {l : ProgramLine} {m : Remark} (h : m.IsOn l) :
    diagnostic? l.toLine m = some (m.diagnostic l.toLine) := by
  obtain ⟨front, under, rest, h⟩ := h
  have htext : l.text = front ++ (under ++ rest) := by rw [h.split, List.append_assoc]
  rw [diagnostic?, h.start, column?_eq_some htext, Remark.diagnostic, Line.place, h.start]
  rfl

/-! ## Statements -/

/-- The statement between two bytes of a masked line, unless it is blank. -/
def statement? (code : Text) (start stop depth : Nat) : Option (List Statement) :=
  (slice? start stop code).map fun text =>
    if Text.isAllBlank text then [] else [⟨start, depth, text⟩]

/-- The statements of a masked line from byte `start` on, of which the bytes before `index` are
read. -/
def statementsFrom? (code : Text) (start depth parens index : Nat) :
    List UInt8 → Option (List Statement)
  | [] => statement? code start index depth
  | b :: bs =>
      if Statement.isEnd (Char.ofUInt8 b) && parens = 0 then do
        let here ← statement? code start index depth
        let later ← statementsFrom? code (index + 1) (depthAfter depth (Char.ofUInt8 b)) parens
          (index + 1) bs
        some (here ++ later)
      else
        statementsFrom? code start depth (parensAfter parens (Char.ofUInt8 b)) (index + 1) bs

/-- The statements of a line. -/
def statements? (l : Line) : Option (List Statement) :=
  statementsFrom? l.code 0 l.depth 0 0 (Text.bytes l.code)

theorem inert_of_foreign {c : Char} (hc : Text.isAscii c = false) :
    Statement.isEnd c = false ∧ ∀ parens, parensAfter parens c = parens := by
  have hne : ∀ d, Text.isAscii d = true → c ≠ d := by
    rintro d hd rfl
    rw [hd] at hc
    cases hc
  refine ⟨?_, fun parens => ?_⟩
  · simp [Statement.isEnd, hne ';' rfl, hne '{' rfl, hne '}' rfl]
  · rw [parensAfter, if_neg (hne '(' rfl), if_neg (hne ')' rfl)]

/-- The search passes bytes that are no characters of ASCII. -/
theorem statementsFrom?_foreign {bs : List UInt8}
    (h : ∀ b ∈ bs, Text.isAscii (Char.ofUInt8 b) = false) (code : Text)
    (start depth parens index : Nat) (rest : List UInt8) :
    statementsFrom? code start depth parens index (bs ++ rest) =
      statementsFrom? code start depth parens (index + bs.length) rest := by
  induction bs generalizing index with
  | nil =>
      rfl
  | cons b bs ih =>
      rw [List.forall_mem_cons] at h
      obtain ⟨hend, hparens⟩ := inert_of_foreign h.1
      rw [List.cons_append, statementsFrom?, hend, Bool.false_and, if_neg Bool.false_ne_true,
        hparens, ih h.2, List.length_cons, Nat.add_assoc, Nat.add_comm 1]

/-- A character that ends no statement is passed. -/
theorem statementsFrom?_character {c : Char} {parens : Nat}
    (h : (Statement.isEnd c && decide (parens = 0)) = false) (code : Text)
    (start depth index : Nat) (rest : List UInt8) :
    statementsFrom? code start depth parens index (String.utf8EncodeChar c ++ rest) =
      statementsFrom? code start depth (parensAfter parens c) (index + c.utf8Size) rest := by
  rcases Text.encode_cases c with ⟨hascii, b, hb, hchar⟩ | ⟨hforeign, hbytes⟩
  · rw [hb, List.singleton_append, statementsFrom?, hchar, h, if_neg Bool.false_ne_true,
      Text.utf8Size_of_isAscii hascii]
  · rw [statementsFrom?_foreign hbytes, String.length_utf8EncodeChar,
      (inert_of_foreign hforeign).2]

/-- At a character that ends a statement the line is cut. -/
theorem statementsFrom?_end {c : Char} {parens : Nat}
    (h : (Statement.isEnd c && decide (parens = 0)) = true) (code : Text)
    (start depth index : Nat) (rest : List UInt8) :
    statementsFrom? code start depth parens index (String.utf8EncodeChar c ++ rest) =
      (statement? code start index depth).bind fun here =>
        (statementsFrom? code (index + c.utf8Size) (depthAfter depth c) parens
          (index + c.utf8Size) rest).bind fun later => some (here ++ later) := by
  rcases Text.encode_cases c with ⟨hascii, b, hb, hchar⟩ | ⟨hforeign, -⟩
  · rw [hb, List.singleton_append, statementsFrom?, hchar, h, if_pos rfl,
      Text.utf8Size_of_isAscii hascii]
    rfl
  · rw [(inert_of_foreign hforeign).1] at h
    cases h

theorem statement?_eq_some (a s t : Text) (depth : Nat) :
    statement? (a ++ (s ++ t)) (byteSize a) (byteSize a + byteSize s) depth =
      some ([⟨byteSize a, depth, s⟩].filter fun s => !Text.isAllBlank s.text) := by
  rw [statement?, Text.slice?_append, Option.map_some, List.filter_cons, List.filter_nil]
  cases Text.isAllBlank s <;> rfl

/-- A character that ends no statement belongs to the current one. -/
theorem modifyHead_piecesFrom_cons {c : Char} {parens : Nat}
    (h : (Statement.isEnd c && decide (parens = 0)) = false) (start depth position : Nat)
    (s t : Text) :
    (Statement.piecesFrom position depth parens (c :: t)).modifyHead
        (Statement.andThen ⟨start, depth, s⟩) =
      (Statement.piecesFrom (position + c.utf8Size) depth (parensAfter parens c) t).modifyHead
        (Statement.andThen ⟨start, depth, s ++ [c]⟩) := by
  have hhead : Statement.andThen ⟨start, depth, s⟩ ∘ Statement.extend c position =
      Statement.andThen ⟨start, depth, s ++ [c]⟩ := by
    funext r
    simp [Statement.andThen, Statement.extendBehind, Statement.extend]
  rw [Statement.piecesFrom, h, if_neg Bool.false_ne_true, List.modifyHead_modifyHead, hhead]

/-- Every cut is at the end of a statement. -/
theorem statementsFrom?_eq_some (a s t : Text) (depth parens : Nat) :
    statementsFrom? (a ++ (s ++ t)) (byteSize a) depth parens (byteSize a + byteSize s)
        (Text.bytes t) =
      some (((Statement.piecesFrom (byteSize a + byteSize s) depth parens t).modifyHead
        (Statement.andThen ⟨byteSize a, depth, s⟩)).filter fun s => !Text.isAllBlank s.text) := by
  induction t generalizing a s depth parens with
  | nil =>
      rw [Text.bytes_nil, statementsFrom?, statement?_eq_some, Statement.piecesFrom,
        List.modifyHead_cons, Statement.andThen, Statement.extendBehind, List.append_nil]
  | cons c t ih =>
      have hsize : byteSize a + byteSize s + c.utf8Size = byteSize a + byteSize (s ++ [c]) := by
        rw [Text.byteSize_append, Nat.add_assoc]
        rfl
      rw [Text.bytes_cons]
      cases hend : Statement.isEnd c && decide (parens = 0) with
      | false =>
          have hlater := ih a (s ++ [c]) depth (parensAfter parens c)
          rw [List.append_assoc, List.singleton_append] at hlater
          rw [statementsFrom?_character hend, modifyHead_piecesFrom_cons hend, hsize, hlater]
      | true =>
          have hlater := ih (a ++ (s ++ [c])) [] (depthAfter depth c) parens
          rw [Text.byteSize_nil, Nat.add_zero, Statement.modifyHead_andThen_empty,
            List.nil_append, List.append_assoc, List.append_assoc, List.singleton_append,
            Text.byteSize_append] at hlater
          rw [statementsFrom?_end hend, statement?_eq_some, hsize, hlater, Statement.piecesFrom,
            hend, if_pos rfl, hsize, Option.bind_some, Option.bind_some, List.modifyHead_cons,
            Statement.andThen, Statement.extendBehind, List.append_nil, ← List.filter_append,
            List.singleton_append]

theorem statements?_eq_some (l : Line) : statements? l = some l.statements := by
  have h := statementsFrom?_eq_some [] [] l.code l.depth 0
  rwa [Text.byteSize_nil, Nat.add_zero, Statement.modifyHead_andThen_empty] at h

/-! ## Bindings -/

/-- The number of bytes of the identifier at the start of a text. -/
def identSize (t : Text) : Nat :=
  if (Text.bytes t).head?.any (Text.byteIs Ident.isStart) then Text.runSize Ident.isPart t else 0

theorem isAsciiClass_isPart : Text.IsAsciiClass Ident.isPart :=
  fun _ => Ident.isAscii_of_isPart

theorem isAsciiClass_isStart : Text.IsAsciiClass Ident.isStart :=
  fun _ hc => Ident.isAscii_of_isPart (Ident.isPart_of_isStart hc)

theorem identSize_eq (t : Text) : identSize t = byteSize (Ident.leading t) := by
  rw [identSize, Text.any_head?_bytes isAsciiClass_isStart, Text.runSize_eq isAsciiClass_isPart]
  cases t with
  | nil =>
      rfl
  | cons c t =>
      rw [List.head?_cons, Option.any_some, Ident.leading]
      split
      · next hc =>
          rw [List.takeWhile_cons_of_pos (Ident.isPart_of_isStart hc)]
      · rfl

theorem startsWith_char (c : Char) (t : Text) :
    Text.startsWith [c] t = decide (t.head? = some c) := by
  cases t with
  | nil =>
      rfl
  | cons d t =>
      by_cases h : c = d
      · subst h
        simp [Text.startsWith, Text.after?]
      · simp [Text.startsWith, Text.after?, h, Ne.symm h]

/-- The binding that a statement is. -/
def binding? (s : Statement) : Option (Option Binding) := do
  let nameStart ← minus? (byteSize s.text) (byteSize (Text.trimStart s.text))
  let body ← from? nameStart s.text
  if identSize body = 0 then some none
  else
    let name ← upTo? (identSize body) body
    let behind ← from? (identSize body) body
    match Text.after? "=" (Text.trimStart behind) with
    | none => some none
    | some rest =>
        if Text.startsWith "=" rest then some none
        else
          let value := Text.trimStart rest
          let valueStart ← minus? (byteSize s.text) (byteSize value)
          some (some {
            name
            nameStart := s.start + nameStart
            value
            valueStart := s.start + valueStart
            depth := s.depth })

/-- Where the value behind an equals sign starts. -/
theorem minus?_value (front rest : Text) :
    minus? (byteSize (front ++ '=' :: rest)) (byteSize (Text.trimStart rest)) =
      some (byteSize front + 1 + byteSize (rest.takeWhile Text.isBlank)) := by
  have hsplit : front ++ '=' :: rest =
      front ++ ('=' :: rest.takeWhile Text.isBlank) ++ Text.trimStart rest := by
    rw [Text.trimStart, List.append_assoc, List.cons_append, List.takeWhile_append_dropWhile]
  have hequals : Char.utf8Size '=' = 1 := rfl
  rw [hsplit, Text.minus?_append, Text.byteSize_append, Text.byteSize_cons, hequals, Nat.add_assoc]

theorem binding?_eq_some (s : Statement) : binding? s = some s.binding? := by
  obtain ⟨indent, hindent⟩ : ∃ indent, s.text.takeWhile Text.isBlank = indent := ⟨_, rfl⟩
  obtain ⟨body, hbody⟩ : ∃ body, s.text.dropWhile Text.isBlank = body := ⟨_, rfl⟩
  obtain ⟨behind, hbehind⟩ : ∃ behind, body.drop (Ident.leading body).length = behind := ⟨_, rfl⟩
  have htext : s.text = indent ++ body := by
    rw [← hindent, ← hbody, List.takeWhile_append_dropWhile]
  have hsplit : body = Ident.leading body ++ behind := by
    rw [← hbehind, Ident.leading_append_drop]
  have hnameStart : minus? (byteSize s.text) (byteSize (Text.trimStart s.text)) =
      some (byteSize indent) := by
    rw [Text.trimStart, Text.minus?_dropWhile, hindent]
  have hcut : from? (byteSize indent) s.text = some body := by
    rw [htext, Text.from?_append]
  have hname := Text.upTo?_append (Ident.leading body) behind
  have hrest := Text.from?_append (Ident.leading body) behind
  rw [← hsplit] at hname hrest
  simp only [binding?, hnameStart, hcut, Option.bind_eq_bind, Option.bind_some, identSize_eq]
  unfold Statement.binding?
  simp only [hindent, hbody, hbehind]
  by_cases hnil : Ident.leading body = []
  · rw [hnil, Text.byteSize_nil, if_pos rfl]
    split <;> rfl
  · have hsize : byteSize (Ident.leading body) ≠ 0 := Nat.ne_of_gt (Text.byteSize_pos hnil)
    rw [if_neg hsize, hname, hrest, Option.bind_some, Option.bind_some, Text.trimStart]
    cases hequals : behind.dropWhile Text.isBlank with
    | nil =>
        rfl
    | cons c rest =>
        by_cases hc : c = '='
        · subst hc
          have hvalue : s.text =
              indent ++ (Ident.leading body ++ behind.takeWhile Text.isBlank) ++ '=' :: rest := by
            rw [← hequals, List.append_assoc, List.append_assoc, List.takeWhile_append_dropWhile,
              ← hsplit, ← htext]
          have hvalueStart := minus?_value
            (indent ++ (Ident.leading body ++ behind.takeWhile Text.isBlank)) rest
          rw [← hvalue] at hvalueStart
          have hafter : Text.after? "=" ('=' :: rest) = some rest :=
            (if_pos rfl).trans (Text.after?_nil rest)
          have hdouble : Text.startsWith "=" rest = decide (rest.head? = some '=') :=
            startsWith_char '=' rest
          simp only [hafter, hdouble, hvalueStart, hnil, decide_false, Bool.false_or]
          split
          · rfl
          · simp only [Option.bind_some, Text.byteSize_append, Nat.add_assoc]
        · have hafter : Text.after? "=" (c :: rest) = none := if_neg (Ne.symm hc)
          simp only [hafter]
          split
          · next heq =>
              exact absurd (List.cons.inj heq).1 hc
          · rfl

/-- The bindings of a line. -/
def bindings? (l : Line) : Option (List Binding) :=
  (statements? l).bind (List.filterMapM binding?)

theorem bindings?_eq_some (l : Line) : bindings? l = some l.bindings := by
  rw [bindings?, statements?_eq_some, Option.bind_some]
  exact filterMapM_eq_some fun s _ => binding?_eq_some s

end Bytewise
end DspCheck
