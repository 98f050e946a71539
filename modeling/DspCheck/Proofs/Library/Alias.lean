import DspCheck.Library.Naming
import DspCheck.Proofs.Source.Statement
import DspCheck.Proofs.Text.Lines
import DspCheck.Proofs.Text.Word

/-!
# Short names read off lines

`Library.alias?` reads a line as it is written: the name before the first equals sign, and behind it
the word `library` with a file in parentheses and quotes.  This is how the line is read as one
statement, if the value loads a file (`alias?_of_binding?`, `exists_binding?_of_alias?`).

What stands behind the quotes does not matter (`exists_of_alias?`).  So it makes no difference
whether a carriage return at the end of the last line belongs to it (`filterMap_alias?_linesOf`).
-/

namespace DspCheck
namespace Library

/-- The file that a value such as `library("filters.lib")` loads. -/
def loadedFile? (value : Text) : Option Text := do
  let rest ← Text.after? "library" value
  let rest ← Text.after? "(" (Text.trimStart rest)
  let quoted ← Text.after? "\"" (Text.trimStart rest)
  let (file, _) ← Text.breakAt? "\"" quoted
  some file

/-- A value loads a file: its parts, with the blanks between them. -/
structure Loads (value file pad pad' rest : Text) : Prop where
  text : value = "library" ++ pad ++ '(' :: (pad' ++ '"' :: (file ++ '"' :: rest))
  blank_pad : ∀ c ∈ pad, Text.isBlank c = true
  blank_pad' : ∀ c ∈ pad', Text.isBlank c = true
  closed : '"' ∉ file

theorem loadedFile?_eq_some_iff {value file : Text} :
    loadedFile? value = some file ↔ ∃ pad pad' rest, Loads value file pad pad' rest := by
  have hopen : ∀ {t r : Text}, Text.trimStart t = "(" ++ r ↔
      ∃ pad, t = pad ++ '(' :: r ∧ ∀ c ∈ pad, Text.isBlank c = true :=
    Text.trimStart_eq_cons_iff rfl
  have hquote : ∀ {t r : Text}, Text.trimStart t = "\"" ++ r ↔
      ∃ pad, t = pad ++ '"' :: r ∧ ∀ c ∈ pad, Text.isBlank c = true :=
    Text.trimStart_eq_cons_iff rfl
  have hclose : ∀ {t b r : Text}, Text.breakAt? "\"" t = some (b, r) ↔
      t = b ++ '"' :: r ∧ '"' ∉ b :=
    Text.breakAt?_singleton_iff
  simp only [loadedFile?, Option.bind_eq_bind, Option.bind_eq_some_iff, Text.after?_eq_some_iff,
    Prod.exists, Option.some.injEq, hopen, hquote, hclose]
  constructor
  · rintro ⟨_, rfl, _, ⟨pad, rfl, hpad⟩, _, ⟨pad', rfl, hpad'⟩, _, rest, ⟨rfl, hclosed⟩, rfl⟩
    exact ⟨pad, pad', rest, by simp, hpad, hpad', hclosed⟩
  · rintro ⟨pad, pad', rest, rfl, hpad, hpad', hclosed⟩
    exact ⟨_, by simp, _, ⟨pad, rfl, hpad⟩, _, ⟨pad', rfl, hpad'⟩, _, rest, ⟨rfl, hclosed⟩, rfl⟩

variable {value file : Text}

theorem Loads.endsAt {pad pad' rest : Text} (h : Loads value file pad pad' rest) :
    Text.EndsAt Text.isBlank value := by
  rw [h.text, List.append_assoc]
  exact Text.endsAt_cons (by decide) _

theorem Loads.head?_ne {pad pad' rest : Text} (h : Loads value file pad pad' rest) :
    value.head? ≠ some '=' := by
  rw [h.text, List.append_assoc]
  exact fun h => absurd (Option.some.inj h) (by decide)

theorem alias?_eq_bind (line : Text) :
    alias? line = (Text.breakAt? "=" line).bind fun p =>
      (loadedFile? (Text.trimStart p.2)).bind fun file =>
        if Ident.isIdent (Text.trim p.1) then some (file, Text.trim p.1) else none := by
  simp only [alias?, loadedFile?, Option.bind_eq_bind, Option.bind_assoc, Option.bind_some]

variable {line name : Text} {depth : Nat} {b : Binding}

/-- A line that is one binding of a name to a file gives the name to the file. -/
theorem alias?_of_binding? (hb : Statement.binding? ⟨0, depth, line⟩ = some b)
    (hfile : loadedFile? b.value = some file) : alias? line = some (file, b.name) := by
  obtain ⟨indent, gap, pad, hbinds⟩ := Statement.exists_binds_of_binding? hb
  have hbreak : Text.breakAt? "=" line = some (indent ++ b.name ++ gap, pad ++ b.value) :=
    Text.breakAt?_singleton_iff.2 ⟨hbinds.text, hbinds.notMem rfl rfl⟩
  have hname : Text.trim b.name = b.name :=
    Text.trim_of_forall fun c hc =>
      Ident.not_isBlank_of_isPart (Ident.isPart_of_mem hbinds.isIdent hc)
  have htrim : Text.trim (indent ++ b.name ++ gap) = b.name :=
    Text.trim_between hbinds.blank_indent hbinds.blank_gap hname (Ident.ne_nil hbinds.isIdent)
  rw [alias?_eq_bind, hbreak, Option.bind_some, htrim, Text.trimStart,
    Text.dropWhile_run hbinds.blank_pad hbinds.value, hfile, Option.bind_some,
    if_pos hbinds.isIdent]

/-- A line is read as it is written as if it were one statement. -/
theorem exists_binding?_of_alias? (h : alias? line = some (file, name)) (depth : Nat) :
    ∃ b, Statement.binding? ⟨0, depth, line⟩ = some b ∧ b.name = name ∧
      loadedFile? b.value = some file := by
  rw [alias?_eq_bind] at h
  obtain ⟨⟨left, right⟩, hbreak, hright⟩ := Option.bind_eq_some_iff.1 h
  obtain ⟨file', hfile, hname⟩ := Option.bind_eq_some_iff.1 hright
  split at hname
  · next hident =>
      cases hname
      obtain ⟨rfl, -⟩ := Text.breakAt?_singleton_iff.1 hbreak
      obtain ⟨front, back, hleft, hfront, hback⟩ := Text.exists_trim_append left
      obtain ⟨_, _, _, hloads⟩ := loadedFile?_eq_some_iff.1 hfile
      have hvalue : right = right.takeWhile Text.isBlank ++ Text.trimStart right := by
        rw [Text.trimStart, List.takeWhile_append_dropWhile]
      have hpad : ∀ c ∈ right.takeWhile Text.isBlank, Text.isBlank c = true :=
        fun _ => List.mem_takeWhile_imp
      let b : Binding := {
        name := Text.trim left
        nameStart := Text.byteSize front
        value := Text.trimStart right
        valueStart := Text.byteSize
          (front ++ Text.trim left ++ back ++ '=' :: right.takeWhile Text.isBlank)
        depth }
      have hbinds : Statement.Binds ⟨0, depth, left ++ '=' :: right⟩ b front back
          (right.takeWhile Text.isBlank) :=
        { text := by rw [← hvalue, ← hleft]
          isIdent := hident
          blank_indent := hfront
          blank_gap := hback
          blank_pad := hpad
          value := Text.endsAt_dropWhile Text.isBlank right
          single := Text.head?_append_ne hpad (by decide) hloads.head?_ne
          nameStart := (Nat.zero_add _).symm
          valueStart := (Nat.zero_add _).symm
          depth := rfl }
      exact ⟨b, hbinds.binding?_eq, rfl, hfile⟩
  · cases hname

/-- What stands before the quotes of a declaration: whatever file stands between them, and whatever
behind, the text is the binding of the name to a value that loads the file. -/
structure IsFront (front : Text) (depth : Nat) (b : Binding) : Prop where
  chars : ∀ c ∈ front,
    Text.isBlank c = true ∨ Ident.isPart c = true ∨ c = '=' ∨ c = '('
  binding : ∀ file rest : Text, '"' ∉ file → ∃ value,
    Statement.binding? ⟨0, depth, front ++ '"' :: (file ++ '"' :: rest)⟩ = some { b with value } ∧
      loadedFile? value = some file

variable {front : Text}

theorem IsFront.notMem (h : IsFront front depth b) {c : Char}
    (hc : Text.isBlank c = false ∧ Ident.isPart c = false ∧ c ≠ '=' ∧ c ≠ '(') : c ∉ front := by
  intro hmem
  rcases h.chars c hmem with hblank | hpart | hequals | hopen
  · rw [hc.1] at hblank
    cases hblank
  · rw [hc.2.1] at hpart
    cases hpart
  · exact hc.2.2.1 hequals
  · exact hc.2.2.2 hopen

theorem IsFront.not_isEnd (h : IsFront front depth b) {c : Char} (hc : c ∈ front) :
    Statement.isEnd c = false := by
  by_contra hend
  rw [Bool.not_eq_false] at hend
  rcases Statement.cases_of_isEnd hend with rfl | rfl | rfl
  · exact h.notMem (by decide) hc
  · exact h.notMem (by decide) hc
  · exact h.notMem (by decide) hc

/-- A line that gives a name to a file has such a front. -/
theorem exists_isFront (hb : Statement.binding? ⟨0, depth, line⟩ = some b)
    (hfile : loadedFile? b.value = some file) :
    ∃ front rest, line = front ++ '"' :: (file ++ '"' :: rest) ∧ '"' ∉ file ∧
      IsFront front depth b := by
  obtain ⟨indent, gap, pad, hbinds⟩ := Statement.exists_binds_of_binding? hb
  obtain ⟨pad', pad'', rest, hloads⟩ := loadedFile?_eq_some_iff.1 hfile
  refine ⟨indent ++ b.name ++ gap ++ '=' :: (pad ++ ("library" ++ pad' ++ '(' :: pad'')), rest,
    ?_, hloads.closed, ?_, ?_⟩
  · have hline := hbinds.text
    rw [hloads.text] at hline
    simpa using hline
  · intro c hc
    simp only [List.mem_append, List.mem_cons] at hc
    rcases hc with ((hc | hc) | hc) | rfl | hc | (hc | hc) | rfl | hc
    · exact Or.inl (hbinds.blank_indent c hc)
    · exact Or.inr (Or.inl (Ident.isPart_of_mem hbinds.isIdent hc))
    · exact Or.inl (hbinds.blank_gap c hc)
    · exact Or.inr (Or.inr (Or.inl rfl))
    · exact Or.inl (hbinds.blank_pad c hc)
    · exact Or.inr (Or.inl (Ident.isPart_of_mem (t := "library") (by decide) hc))
    · exact Or.inl (hloads.blank_pad c hc)
    · exact Or.inr (Or.inr (Or.inr rfl))
    · exact Or.inl (hloads.blank_pad' c hc)
  · intro file' rest' hclosed
    have hloads' : Loads ("library" ++ pad' ++ '(' :: (pad'' ++ '"' :: (file' ++ '"' :: rest')))
        file' pad' pad'' rest' :=
      ⟨rfl, hloads.blank_pad, hloads.blank_pad', hclosed⟩
    have hbinds' := hbinds.withValue rfl hloads'.endsAt hloads'.head?_ne
    refine ⟨_, ?_, loadedFile?_eq_some_iff.2 ⟨_, _, _, hloads'⟩⟩
    simpa using hbinds'.binding?_eq

/-- What stands behind the quotes of a declaration does not matter. -/
theorem exists_of_alias? {e : Text × Text} (h : alias? line = some e) :
    ∃ front rest, line = front ++ '"' :: rest ∧
      ∀ rest', alias? (front ++ '"' :: rest') = some e := by
  obtain ⟨file, name⟩ := e
  obtain ⟨b, hb, rfl, hfile⟩ := exists_binding?_of_alias? h 0
  obtain ⟨front, rest, rfl, hclosed, hfront⟩ := exists_isFront hb hfile
  refine ⟨front ++ '"' :: file, rest, by simp, fun rest' => ?_⟩
  obtain ⟨value, hb', hload⟩ := hfront.binding file rest' hclosed
  have halias := alias?_of_binding? hb' hload
  rw [List.append_assoc, List.cons_append]
  exact halias

/-- What is behind a line does not matter either, unless it is a quote. -/
theorem alias?_concat {c : Char} (hc : c ≠ '"') (line : Text) :
    alias? (line ++ [c]) = alias? line := by
  refine Option.ext fun e => ⟨fun h => ?_, fun h => ?_⟩
  · obtain ⟨front, rest, hsplit, hall⟩ := exists_of_alias? h
    rcases List.eq_nil_or_concat rest with rfl | ⟨rest, d, rfl⟩
    · exact absurd (List.cons.inj (List.append_inj' hsplit rfl).2).1 hc
    · rw [List.concat_eq_append, ← List.cons_append, ← List.append_assoc] at hsplit
      rw [(List.append_inj' hsplit rfl).1]
      exact hall rest
  · obtain ⟨front, rest, rfl, hall⟩ := exists_of_alias? h
    rw [List.append_assoc, List.cons_append]
    exact hall (rest ++ [c])

theorem alias?_dropReturn (line : Text) : alias? (Text.dropReturn line) = alias? line := by
  have hline := Text.dropReturn_append_lineEnd line
  rcases Text.lineEnd_cases line with hend | hend
  · rw [hend, List.append_nil] at hline
    rw [hline]
  · rw [hend] at hline
    rw [← alias?_concat (c := '\r') (by decide), hline]

theorem filterMap_alias?_linesOf (raws : List Text) :
    (Text.linesOf raws).filterMap alias? =
      raws.filterMap fun raw => alias? (Text.dropReturn raw) := by
  induction raws with
  | nil =>
      rfl
  | cons raw raws ih =>
      cases raws with
      | nil =>
          simp only [alias?_dropReturn]
          rw [Text.linesOf]
          split
          · next hraw =>
              rw [hraw]
              rfl
          · rfl
      | cons next raws =>
          rw [Text.linesOf, List.filterMap_cons, List.filterMap_cons, ih]
          rintro ⟨⟩

end Library
end DspCheck
