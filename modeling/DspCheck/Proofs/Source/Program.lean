import DspCheck.Proofs.Fallible
import DspCheck.Proofs.Text.Lines
import DspCheck.Proofs.Text.Place
import DspCheck.Source.Program

/-!
# Programs and the lines of their sources

A program that could be read has the lines of its source, and on each of them the references that
the scanner finds in its masked form (`line_of_mem_ofSource`).  So a change of the lines that keeps
their masked forms keeps the references (`mapM_ofLine_map`).

`Line.Stands` says what the number and the offset of a line mean: the offset counts the bytes before
the line, and the number counts the line feeds before it.  All lines of a program stand in it
(`exists_stands`).  So a diagnostic that a line puts at some bytes of it is the diagnostic put at a
text of the program (`Stands.place_eq`).
-/

namespace DspCheck

namespace ProgramLine

theorem of_ofLine_eq_ok {line : Line} {l : ProgramLine} (h : ofLine line = .ok l) :
    l.toLine = line ∧ Reference.scan line.code = .ok l.references := by
  rw [ofLine] at h
  cases hscan : Reference.scan line.code with
  | error e =>
      rw [hscan] at h
      cases h
  | ok references =>
      rw [hscan] at h
      cases h
      exact ⟨rfl, rfl⟩

/-- A line of a program that is changed and keeps its references. -/
def mapLine (g : Line → Line) (l : ProgramLine) : ProgramLine :=
  { l with toLine := g l.toLine }

theorem ofLine_map {g : Line → Line} (hg : ∀ l, (g l).code = l.code) (l : Line) :
    ofLine (g l) = (ofLine l).map (mapLine g) := by
  rw [ofLine, ofLine, hg]
  cases Reference.scan l.code <;> rfl

end ProgramLine

namespace Program

theorem map_toLine_of_ofSource {source : Text} {p : Program} (hp : ofSource source = .ok p) :
    p.map ProgramLine.toLine = Line.ofSource source :=
  map_eq_of_mapM_ok (fun _ _ h => (ProgramLine.of_ofLine_eq_ok h).1) hp

/-- The lines of a program are those of its source, with the references on them. -/
theorem line_of_mem_ofSource {source : Text} {p : Program} (hp : ofSource source = .ok p)
    {l : ProgramLine} (hl : l ∈ p) :
    l.toLine ∈ Line.ofSource source ∧ Reference.scan l.code = .ok l.references := by
  obtain ⟨line, hline, hl⟩ := exists_mem_of_mapM_ok hp hl
  obtain ⟨rfl, hscan⟩ := ProgramLine.of_ofLine_eq_ok hl
  exact ⟨hline, hscan⟩

/-- Lines that are changed and keep their masked forms keep the references on them. -/
theorem mapM_ofLine_map {g : Line → Line} (hg : ∀ l, (g l).code = l.code) (ls : List Line) :
    (ls.map g).mapM ProgramLine.ofLine =
      (ls.mapM ProgramLine.ofLine).map (List.map (ProgramLine.mapLine g)) := by
  rw [List.mapM_map, ← mapM_map_except]
  congr 1
  exact funext fun l => ProgramLine.ofLine_map hg l

end Program

/-! ## Where the lines stand -/

namespace Line

/-- A line stands in a program between two texts. -/
structure Stands (l : Line) (source before behind : Text) : Prop where
  split : source = before ++ l.text ++ behind
  offset : l.offset = Text.byteSize before
  number : l.number = Text.lineBehind before
  /-- The text before the line is empty or ends in a line feed. -/
  start : Text.lastLine before = []
  noBreak : '\n' ∉ l.text
  masked : ∃ mode, l.code = Text.mask mode l.text

/-- The lines from a given place on stand in the program, if the number and the offset fit the text
before that place. -/
theorem exists_stands_of_mem_linesFrom {source : Text} {raws : List Text} {l : Line}
    {number offset depth : Nat} {mode : Mode} (before : Text)
    (hsplit : source = before ++ Text.join "\n" raws)
    (hoffset : offset = Text.byteSize before) (hnumber : number = Text.lineBehind before)
    (hstart : Text.lastLine before = []) (hraws : ∀ raw ∈ raws, '\n' ∉ raw)
    (hl : l ∈ linesFrom number offset depth mode raws) :
    ∃ before behind, l.Stands source before behind := by
  induction raws generalizing number offset depth mode before with
  | nil =>
      cases hl
  | cons raw raws ih =>
      have hraw : '\n' ∉ raw := hraws raw List.mem_cons_self
      have hrest : ∀ raw ∈ raws, '\n' ∉ raw :=
        fun raw' h => hraws raw' (List.mem_cons_of_mem raw h)
      rcases List.mem_cons.1 hl with rfl | hl
      · -- the line itself: what is behind it starts with its carriage return
        refine ⟨before, Text.lineEnd raw ++ raws.flatMap (("\n" : Text) ++ ·), ?_, hoffset, hnumber,
          hstart, Text.notMem_dropReturn hraw, mode, rfl⟩
        rw [hsplit, Text.join_cons, List.append_assoc before,
          ← List.append_assoc (Text.dropReturn raw), Text.dropReturn_append_lineEnd]
      · cases raws with
        | nil =>
            cases hl
        | cons next raws =>
            refine ih (before ++ raw ++ ['\n']) ?_ ?_ ?_ ?_ hrest hl
            · rw [hsplit, Text.join_cons_cons]
              simp
            · rw [hoffset, Text.byteSize_append, Text.byteSize_append]
              rfl
            · rw [hnumber, Text.lineBehind_newline hraw]
            · exact Text.lastLine_append_newline _

/-- Every line of a program stands in it. -/
theorem exists_stands {source : Text} {l : Line} (hl : l ∈ ofSource source) :
    ∃ before behind, l.Stands source before behind :=
  exists_stands_of_mem_linesFrom [] (Text.join_rawLines source).symm rfl rfl rfl
    (fun _ h => Text.notMem_of_mem_rawLines h) hl

/-- What a line puts at the bytes of a part of it is put at that text of the program. -/
theorem Stands.place_eq {l : Line} {source before behind : Text}
    (h : l.Stands source before behind) (d : Diagnostic) {front under rest : Text}
    (htext : l.text = front ++ under ++ rest) :
    l.place d (Text.byteSize front) (Text.byteSize front + Text.byteSize under) =
      d.putAt (before ++ front) under := by
  have hfront : '\n' ∉ front := by
    intro hmem
    exact h.noBreak (htext ▸ List.mem_append_left _ (List.mem_append_left _ hmem))
  have hcolumn : l.column (Text.byteSize front) = Text.columnBehind (before ++ front) := by
    rw [column, htext, List.append_assoc, Text.scalarsBefore_append, Text.columnBehind,
      Text.lastLine_append h.start hfront, Nat.add_comm]
  rw [place, Diagnostic.putAt, hcolumn, h.number, h.offset, Text.lineBehind_append hfront,
    Text.byteSize_append, Nat.add_assoc]

end Line

end DspCheck
