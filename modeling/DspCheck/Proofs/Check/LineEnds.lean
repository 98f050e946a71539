import DspCheck.Library.File
import DspCheck.Proofs.Check.ImportLine
import DspCheck.Proofs.Check.Inertness
import DspCheck.Proofs.Text.Returns

/-!
# The ends of lines do not matter

If a carriage return is put before each line feed of a program, its lines stay as they are, and each
one stands as many bytes further behind as there are lines before it (`Line.ofSource_withReturns`).
The verdict about a program whose lines are moved is the same, with its diagnostics moved
(`Program.verdict_mapLine`).

A library is read line by line, and its lines are the same.

Main statement: `validate_and_read_withReturns`.
-/

namespace DspCheck

/-! ## Verdicts about programs with moved lines -/

namespace Line

/-- Which words stand on a line depends on its masked form. -/
theorem mentions_of_code {l l' : Line} (h : l'.code = l.code) (words : List Text) :
    l'.mentions words = l.mentions words := by
  rw [mentions, h, mentions]

/-- What is suggested about a line depends on its masked form and its number. -/
theorem divisionAdvice?_congr {l l' : Line} (hcode : l'.code = l.code)
    (hnumber : l'.number = l.number) (rules : Rules) :
    l'.divisionAdvice? rules = l.divisionAdvice? rules := by
  have hguard : l'.guardDivision = l.guardDivision := by
    funext divisor
    rw [guardDivision_eq, guardDivision_eq, hnumber]
  rw [divisionAdvice?, mentions_of_code hcode, hcode, hguard, divisionAdvice?]

end Line

namespace Program

variable {c : Catalog} {rules : Rules} {g : Line → Line} {move : Diagnostic → Diagnostic}

theorem checkImport?_mapLine (h : Line.IsMove g move) (p : Program) :
    checkImport? c rules (p.map (ProgramLine.mapLine g)) =
      (p.checkImport? c rules).map move := by
  have himport : hasImport rules (p.map (ProgramLine.mapLine g)) = p.hasImport rules := by
    rw [hasImport, hasImport, List.any_map]
    exact congrArg p.any (funext fun l => Line.mentions_of_code (h.code l.toLine) rules.imports)
  have hline : ∀ l : ProgramLine, firstKnown? c (l.mapLine g) = (firstKnown? c l).map move := by
    intro l
    rw [firstKnown?, firstKnown?, Option.map_map]
    exact Option.map_congr fun r _ => h.place l.toLine _ _ _
  rw [checkImport?, checkImport?, himport]
  split
  · rfl
  · rw [List.findSome?_map, List.map_findSome?]
    exact congrArg (p.findSome? ·) (funext hline)

theorem bindings_mapLine (h : Line.IsMove g move) (hdepth : ∀ l, (g l).depth = l.depth)
    (p : Program) : bindings (p.map (ProgramLine.mapLine g)) = p.bindings := by
  rw [bindings, bindings, List.flatMap_map]
  refine List.flatMap_congr fun l _ => ?_
  have hcode : (l.mapLine g).code = l.code := h.code l.toLine
  have hdepth : (l.mapLine g).depth = l.depth := hdepth l.toLine
  rw [Line.bindings, Line.statements, hcode, hdepth]
  rfl

theorem checkEntryPoint?_mapLine (h : Line.IsMove g move) (hdepth : ∀ l, (g l).depth = l.depth)
    (hplain : ∀ f : Finding, move f.diagnostic = f.diagnostic) (p : Program) :
    checkEntryPoint? rules (p.map (ProgramLine.mapLine g)) =
      (p.checkEntryPoint? rules).map move := by
  rw [checkEntryPoint?, checkEntryPoint?, definesAtTop, definesAtTop, bindings_mapLine h hdepth]
  split
  · rfl
  · rw [Option.map_some, hplain]

theorem divisionAdvice_mapLine (h : Line.IsMove g move) (hnumber : ∀ l, (g l).number = l.number)
    (p : Program) :
    divisionAdvice rules (p.map (ProgramLine.mapLine g)) = p.divisionAdvice rules := by
  rw [divisionAdvice, divisionAdvice, List.filterMap_map]
  exact List.filterMap_congr fun l _ =>
    Line.divisionAdvice?_congr (h.code l.toLine) (hnumber l.toLine) rules

/-- The verdict about a program whose lines are moved, if the move keeps their numbers and depths,
and what is not about a place. -/
theorem verdict_mapLine (h : Line.IsMove g move) (hdepth : ∀ l, (g l).depth = l.depth)
    (hnumber : ∀ l, (g l).number = l.number) (herror : ∀ d, (move d).isError = d.isError)
    (hplain : ∀ f : Finding, move f.diagnostic = f.diagnostic) (p : Program) :
    verdict c rules (p.map (ProgramLine.mapLine g)) =
      (p.verdict c rules).mapDiagnostics move := by
  have hdiagnostics : diagnostics c rules (p.map (ProgramLine.mapLine g)) =
      (p.diagnostics c rules).map move := by
    rw [diagnostics, diagnostics, check_mapLine h, checkDelays_mapLine h, checkImport?_mapLine h,
      checkEntryPoint?_mapLine h hdepth hplain, Option.toList_map, Option.toList_map,
      List.map_append, List.map_append, List.map_append]
  rw [verdict, verdict, hdiagnostics, Diagnostic.divide_map herror,
    divisionAdvice_mapLine h hnumber]
  rfl

end Program

/-! ## Lines of programs -/

/-- A diagnostic of a program with a carriage return before each line feed. -/
def Diagnostic.behindReturns (d : Diagnostic) : Diagnostic :=
  { d with span? := d.span?.map (Span.shift (d.line - 1)) }

namespace Line

/-- A line behind as many carriage returns as there are lines before it. -/
def behindReturns (l : Line) : Line :=
  { l with offset := (l.number - 1) + l.offset }

theorem isMove_behindReturns : IsMove behindReturns Diagnostic.behindReturns where
  code _ := rfl
  place l d start stop := by
    simp only [place, Diagnostic.behindReturns, behindReturns, Option.map_some,
      Span.shift_between, Nat.add_assoc]
    rfl

/-- Before the line of number `number + 1` there are `number` carriage returns. -/
theorem linesFrom_returned {raws : List Text} (h : ∀ raw ∈ raws, '\r' ∉ raw)
    (number offset depth : Nat) (mode : Mode) :
    linesFrom (number + 1) (number + offset) depth mode (Text.returned raws) =
      (linesFrom (number + 1) offset depth mode raws).map behindReturns := by
  induction raws generalizing number offset depth mode with
  | nil =>
      rfl
  | cons raw raws ih =>
      rw [List.forall_mem_cons] at h
      cases raws with
      | nil =>
          rfl
      | cons next raws =>
          have hoffset : number + offset + Text.byteSize (raw ++ ['\r']) + 1 =
              (number + 1) + (offset + Text.byteSize raw + 1) := by
            rw [Text.byteSize_append, show Text.byteSize ['\r'] = 1 from rfl]
            omega
          rw [Text.returned, linesFrom, linesFrom, List.map_cons, Text.dropReturn_concat_return h.1,
            hoffset, ih h.2]
          rfl

/-- The lines of a program with a carriage return before each line feed. -/
theorem ofSource_withReturns {source : Text} (h : '\r' ∉ source) :
    ofSource (Text.withReturns source) = (ofSource source).map behindReturns := by
  rw [ofSource, Text.rawLines_withReturns, ofSource]
  exact linesFrom_returned (fun _ => Text.notMem_of_mem_rawLines_of_notMem h) 0 0 0 .code

end Line

/-- The verdict about a program with a carriage return before each line feed. -/
theorem validate_withReturns {source : Text} (h : '\r' ∉ source) (c : Catalog) (rules : Rules) :
    validate c rules (Text.withReturns source) =
      (validate c rules source).map (Verdict.mapDiagnostics Diagnostic.behindReturns) := by
  have hprogram : Program.ofSource (Text.withReturns source) =
      (Program.ofSource source).map (List.map (ProgramLine.mapLine Line.behindReturns)) := by
    rw [Program.ofSource, Line.ofSource_withReturns h, Program.ofSource]
    exact Program.mapM_ofLine_map Line.isMove_behindReturns.code _
  rw [validate, validate, hprogram]
  cases Program.ofSource source with
  | error e =>
      rfl
  | ok p =>
      exact congrArg Except.ok (Program.verdict_mapLine Line.isMove_behindReturns (fun _ => rfl)
        (fun _ => rfl) (fun _ => rfl) (fun _ => rfl) p)

/-- A library is read from its lines. -/
theorem LibraryFile.read_of_lines {t t' : Text} (h : Text.lines t' = Text.lines t)
    (limits : DocLimits) (file : Text) (aliases : OrderedMap Text Text) :
    read limits file t' aliases = read limits file t aliases := by
  rw [read, read, nameOf?, nameOf?, Library.declaredName?, Library.declaredName?,
    DocSection.ofSource, DocSection.ofSource, h]

/-- The ends of lines do not matter: if a carriage return is put before each line feed of a text
without carriage returns, then as a program the text is judged in the same way, and each place
stands as many bytes further behind as there are lines before it; and as a library it is read in the
same way. -/
theorem validate_and_read_withReturns {t : Text} (h : '\r' ∉ t) :
    (∀ c rules, validate c rules (Text.withReturns t) =
      (validate c rules t).map (Verdict.mapDiagnostics Diagnostic.behindReturns)) ∧
    ∀ limits file aliases, LibraryFile.read limits file (Text.withReturns t) aliases =
      LibraryFile.read limits file t aliases :=
  ⟨validate_withReturns h, LibraryFile.read_of_lines (Text.lines_withReturns h)⟩

/-- A library with one function, which is a program with a comment over the end of a line. -/
def commentedGain : Text :=
  "// prefix: fi\n//---gain---\ns = \"é\"; /* a\n*/ gain(k) = xy.z(k);"

/-- The places on the third and the fourth line stand behind two and three carriage returns. -/
theorem validate_and_read_withReturns_commentedGain :
    '\r' ∉ commentedGain ∧
    ∃ v v' : Verdict, validate .empty .standard commentedGain = .ok v ∧
      v.errors.map (fun d => (d.line, d.span?.map Span.start)) = [(3, some 31), (0, none)] ∧
      v.warnings.map (fun d => (d.line, d.span?.map Span.start)) = [(4, some 55)] ∧
      validate .empty .standard (Text.withReturns commentedGain) = .ok v' ∧
      v' = v.mapDiagnostics Diagnostic.behindReturns ∧
      v'.errors.map (fun d => (d.line, d.span?.map Span.start)) = [(3, some 33), (0, none)] ∧
      v'.warnings.map (fun d => (d.line, d.span?.map Span.start)) = [(4, some 58)] ∧
      LibraryFile.read .standard "g.lib" (Text.withReturns commentedGain) .empty =
        LibraryFile.read .standard "g.lib" commentedGain .empty := by
  have hreturns : '\r' ∉ commentedGain := by
    decide +kernel
  obtain ⟨hvalidate, hread⟩ := validate_and_read_withReturns hreturns
  have hv : validate .empty .standard commentedGain = .ok ⟨
      [(Finding.stringAssignment "s").diagnostic.putAt
          "// prefix: fi\n//---gain---\ns = " "\"é\"",
        (Finding.missingEntryPoint "process").diagnostic],
      [(Finding.unknownLibrary "xy" []).diagnostic.putAt
          "// prefix: fi\n//---gain---\ns = \"é\"; /* a\n*/ gain(k) = " "xy"], []⟩ := by
    decide +kernel
  exact ⟨hreturns, _, _, hv, by decide +kernel, by decide +kernel,
    (hvalidate .empty .standard).trans (congrArg (Except.map _) hv), rfl, by decide +kernel,
    by decide +kernel, hread .standard "g.lib" .empty⟩

end DspCheck
