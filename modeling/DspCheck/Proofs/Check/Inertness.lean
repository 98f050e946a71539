import DspCheck.Check.Validation
import DspCheck.Proofs.Source.Blanking
import DspCheck.Proofs.Source.Program

/-!
# Comments and the contents of strings are inert

All checks read the masked lines of a program, so its blanked form is judged as the program is.  The
one thing that reads a line as it is written is the count of its columns, and this agrees if all
that is hidden is ASCII.

Main statement: `validate_blank`.
-/

namespace DspCheck

namespace Diagnostic

/-- A diagnostic of which the column is not told. -/
def withoutColumn (d : Diagnostic) : Diagnostic :=
  { d with column := 0 }

/-- Two lists that agree after a change of the diagnostics are divided alike. -/
theorem map_divide {f : Diagnostic → Diagnostic} (hf : ∀ d, (f d).isError = d.isError)
    {ds ds' : List Diagnostic} (h : ds.map f = ds'.map f) :
    (divide ds).1.map f = (divide ds').1.map f ∧ (divide ds).2.map f = (divide ds').2.map f := by
  have hdivide := divide_map hf ds
  rw [h, divide_map hf ds'] at hdivide
  exact ⟨(Prod.mk.inj hdivide).1.symm, (Prod.mk.inj hdivide).2.symm⟩

end Diagnostic

namespace Verdict

/-- A verdict with its diagnostics changed. -/
def mapDiagnostics (f : Diagnostic → Diagnostic) (v : Verdict) : Verdict :=
  ⟨v.errors.map f, v.warnings.map f, v.suggestions⟩

@[simp] theorem mapDiagnostics_id (v : Verdict) : v.mapDiagnostics id = v := by
  simp [mapDiagnostics]

@[simp] theorem isValid_mapDiagnostics (f : Diagnostic → Diagnostic) (v : Verdict) :
    (v.mapDiagnostics f).isValid = v.isValid :=
  List.isEmpty_map

end Verdict

namespace ProgramLine

/-- A line that is written as its masked form, with the same references. -/
def blanked (l : ProgramLine) : ProgramLine :=
  { l with toLine := l.toLine.blanked }

/-- A line and its blanked form put diagnostics at the same places, as far as `f` tells. -/
def PlacesAlike (f : Diagnostic → Diagnostic) (l : ProgramLine) : Prop :=
  ∀ d start stop, f (l.blanked.place d start stop) = f (l.place d start stop)

theorem map_diagnostic_blanked {f : Diagnostic → Diagnostic} {l : ProgramLine}
    (h : l.PlacesAlike f) (remarks : List Remark) :
    (remarks.map (Remark.diagnostic l.blanked.toLine)).map f =
      (remarks.map (Remark.diagnostic l.toLine)).map f := by
  rw [List.map_map, List.map_map]
  exact List.map_congr_left fun r _ => h _ _ _

theorem placesAlike_withoutColumn (l : ProgramLine) :
    l.PlacesAlike Diagnostic.withoutColumn :=
  fun _ _ _ => rfl

end ProgramLine

namespace Program

/-- A program with all its lines blanked. -/
def blanked (p : Program) : Program :=
  p.map ProgramLine.blanked

theorem ofSource_blank (source : Text) :
    ofSource (Text.blank source) = (ofSource source).map blanked := by
  rw [ofSource, ofSource, Line.ofSource_blank]
  exact mapM_ofLine_map (g := Line.blanked) (fun _ => rfl) (Line.ofSource source)

theorem bindings_blanked (p : Program) : p.blanked.bindings = p.bindings := by
  rw [bindings, blanked, List.flatMap_map]
  rfl

section Alike

variable (c : Catalog) (rules : Rules) {f : Diagnostic → Diagnostic} {p : Program}

theorem map_check_blanked (h : ∀ l ∈ p, l.PlacesAlike f) :
    (p.blanked.check c rules).map f = (p.check c rules).map f := by
  have hlocal : p.blanked.localLibraries = p.localLibraries := by
    rw [localLibraries, bindings_blanked]
    rfl
  rw [check, check, hlocal, blanked, List.flatMap_map, List.map_flatMap, List.map_flatMap]
  exact List.flatMap_congr fun l hl => ProgramLine.map_diagnostic_blanked (h l hl) _

theorem map_checkDelays_blanked (h : ∀ l ∈ p, l.PlacesAlike f) :
    (p.blanked.checkDelays rules).map f = (p.checkDelays rules).map f := by
  rw [checkDelays, checkDelays, blanked, List.flatMap_map, List.map_flatMap, List.map_flatMap]
  exact List.flatMap_congr fun l hl => ProgramLine.map_diagnostic_blanked (h l hl) _

theorem map_checkImport?_blanked (h : ∀ l ∈ p, l.PlacesAlike f) :
    (p.blanked.checkImport? c rules).map f = (p.checkImport? c rules).map f := by
  have himport : p.blanked.hasImport rules = p.hasImport rules := by
    rw [hasImport, hasImport, blanked, List.any_map]
    rfl
  have hline : ∀ l ∈ p, (firstKnown? c l.blanked).map f = (firstKnown? c l).map f := by
    intro l hl
    rw [firstKnown?, firstKnown?, Option.map_map, Option.map_map]
    exact Option.map_congr fun r _ => h l hl _ _ _
  have hfind :
      (p.blanked.findSome? (firstKnown? c)).map f = (p.findSome? (firstKnown? c)).map f := by
    rw [blanked, List.findSome?_map, List.map_findSome?, List.map_findSome?,
      ← List.head?_filterMap, ← List.head?_filterMap]
    exact congrArg List.head? (List.filterMap_congr hline)
  rw [checkImport?, checkImport?, himport]
  split
  · rfl
  · exact hfind

theorem checkEntryPoint?_blanked : p.blanked.checkEntryPoint? rules = p.checkEntryPoint? rules := by
  rw [checkEntryPoint?, checkEntryPoint?, definesAtTop, definesAtTop, bindings_blanked]

theorem divisionAdvice_blanked : p.blanked.divisionAdvice rules = p.divisionAdvice rules := by
  rw [divisionAdvice, divisionAdvice, blanked, List.filterMap_map]
  rfl

/-- If a program and its blanked form put diagnostics at the same places, as far as `f` tells, then
the verdicts about them agree as far as `f` tells. -/
theorem mapDiagnostics_verdict_blanked (hf : ∀ d, (f d).isError = d.isError)
    (h : ∀ l ∈ p, l.PlacesAlike f) :
    (p.blanked.verdict c rules).mapDiagnostics f = (p.verdict c rules).mapDiagnostics f := by
  have hdiagnostics : (p.blanked.diagnostics c rules).map f = (p.diagnostics c rules).map f := by
    rw [diagnostics, diagnostics, List.map_append, List.map_append, List.map_append,
      List.map_append, List.map_append, List.map_append, map_check_blanked c rules h,
      map_checkDelays_blanked rules h, checkEntryPoint?_blanked, ← Option.toList_map,
      map_checkImport?_blanked c rules h, Option.toList_map]
  obtain ⟨herrors, hwarnings⟩ := Diagnostic.map_divide hf hdiagnostics
  rw [verdict, verdict, Verdict.mapDiagnostics, Verdict.mapDiagnostics, herrors, hwarnings,
    divisionAdvice_blanked]

end Alike

/-- If all that is hidden is ASCII, a program and its blanked form put diagnostics at exactly the
same places. -/
theorem placesAlike_id {source : Text} (h : ∀ ch ∈ Text.inertChars source, Text.isAscii ch = true)
    {p : Program} (hp : ofSource source = .ok p) : ∀ l ∈ p, l.PlacesAlike id := by
  intro l hl d start stop
  have hcolumn : l.toLine.blanked.column start = l.toLine.column start :=
    Line.column_blanked_of_mem_linesFrom h (line_of_mem_ofSource hp hl).1 start
  show Line.place l.toLine.blanked d start stop = Line.place l.toLine d start stop
  rw [Line.place, Line.place, hcolumn]
  rfl

end Program

/-- What is told of the verdicts about a program and its blanked form carries over to sources, those
that cannot be read included. -/
theorem map_validate_blanked {α : Type} {c : Catalog} {rules : Rules} {source : Text}
    {f : Verdict → α} (h : ∀ p, Program.ofSource source = .ok p →
      f (p.blanked.verdict c rules) = f (p.verdict c rules)) :
    (validate c rules (Text.blank source)).map f = (validate c rules source).map f := by
  rw [validate, validate, Program.ofSource_blank]
  cases hp : Program.ofSource source with
  | error e =>
      rfl
  | ok p =>
      exact congrArg Except.ok (h p hp)

/-- Blanking a program keeps its bytes and its lines apart from what is written on them.  The
blanked program is judged as the program is, columns aside, and if all that was hidden is ASCII, the
columns agree, too.  In particular, if one of the two cannot be read, the other one cannot. -/
theorem validate_blank (c : Catalog) (rules : Rules) (source : Text) :
    Text.byteSize (Text.blank source) = Text.byteSize source ∧
    Line.ofSource (Text.blank source) = (Line.ofSource source).map Line.blanked ∧
    (validate c rules (Text.blank source)).map Verdict.isValid =
      (validate c rules source).map Verdict.isValid ∧
    (validate c rules (Text.blank source)).map (Verdict.mapDiagnostics Diagnostic.withoutColumn) =
      (validate c rules source).map (Verdict.mapDiagnostics Diagnostic.withoutColumn) ∧
    ((∀ ch ∈ Text.inertChars source, Text.isAscii ch = true) →
      validate c rules (Text.blank source) = validate c rules source) := by
  have halike : ∀ p : Program, (p.blanked.verdict c rules).mapDiagnostics Diagnostic.withoutColumn =
      (p.verdict c rules).mapDiagnostics Diagnostic.withoutColumn := fun p =>
    Program.mapDiagnostics_verdict_blanked c rules (fun _ => rfl)
      fun l _ => l.placesAlike_withoutColumn
  refine ⟨Text.byteSize_blank source, Line.ofSource_blank source,
    map_validate_blanked fun p _ => ?_, map_validate_blanked fun p _ => halike p, fun hascii => ?_⟩
  · have hvalid := congrArg Verdict.isValid (halike p)
    rwa [Verdict.isValid_mapDiagnostics, Verdict.isValid_mapDiagnostics] at hvalid
  · have hsame : (validate c rules (Text.blank source)).map (Verdict.mapDiagnostics id) =
        (validate c rules source).map (Verdict.mapDiagnostics id) :=
      map_validate_blanked fun p hp => Program.mapDiagnostics_verdict_blanked c rules
        (fun _ => rfl) (Program.placesAlike_id hascii hp)
    have hid : Verdict.mapDiagnostics id = id := funext Verdict.mapDiagnostics_id
    rwa [hid, Except.map_id] at hsame

/-- The theorem at a quote in a comment and a comment opener in a string. -/
theorem validate_blank_ascii :
    (∀ ch ∈ Text.inertChars "a = 1 / b; // say \"\nprocess = f(\"/*\");",
      Text.isAscii ch = true) ∧
    validate Catalog.empty Rules.standard
        (Text.blank "a = 1 / b; // say \"\nprocess = f(\"/*\");") =
      validate Catalog.empty Rules.standard "a = 1 / b; // say \"\nprocess = f(\"/*\");" := by
  have hascii : ∀ ch ∈ Text.inertChars "a = 1 / b; // say \"\nprocess = f(\"/*\");",
      Text.isAscii ch = true :=
    List.all_eq_true.1 (by decide +kernel)
  exact ⟨hascii, (validate_blank _ _ _).2.2.2.2 hascii⟩

end DspCheck
