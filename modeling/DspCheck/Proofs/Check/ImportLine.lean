import DspCheck.Proofs.Check.Concatenation
import DspCheck.Proofs.Check.Pointing
import DspCheck.Proofs.Check.Verdict

/-!
# Adding the missing import

The warning about a missing import suggests a line for the top of the program.  That line has no
bindings, no references, no delays and no divisions, and it leaves the scanner as it was, so the
program goes on behind it as it was, one line further down (`Program.ofSource_importDirective`).
Every check of the old lines says what it said before, and the warning is gone.

Main statement: `validate_importDirective`.
-/

namespace DspCheck

/-- The line that the warning about a missing import suggests. -/
def importDirective : Text := "import(\"stdfaust.lib\");"

/-- A diagnostic of a program that stands below the import: what has a line is one line further
down. -/
def Diagnostic.belowImport (d : Diagnostic) : Diagnostic :=
  { d with
    line := if d.line = 0 then 0 else d.line + 1
    span? := d.span?.map (Span.shift (Text.byteSize importDirective + 1)) }

/-! ## The program below the import -/

/-- The import as a line of a program: the name of the library is masked. -/
def importLine : ProgramLine :=
  ⟨⟨1, 0, 0, importDirective, "import(\"            \");"⟩, []⟩

/-- A program below the import. -/
def Program.belowImport (p : Program) : Program :=
  importLine :: p.below 1 (Text.byteSize importDirective + 1)

theorem Line.ofSource_importDirective (source : Text) :
    ofSource (importDirective ++ '\n' :: source) =
      importLine.toLine :: (ofSource source).map (below 1 (Text.byteSize importDirective + 1)) := by
  have hraw : Text.rawLines importDirective = [importDirective] := by
    decide
  have hcode : Text.mask .code importDirective = importLine.code := by
    decide
  have hdepth : importLine.code.foldl depthAfter 0 = 0 := by
    decide
  have hmode : (Mode.code.after importDirective).nextLine = .code := by
    decide
  have hreturn : Text.dropReturn importDirective = importDirective := by
    decide
  rw [ofSource, Text.rawLines_append_newline, hraw, List.singleton_append, linesFrom, hreturn,
    hcode, hdepth, hmode, ofSource, ← linesFrom_below, Nat.zero_add]
  rfl

theorem Program.ofSource_importDirective {source : Text} {p : Program}
    (hp : ofSource source = .ok p) :
    ofSource (importDirective ++ '\n' :: source) = .ok p.belowImport := by
  have hline : ProgramLine.ofLine importLine.toLine = .ok importLine := by
    decide
  rw [ofSource, Line.ofSource_importDirective]
  exact mapM_cons_of_ok hline (mapM_ofLine_below hp _ _)

/-! ## What is said about the import line -/

theorem bindings_importLine : importLine.bindings = [] := by
  decide

theorem check_importLine (c : Catalog) (rules : Rules) (locals : List Text) :
    importLine.check c rules locals = [] := by
  rw [ProgramLine.check, Line.bindingRemarks, bindings_importLine]
  rfl

theorem delays_importLine : DelayConstant.ofLine importLine = [] := by
  have hoperands : DelayConstant.operandsFrom 0 importLine.code = [] := by
    decide
  rw [DelayConstant.ofLine, hoperands]
  exact List.mergeSort_nil

theorem divisionAdvice?_importLine (rules : Rules) : importLine.divisionAdvice? rules = none := by
  have hdivisor : Line.firstDivisor? importLine.code = none := by
    decide
  rw [Line.divisionAdvice?, hdivisor]
  split <;> rfl

theorem mentions_importLine {rules : Rules} (h : ("import" : Text) ∈ rules.imports) :
    importLine.mentions rules.imports = true :=
  List.any_eq_true.2 ⟨_, h, by decide⟩

namespace Program

variable {c : Catalog} {rules : Rules} {source : Text} {p : Program} {d : Diagnostic}

/-! ## What is said about the old lines -/

theorem bindings_belowImport (p : Program) : p.belowImport.bindings = p.bindings := by
  rw [bindings, belowImport, List.flatMap_cons, bindings_importLine, List.nil_append, below,
    List.flatMap_map]
  rfl

theorem check_belowImport (p : Program) :
    p.belowImport.check c rules =
      (p.check c rules).map (Diagnostic.below 1 (Text.byteSize importDirective + 1)) := by
  have hlocals : p.belowImport.localLibraries =
      (p.below 1 (Text.byteSize importDirective + 1)).localLibraries := by
    rw [localLibraries_below, localLibraries, bindings_belowImport]
    rfl
  rw [← check_below, check, hlocals, belowImport, List.flatMap_cons, check_importLine,
    List.nil_append]
  rfl

theorem checkDelays_mapLine {g : Line → Line} {move : Diagnostic → Diagnostic}
    (h : Line.IsMove g move) (p : Program) :
    checkDelays rules (p.map (ProgramLine.mapLine g)) = (p.checkDelays rules).map move := by
  rw [checkDelays, checkDelays, List.flatMap_map, List.map_flatMap]
  refine List.flatMap_congr fun l _ => ?_
  have hdelays : DelayConstant.ofLine (l.mapLine g) = DelayConstant.ofLine l := by
    have hcode : (l.mapLine g).code = l.code := h.code l.toLine
    rw [DelayConstant.ofLine, hcode]
    rfl
  rw [hdelays]
  exact h.map_diagnostic l.toLine _

theorem checkDelays_belowImport (p : Program) :
    p.belowImport.checkDelays rules =
      (p.checkDelays rules).map (Diagnostic.below 1 (Text.byteSize importDirective + 1)) := by
  rw [← checkDelays_mapLine (Line.isMove_below 1 (Text.byteSize importDirective + 1)), checkDelays,
    belowImport, List.flatMap_cons, delays_importLine]
  rfl

theorem checkImport?_belowImport (h : ("import" : Text) ∈ rules.imports) (p : Program) :
    p.belowImport.checkImport? c rules = none := by
  have hhas : p.belowImport.hasImport rules = true := by
    rw [hasImport, belowImport, List.any_cons, mentions_importLine h, Bool.true_or]
  rw [checkImport?, if_pos hhas]

theorem checkEntryPoint?_belowImport (p : Program) :
    p.belowImport.checkEntryPoint? rules = p.checkEntryPoint? rules := by
  rw [checkEntryPoint?, checkEntryPoint?, definesAtTop, definesAtTop, bindings_belowImport]

/-- A diagnostic from a line of a program has a line. -/
theorem line_ne_zero_of_isRemarked (hp : ofSource source = .ok p) (hd : p.IsRemarked d) :
    d.line ≠ 0 := by
  obtain ⟨l, hl, m, -, rfl⟩ := hd
  obtain ⟨before, behind, hstands⟩ := Line.exists_stands (line_of_mem_ofSource hp hl).1
  have hnumber : (m.diagnostic l.toLine).line = 1 + before.count '\n' := hstands.number
  omega

/-- Diagnostics from the lines of a program are moved, and none of them is dropped. -/
theorem map_filter_of_forall (ds : List Diagnostic)
    (hds : ∀ d ∈ ds, d.code? ≠ some .missingImport ∧ d.line ≠ 0) :
    (ds.filter (·.code? ≠ some .missingImport)).map Diagnostic.belowImport =
      ds.map (Diagnostic.below 1 (Text.byteSize importDirective + 1)) := by
  rw [List.filter_eq_self.2 fun d hd => by simpa using (hds d hd).1]
  refine List.map_congr_left fun d hd => ?_
  rw [Diagnostic.belowImport, Diagnostic.below, if_neg (hds d hd).2, Nat.add_comm d.line]

/-- The diagnostics of a program below the import are the old ones, moved, but for the one about the
import. -/
theorem diagnostics_belowImport (himport : ("import" : Text) ∈ rules.imports)
    (hp : ofSource source = .ok p) :
    p.belowImport.diagnostics c rules =
      ((p.diagnostics c rules).filter (·.code? ≠ some .missingImport)).map
        Diagnostic.belowImport := by
  have hcheck := map_filter_of_forall (p.check c rules) fun d hd =>
    ⟨(code?_ne_of_mem_check hd).1, line_ne_zero_of_isRemarked hp (isRemarked_of_mem_check hp hd)⟩
  have hdelays := map_filter_of_forall (p.checkDelays rules) fun d hd =>
    ⟨by simp [(of_mem_checkDelays hd).1],
      line_ne_zero_of_isRemarked hp (isRemarked_of_mem_checkDelays hp hd)⟩
  have hmissing :
      (p.checkImport? c rules).toList.filter (·.code? ≠ some .missingImport) = [] := by
    refine List.filter_eq_nil_iff.2 fun d hd => ?_
    simp [(of_checkImport? (Option.mem_toList.1 hd)).1]
  -- what is about the whole program has no line and no span, so it does not move
  have hentry : ((p.checkEntryPoint? rules).toList.filter (·.code? ≠ some .missingImport)).map
      Diagnostic.belowImport = (p.checkEntryPoint? rules).toList := by
    rw [checkEntryPoint?]
    split <;> rfl
  rw [diagnostics, diagnostics, List.filter_append, List.filter_append, List.filter_append,
    List.map_append, List.map_append, List.map_append, hcheck, hdelays, hmissing, hentry,
    check_belowImport, checkDelays_belowImport, checkImport?_belowImport himport,
    checkEntryPoint?_belowImport]
  rfl

/-- A diagnostic about a missing import is a warning that suggests the import. -/
theorem of_mem_diagnostics_missingImport (hd : d ∈ p.diagnostics c rules)
    (hcode : d.code? = some .missingImport) :
    d.isError = false ∧ d.suggestion? =
      some ("add " ++ Text.quoted importDirective ++ " at the top of the file") := by
  obtain ⟨l, -, r, -, -, rfl⟩ := exists_of_checkImport? (checkImport?_of_mem_diagnostics hd hcode)
  exact ⟨rfl, rfl⟩

/-- The errors and the warnings about a program below the import. -/
theorem divide_belowImport (himport : ("import" : Text) ∈ rules.imports)
    (hp : ofSource source = .ok p) :
    (p.belowImport.verdict c rules).errors =
        (p.verdict c rules).errors.map Diagnostic.belowImport ∧
      (p.belowImport.verdict c rules).warnings =
        ((p.verdict c rules).warnings.filter (·.code? ≠ some .missingImport)).map
          Diagnostic.belowImport := by
  have herrors : (p.verdict c rules).errors.filter (·.code? ≠ some .missingImport) =
      (p.verdict c rules).errors := by
    refine List.filter_eq_self.2 fun d hd => decide_eq_true fun hcode => ?_
    have herror : d.isError = true := Diagnostic.isError_of_mem_divide hd
    have hmem : d ∈ p.diagnostics c rules :=
      Diagnostic.mem_of_mem_divide (List.mem_append_left _ hd)
    rw [(of_mem_diagnostics_missingImport hmem hcode).1] at herror
    cases herror
  have hdivide := congrArg Diagnostic.divide (diagnostics_belowImport (c := c) himport hp)
  rw [Diagnostic.divide_map (f := Diagnostic.belowImport) fun _ => rfl,
    Diagnostic.divide_filter] at hdivide
  obtain ⟨hfirst, hsecond⟩ := Prod.mk.inj hdivide
  exact ⟨hfirst.trans (congrArg _ herrors), hsecond⟩

end Program

/-! ## Suggestions about divisions -/

/-- The suggestion about a division on a line of a given number, with what it says behind that. -/
def divisionAdviceOn (number : Nat) (rest : Text) : Text :=
  "line " ++ Text.decimal number ++ ": division by " ++ rest

namespace Line

/-- What the first division on a line is by, if nothing guards it. -/
def unguarded? (rules : Rules) (l : Line) : Option Text :=
  if l.mentions rules.guards then none else firstDivisor? l.code

theorem divisionAdvice?_eq_map (rules : Rules) (l : Line) :
    l.divisionAdvice? rules = (l.unguarded? rules).map l.guardDivision := by
  rw [divisionAdvice?, unguarded?]
  split <;> rfl

/-- What the suggestion about a division says behind the number of the line. -/
def behindDivision (divisor : Text) : Text :=
  Text.quoted divisor ++ " may reach zero; guard it, e.g. "
    ++ Text.quoted ("/ max(ma.EPSILON, " ++ divisor ++ ")")

theorem guardDivision_eq (l : Line) (divisor : Text) :
    l.guardDivision divisor = divisionAdviceOn l.number (behindDivision divisor) := by
  unfold guardDivision divisionAdviceOn behindDivision
  rw [List.append_assoc, List.append_assoc, ← List.append_assoc (Text.quoted divisor)]

end Line

namespace Program

/-- Below the import the suggestions about divisions name the next lines. -/
theorem exists_divisionAdvice_belowImport (rules : Rules) (p : Program) :
    ∃ places : List (Nat × Text),
      p.divisionAdvice rules = places.map (fun d => divisionAdviceOn d.1 d.2) ∧
      p.belowImport.divisionAdvice rules =
        places.map fun d => divisionAdviceOn (d.1 + 1) d.2 := by
  refine ⟨p.filterMap fun l => (l.unguarded? rules).map fun divisor =>
    (l.number, Line.behindDivision divisor), ?_, ?_⟩
  · rw [divisionAdvice, List.map_filterMap]
    refine List.filterMap_congr fun l _ => ?_
    rw [Line.divisionAdvice?_eq_map, Option.map_map]
    exact congrArg (Option.map · _) (funext fun divisor => l.guardDivision_eq divisor)
  · have hbelow : p.belowImport.divisionAdvice rules =
        (p.below 1 (Text.byteSize importDirective + 1)).divisionAdvice rules :=
      List.filterMap_cons_none (divisionAdvice?_importLine rules)
    rw [hbelow, divisionAdvice, below, List.filterMap_map, List.map_filterMap]
    refine List.filterMap_congr fun l _ => ?_
    rw [Function.comp_apply, Line.divisionAdvice?_eq_map, Option.map_map]
    refine congrArg (Option.map · _) (funext fun divisor => ?_)
    rw [Line.guardDivision_eq, Function.comp_apply, Nat.add_comm l.number]
    rfl

end Program

/-- Adding the import that the warning about a missing one suggests makes the warning go, and
nothing else: validity stays, the errors, the other warnings and the suggestions stay in their
order, and what has a line is one line further down. -/
theorem validate_importDirective {c : Catalog} {rules : Rules} {source : Text} {v : Verdict}
    (himport : ("import" : Text) ∈ rules.imports) (hv : validate c rules source = .ok v) :
    (∀ d ∈ v.errors ++ v.warnings, d.code? = some .missingImport → d.suggestion? =
      some ("add " ++ Text.quoted importDirective ++ " at the top of the file")) ∧
    ∃ v', validate c rules (importDirective ++ '\n' :: source) = .ok v' ∧
      v'.isValid = v.isValid ∧
      v'.errors = v.errors.map Diagnostic.belowImport ∧
      v'.warnings = (v.warnings.filter (·.code? ≠ some .missingImport)).map
        Diagnostic.belowImport ∧
      ∃ places : List (Nat × Text),
        v.suggestions = places.map (fun d => divisionAdviceOn d.1 d.2) ∧
        v'.suggestions = places.map fun d => divisionAdviceOn (d.1 + 1) d.2 := by
  obtain ⟨p, hp, rfl⟩ := exists_of_map_eq_ok hv
  obtain ⟨herrors, hwarnings⟩ := Program.divide_belowImport (c := c) himport hp
  refine ⟨fun d hd hcode => ?_, p.belowImport.verdict c rules, ?_, ?_, herrors, hwarnings,
    p.exists_divisionAdvice_belowImport rules⟩
  · have hmem : d ∈ p.diagnostics c rules := Diagnostic.mem_of_mem_divide hd
    exact (Program.of_mem_diagnostics_missingImport hmem hcode).2
  · rw [validate, Program.ofSource_importDirective hp]
    rfl
  · rw [Verdict.isValid, herrors, List.isEmpty_map, Verdict.isValid]

/-- A catalog of one library with one function. -/
def lowpassCatalog : Catalog :=
  Catalog.ofParts [] (OrderedMap.ofList [("fi.lib", ⟨"fi.lib", "fi", 1⟩)])
    (OrderedMap.ofList [("fi.lowpass", Signature.ofShape "fi" "lowpass" ["N", "fc"] 1 1)])

/-- A program without an import, with an open brace and an open comment at its end. -/
def importless : Text :=
  "s = \"é\";\r\ny = fi.lowpass(1, x / n) + xy.z(1);\n\x7b process = y; /*"

/-- The two warnings become one, and it is about the next line. -/
theorem validate_importDirective_importless :
    ("import" : Text) ∈ Rules.standard.imports ∧
    ∃ v v', validate lowpassCatalog .standard importless = .ok v ∧
      v.errors.map Diagnostic.code? = [some .stringAssignment, some .missingEntryPoint] ∧
      v.warnings.map Diagnostic.code? = [some .unknownLibrary, some .missingImport] ∧
      validate lowpassCatalog .standard (importDirective ++ '\n' :: importless) = .ok v' ∧
      v'.errors = v.errors.map Diagnostic.belowImport ∧
      v'.warnings.map Diagnostic.code? = [some .unknownLibrary] ∧
      v'.warnings.map Diagnostic.line = [3] := by
  have himport : ("import" : Text) ∈ Rules.standard.imports := by
    decide
  have hv : validate lowpassCatalog .standard importless = .ok ⟨
      [(Finding.stringAssignment "s").diagnostic.putAt "s = " "\"é\"",
        (Finding.missingEntryPoint "process").diagnostic],
      [(Finding.unknownLibrary "xy" ["fi"]).diagnostic.putAt
          "s = \"é\";\r\ny = fi.lowpass(1, x / n) + " "xy",
        (Finding.missingImport "fi").diagnostic.putAt "s = \"é\";\r\ny = " "fi"],
      ["line 2: division by `n` may reach zero; guard it, e.g. `/ max(ma.EPSILON, n)`"]⟩ := by
    decide +kernel
  obtain ⟨-, v', hv', -, herrors, hwarnings, -⟩ := validate_importDirective himport hv
  refine ⟨himport, _, v', hv, rfl, rfl, hv', herrors, ?_, ?_⟩
  · rw [hwarnings]
    rfl
  · rw [hwarnings]
    rfl

end DspCheck
