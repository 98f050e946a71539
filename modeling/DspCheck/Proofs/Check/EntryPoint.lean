import DspCheck.Proofs.Check.Definitions
import DspCheck.Proofs.Check.TopLevel
import DspCheck.Proofs.Source.Below

/-!
# Adding the entry point

A definition on a line of its own goes below any program that does not end in a block comment: it is
read as that definition, at the depth at which the program ends
(`Program.exists_ofSource_definition`).  What is open on the line before it, a string or a
parenthesis, ends with that line.

So a program that lacks its entry point gets it by such a definition, and nothing else is said about
the program.  It can be written exactly if the settings name an identifier, which is what their
check asks for.

Main statement: `fault?_eq_none_iff_exists_source`.
-/

namespace DspCheck

theorem Line.depthBehind_eq_foldl (number offset depth : Nat) (mode : Mode) (raws : List Text) :
    depthBehind depth mode raws =
      (Text.join "\n" (blankedParts number offset depth mode raws)).foldl depthAfter depth := by
  induction raws generalizing number offset depth mode with
  | nil =>
      rfl
  | cons raw raws ih =>
      rw [depthBehind, ih (number + 1) (offset + Text.byteSize raw + 1), blankedParts_cons]
      cases raws with
      | nil =>
          have hnil : ∀ number offset depth mode, blankedParts number offset depth mode [] = [] :=
            fun _ _ _ _ => rfl
          simp only [hnil, Text.join, List.foldl_append, Text.foldl_depthAfter_lineEnd,
            List.foldl_nil]
      | cons next raws =>
          simp only [blankedParts_cons, Text.join_cons_cons, List.foldl_append,
            Text.foldl_depthAfter_lineEnd]
          rfl

/-- The depth at the end of a program. -/
theorem Text.depthBefore_byteSize (source : Text) :
    source.depthBefore (byteSize source) = Line.depthBehind 0 .code (rawLines source) := by
  rw [Line.depthBehind_eq_foldl 1 0, ← byteSize_blank,
    depthBefore_of_blank_eq (List.append_nil (blank source)).symm]
  rfl

namespace Program

variable {c : Catalog} {rules : Rules} {source : Text} {p : Program} {l : ProgramLine}

/-- A definition below a program that does not end in a block comment is one line of it, at the
depth at which the program ends. -/
theorem exists_ofSource_definition (hp : ofSource source = .ok p) (hends : ¬ source.EndsInBlock)
    (d : DefinitionLine) :
    ∃ l : ProgramLine, ofSource (source ++ '\n' :: d.text) = .ok (p ++ [l]) ∧
      d.IsReadAs (source ++ ['\n']) l ∧ l.depth = source.depthBefore (Text.byteSize source) := by
  obtain ⟨refs, hscan, hcalls⟩ := d.exists_references (source ++ ['\n'])
  have hraw : Text.rawLines d.text = [d.text] :=
    Text.rawLines_join (List.cons_ne_nil _ _) (List.forall_mem_singleton.2 d.newline_notMem_text)
  let line : Line := ⟨source.count '\n' + 1 + 1, Text.byteSize source + 1,
    Line.depthBehind 0 .code (Text.rawLines source), d.text, d.code⟩
  have hline : ProgramLine.ofLine line = .ok ⟨line, refs⟩ := by
    rw [ProgramLine.ofLine, hscan]
    rfl
  refine ⟨⟨line, refs⟩, ?_, ?_, ?_⟩
  · rw [ofSource] at hp
    rw [ofSource, Line.ofSource_append_newline hends, hraw, Line.linesFrom, d.dropReturn_text,
      d.mask_text, Line.linesFrom, List.mapM_append, hp, mapM_cons_of_ok hline rfl]
    rfl
  · refine ⟨rfl, rfl, ?_, ?_, Text.lastLine_append_newline source, hcalls⟩
    · rw [Text.byteSize_append]
      rfl
    · have hnumber : Text.lineBehind (source ++ ['\n']) = 1 + (source.count '\n' + 1) := by
        rw [Text.lineBehind, List.count_append]
        rfl
      rw [hnumber, Nat.add_comm]
  · exact (Text.depthBefore_byteSize source).symm

/-! ## A definition that passes the input on -/

/-- The definition `name = _;`. -/
def passThrough (name : Identifier) : DefinitionLine :=
  ⟨name, .var ⟨"_", rfl⟩⟩

theorem text_passThrough (name : Identifier) :
    (passThrough name).text = name.text ++ " = _;" := by
  rw [DefinitionLine.text, List.append_assoc, List.append_assoc]
  rfl

theorem isPlain_passThrough (name : Identifier) : (passThrough name).IsPlain where
  value := fun _ h => Expression.noConfusion h
  name := List.not_mem_nil

variable {name : Identifier} {before : Text}

/-- A line that passes the input on gets no remarks. -/
theorem check_eq_nil_of_isReadAs (h : (passThrough name).IsReadAs before l) (locals : List Text) :
    l.check c rules locals = [] := by
  rw [h.check_eq (isPlain_passThrough name) c rules fun x hx => absurd hx List.not_mem_nil]
  rfl

/-- A line that passes the input on binds its name, and not as a library. -/
theorem localLibraries_append (h : (passThrough name).IsReadAs before l) (p : Program) :
    localLibraries (p ++ [l]) = p.localLibraries ∧
      ∀ x, definesAtTop x (p ++ [l]) = true ↔
        definesAtTop x p = true ∨ (l.depth = 0 ∧ name.text = x) := by
  obtain ⟨b, hb, hname, hvalue, hdepth⟩ := (passThrough name).exists_bindings_eq h.code
  have hbindings : bindings (p ++ [l]) = p.bindings ++ [b] := by
    rw [bindings, List.flatMap_append, List.flatMap_singleton, hb, bindings]
  have hlibrary : b.isLibrary = false := by
    rw [Binding.isLibrary, hvalue]
    rfl
  constructor
  · rw [localLibraries, hbindings, List.filter_append, List.filter_singleton, hlibrary]
    simp [localLibraries]
  · intro x
    rw [definesAtTop, hbindings, List.any_append, Bool.or_eq_true, ← definesAtTop]
    simp [hname, hdepth, passThrough]

/-- Where the entry point is defined at the top level behind a program, all other errors stay, and
nothing is said about the entry point. -/
theorem errors_append (h : (passThrough name).IsReadAs before l) (hdepth : l.depth = 0)
    (hentry : name.text = rules.entryPoint) (p : Program) :
    (verdict c rules (p ++ [l])).errors =
        (p.verdict c rules).errors.filter (·.code? ≠ some .missingEntryPoint) ∧
      ∀ d ∈ diagnostics c rules (p ++ [l]), d.code? ≠ some .missingEntryPoint := by
  obtain ⟨hlocals, hdefines⟩ := localLibraries_append h p
  have htop : definesAtTop rules.entryPoint (p ++ [l]) = true :=
    (hdefines _).2 (Or.inr ⟨hdepth, hentry⟩)
  have hcheck : check c rules (p ++ [l]) = p.check c rules := by
    rw [check, hlocals, List.flatMap_append, List.flatMap_singleton, check_eq_nil_of_isReadAs h,
      List.append_nil, check]
  have hnone : checkEntryPoint? rules (p ++ [l]) = none := by
    rw [checkEntryPoint?, if_pos htop]
  have hkept : ((p.check c rules).filter Diagnostic.isError).filter
      (·.code? ≠ some .missingEntryPoint) = (p.check c rules).filter Diagnostic.isError :=
    List.filter_eq_self.2 fun d hd => by
      simpa using (code?_ne_of_mem_check (List.mem_filter.1 hd).1).2
  have hdropped : (p.checkEntryPoint? rules).toList.filter
      (·.code? ≠ some .missingEntryPoint) = [] :=
    List.filter_eq_nil_iff.2 fun d hd => by
      simp [(of_checkEntryPoint? (Option.mem_toList.1 hd)).1]
  constructor
  · rw [errors_verdict, errors_verdict, List.filter_append, hkept, hdropped, hcheck, hnone]
    rfl
  · intro d hd hcode
    have hfalse := exists_missingEntryPoint_iff.1 ⟨d, hd, hcode⟩
    rw [htop] at hfalse
    cases hfalse

end Program

/-- Settings whose directives are not blank can be used if their entry point is an identifier. -/
theorem Rules.fault?_eq_none_iff {rules : Rules}
    (himports : ∀ w ∈ rules.imports, Text.isAllBlank w = false) :
    rules.fault? = none ↔ Ident.isIdent rules.entryPoint = true := by
  have hany : rules.imports.any Text.isAllBlank = false := by
    rw [List.any_eq_false]
    intro w hw
    simp [himports w hw]
  rw [fault?, hany]
  cases Ident.isIdent rules.entryPoint <;> simp

/-- Defining the entry point below a program that ends at its top level outside comments leaves all
errors but the one about the entry point. -/
theorem validate_entryPoint {c : Catalog} {rules : Rules} {source : Text} {v : Verdict}
    (hentry : Ident.isIdent rules.entryPoint = true) (hv : validate c rules source = .ok v)
    (hends : ¬ source.EndsInBlock) (hdepth : source.depthBefore (Text.byteSize source) = 0) :
    ∃ v', validate c rules (source ++ '\n' :: (rules.entryPoint ++ " = _;")) = .ok v' ∧
      (∀ d ∈ v'.errors ++ v'.warnings, d.code? ≠ some .missingEntryPoint) ∧
      v'.errors = v.errors.filter (·.code? ≠ some .missingEntryPoint) := by
  obtain ⟨p, hp, rfl⟩ := exists_verdict_of_validate hv
  obtain ⟨l, hl, hread, htop⟩ := Program.exists_ofSource_definition hp hends
    (Program.passThrough ⟨rules.entryPoint, hentry⟩)
  obtain ⟨herrors, hnone⟩ := Program.errors_append (c := c) hread (htop.trans hdepth) rfl p
  rw [Program.text_passThrough] at hl
  refine ⟨Program.verdict c rules (p ++ [l]), ?_, fun d hd => ?_, herrors⟩
  · rw [validate, hl]
    rfl
  · exact hnone d (Program.mem_verdict_iff.1 hd)

/-- The settings can be used if and only if some program lacks no entry point.  If they can be used,
then defining the entry point below any program that ends at its top level outside comments is a way
to such a program, and it leaves all other errors as they were. -/
theorem fault?_eq_none_iff_exists_source {rules : Rules} (c : Catalog)
    (himports : ∀ w ∈ rules.imports, Text.isAllBlank w = false) :
    (rules.fault? = none ↔ ∃ source v, validate c rules source = .ok v ∧
      ∀ d ∈ v.errors ++ v.warnings, d.code? ≠ some .missingEntryPoint) ∧
    (rules.fault? = none → ∀ source v, validate c rules source = .ok v →
      ¬ source.EndsInBlock → source.depthBefore (Text.byteSize source) = 0 →
      ∃ v', validate c rules (source ++ '\n' :: (rules.entryPoint ++ " = _;")) = .ok v' ∧
        (∀ d ∈ v'.errors ++ v'.warnings, d.code? ≠ some .missingEntryPoint) ∧
        v'.errors = v.errors.filter (·.code? ≠ some .missingEntryPoint)) := by
  rw [Rules.fault?_eq_none_iff himports]
  refine ⟨⟨fun hentry => ?_, ?_⟩, fun hentry source v hv => validate_entryPoint hentry hv⟩
  · -- the definition below the empty program
    have hempty : ∃ v, validate c rules [] = .ok v := ⟨_, rfl⟩
    obtain ⟨v, hv⟩ := hempty
    obtain ⟨v', hv', hnone, -⟩ := validate_entryPoint hentry hv (by decide) (by decide)
    exact ⟨_, v', hv', hnone⟩
  · rintro ⟨source, v, hv, hnone⟩
    have hbound : ∃ l ∈ Line.ofSource source, ∃ b ∈ l.bindings,
        b.name = rules.entryPoint ∧ b.depth = 0 := by
      by_contra h
      obtain ⟨d, hd, hcode⟩ := (exists_missingEntryPoint_of_validate hv).2 h
      exact hnone d hd hcode
    obtain ⟨l, -, b, hb, hname, -⟩ := hbound
    rw [← hname]
    exact (Line.exists_of_mem_bindings hb).1

/-- A program with another error, which ends in an open string inside parentheses. -/
def unfinished : Text :=
  "s = \"a\";\nt = f(\x7b; \x7d, \"b"

/-- The other error stays. -/
theorem fault?_eq_none_standard_unfinished :
    (∀ w ∈ Rules.standard.imports, Text.isAllBlank w = false) ∧ Rules.standard.fault? = none ∧
    ∃ v v', validate Catalog.empty .standard unfinished = .ok v ∧
      v.errors.map Diagnostic.code? = [some .stringAssignment, some .missingEntryPoint] ∧
      validate Catalog.empty .standard (unfinished ++ "\nprocess = _;") = .ok v' ∧
      v'.errors.map Diagnostic.code? = [some .stringAssignment] := by
  have himports : ∀ w ∈ Rules.standard.imports, Text.isAllBlank w = false := by
    decide
  have hfault : Rules.standard.fault? = none := by
    decide
  have hv : validate Catalog.empty .standard unfinished = .ok ⟨
      [(Finding.stringAssignment "s").diagnostic.putAt "s = " "\"a\"",
        (Finding.missingEntryPoint "process").diagnostic], [], []⟩ := by
    decide +kernel
  obtain ⟨-, hadd⟩ := fault?_eq_none_iff_exists_source Catalog.empty himports
  obtain ⟨v', hv', -, herrors⟩ := hadd hfault _ _ hv (by decide) (by decide)
  refine ⟨himports, hfault, _, v', hv, rfl, hv', ?_⟩
  rw [herrors]
  rfl

end DspCheck
