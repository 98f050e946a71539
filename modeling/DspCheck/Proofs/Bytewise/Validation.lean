import DspCheck.Proofs.Bytewise.Advice

/-!
# Where a validation by bytes fails

A program is validated by looking up its bytes and by cutting its lines at them.  This fails if and
only if there is a character outside ASCII outside the comments and strings of a line
(`Line.HasForeign`), and then the checks cannot be made at all.  On every other program it yields
the verdict.

Main statement: `fails_iff_hasForeign`.
-/

namespace DspCheck

/-! ## Characters outside ASCII -/

/-- A line has a character outside ASCII in its masked form. -/
def Line.HasForeign (l : Line) : Prop :=
  ∃ c ∈ l.code, Text.isAscii c = false

/-- A line has a character outside ASCII in its masked form if one stands outside its comments and
strings. -/
theorem Line.hasForeign_iff {source : Text} {l : Line} (hl : l ∈ Line.ofSource source) :
    l.HasForeign ↔ ∃ mode front c rest, l.code = Text.mask mode l.text ∧
      l.text = front ++ c :: rest ∧ Text.isAscii c = false ∧ mode.after front = .code := by
  obtain ⟨before, behind, hstands⟩ := Line.exists_stands hl
  obtain ⟨mode, hmode⟩ := hstands.masked
  constructor
  · rintro ⟨c, hc, hforeign⟩
    rw [hmode, Text.mem_mask_iff hforeign] at hc
    obtain ⟨front, rest, htext, hafter⟩ := hc
    exact ⟨mode, front, c, rest, hmode, htext, hforeign, hafter⟩
  · rintro ⟨mode, front, c, rest, hmode, htext, hforeign, hafter⟩
    refine ⟨c, ?_, hforeign⟩
    rw [hmode, Text.mem_mask_iff hforeign]
    exact ⟨front, rest, htext, hafter⟩

theorem Reference.scan_toOption_eq_none_iff (code : Text) :
    (scan code).toOption = none ↔ ∃ c ∈ code, Text.isAscii c = false := by
  constructor
  · intro h
    by_contra hall
    have hascii : ∀ c ∈ code, Text.isAscii c = true := fun c hc =>
      Bool.of_not_eq_false fun hforeign => hall ⟨c, hc, hforeign⟩
    obtain ⟨rs, hrs⟩ := exists_scanFrom_eq_ok hascii false 0
    rw [scan, hrs] at h
    cases h
  · rintro ⟨c, hc, hforeign⟩
    cases hscan : scan code with
    | error e =>
        rfl
    | ok rs =>
        rw [isAscii_of_scanFrom hscan c hc] at hforeign
        cases hforeign

theorem Program.ofSource_toOption_eq_none_iff (source : Text) :
    (ofSource source).toOption = none ↔ ∃ l ∈ Line.ofSource source, l.HasForeign := by
  rw [ofSource, mapM_toOption_eq_none_iff]
  refine exists_congr fun l => and_congr_right fun _ => ?_
  rw [Line.HasForeign, ← Reference.scan_toOption_eq_none_iff, ProgramLine.ofLine,
    toOption_map_eq_none_iff]

namespace Bytewise

/-- The verdict about a source text. -/
def validate? (c : Catalog) (rules : Rules) (source : Text) : Option Verdict := do
  let ls ← lines? source
  let checked ← checkLines? c rules ls
  let delays ← checkDelays? rules ls
  let import? ← importDiagnostic? c rules ls
  let entryPoint? ← entryPoint? rules ls
  let advice ← divisionAdvice? rules ls
  let divided := Diagnostic.divide (checked ++ delays ++ import?.toList ++ entryPoint?.toList)
  some ⟨divided.1, divided.2, advice⟩

theorem validate?_eq (c : Catalog) (rules : Rules) (source : Text) :
    validate? c rules source = (validate c rules source).toOption := by
  simp only [validate?, lines?_eq_some, checkLines?_eq, Option.bind_eq_bind, Option.bind_some]
  rw [validate]
  cases hp : Program.ofSource source with
  | error e =>
      rfl
  | ok p =>
      simp only [checkDelays?_eq_some hp, importDiagnostic?_eq_some hp, entryPoint?_eq_some hp,
        divisionAdvice?_eq_some hp, Option.bind_some]
      rfl

/-- The checks by bytes fail if and only if there is a character outside ASCII outside the comments
and strings of a line.  All other cuts and look-ups succeed, and the results are those of the checks
themselves. -/
theorem fails_iff_hasForeign (c : Catalog) (rules : Rules) (source : Text) :
    check? c rules source = (check c rules source).toOption ∧
    validate? c rules source = (validate c rules source).toOption ∧
    (check? c rules source = none ↔ ∃ l ∈ Line.ofSource source, l.HasForeign) ∧
    (validate? c rules source = none ↔ ∃ l ∈ Line.ofSource source, l.HasForeign) ∧
    ∀ l ∈ Line.ofSource source, l.HasForeign ↔
      ∃ mode front d rest, l.code = Text.mask mode l.text ∧ l.text = front ++ d :: rest ∧
        Text.isAscii d = false ∧ mode.after front = .code := by
  have hlines := Program.ofSource_toOption_eq_none_iff source
  refine ⟨check?_eq c rules source, validate?_eq c rules source, ?_, ?_,
    fun l hl => Line.hasForeign_iff hl⟩
  · rw [check?_eq, check, toOption_map_eq_none_iff, hlines]
  · rw [validate?_eq, validate, toOption_map_eq_none_iff, hlines]

end Bytewise
end DspCheck
