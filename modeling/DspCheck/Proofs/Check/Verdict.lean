import DspCheck.Check.Validation
import DspCheck.Proofs.Check.Calls
import DspCheck.Proofs.Fallible

/-!
# Which diagnostic comes from which check

The checks of a program find problems of different kinds, so a diagnostic tells by its code which
check it comes from.  In particular a diagnostic about a missing import is that of the check for
imports (`checkImport?_of_mem_diagnostics`), and one about the entry point is that of the check for
the entry point (`checkEntryPoint?_of_mem_diagnostics`).

The errors of a verdict are those about bindings and calls, and then the one about the entry point
(`errors_verdict`).
-/

namespace DspCheck

theorem exists_verdict_of_validate {c : Catalog} {rules : Rules} {source : Text} {v : Verdict}
    (hv : validate c rules source = .ok v) :
    ∃ p, Program.ofSource source = .ok p ∧ p.verdict c rules = v :=
  exists_of_map_eq_ok hv

namespace Program

variable {c : Catalog} {rules : Rules} {p : Program} {d : Diagnostic}

theorem mem_verdict_iff :
    d ∈ (p.verdict c rules).errors ++ (p.verdict c rules).warnings ↔ d ∈ p.diagnostics c rules := by
  rw [verdict, Diagnostic.divide, List.partition_eq_filter_filter, List.mem_append,
    List.mem_filter, List.mem_filter]
  cases h : d.isError <;> simp [h]

/-! ## The codes of the checks -/

theorem code?_ne_of_mem_check (hd : d ∈ p.check c rules) :
    d.code? ≠ some .missingImport ∧ d.code? ≠ some .missingEntryPoint := by
  obtain ⟨l, -, hd⟩ := List.mem_flatMap.1 hd
  have hcode := ProgramLine.code?_of_mem_check hd
  constructor
  · intro h
    simp [h] at hcode
  · intro h
    simp [h] at hcode

theorem of_mem_checkDelays (hd : d ∈ p.checkDelays rules) :
    d.code? = some .oversizedDelay ∧ d.isError = false := by
  obtain ⟨l, -, hd⟩ := List.mem_flatMap.1 hd
  obtain ⟨m, hm, rfl⟩ := List.mem_map.1 hd
  obtain ⟨delay, -, hm⟩ := List.mem_filterMap.1 hm
  rw [DelayConstant.remark?] at hm
  split at hm
  · obtain rfl := Option.some.inj hm
    exact ⟨rfl, rfl⟩
  · cases hm

theorem exists_of_checkImport? (h : p.checkImport? c rules = some d) :
    ∃ l ∈ p, ∃ r ∈ l.references, c.hasLibrary r.library = true ∧
      d = Remark.diagnostic l.toLine
        ⟨.missingImport r.library, r.start, r.start + Text.byteSize r.library⟩ := by
  rw [checkImport?] at h
  split at h
  · cases h
  · obtain ⟨l, hl, hd⟩ := List.exists_of_findSome?_eq_some h
    obtain ⟨r, hr, rfl⟩ := Option.map_eq_some_iff.1 hd
    have hlibrary : c.hasLibrary r.library = true := by
      simpa using List.find?_some hr
    exact ⟨l, hl, r, List.mem_of_find?_eq_some hr, hlibrary, rfl⟩

theorem of_checkImport? (h : p.checkImport? c rules = some d) :
    d.code? = some .missingImport ∧ d.isError = false := by
  obtain ⟨l, -, r, -, -, rfl⟩ := exists_of_checkImport? h
  exact ⟨rfl, rfl⟩

theorem of_checkEntryPoint? (h : p.checkEntryPoint? rules = some d) :
    d.code? = some .missingEntryPoint ∧ d.isError = true := by
  rw [checkEntryPoint?] at h
  split at h
  · cases h
  · obtain rfl := Option.some.inj h
    exact ⟨rfl, rfl⟩

/-- A diagnostic comes from one of the four checks. -/
theorem mem_diagnostics_iff :
    d ∈ p.diagnostics c rules ↔ d ∈ p.check c rules ∨ d ∈ p.checkDelays rules ∨
      p.checkImport? c rules = some d ∨ p.checkEntryPoint? rules = some d := by
  rw [diagnostics, List.mem_append, List.mem_append, List.mem_append, Option.mem_toList,
    Option.mem_toList, or_assoc, or_assoc]

/-- A diagnostic about a missing import is that of the check for imports. -/
theorem checkImport?_of_mem_diagnostics (hd : d ∈ p.diagnostics c rules)
    (hcode : d.code? = some .missingImport) : p.checkImport? c rules = some d := by
  rcases mem_diagnostics_iff.1 hd with hd | hd | hd | hd
  · exact absurd hcode (code?_ne_of_mem_check hd).1
  · cases hcode.symm.trans (of_mem_checkDelays hd).1
  · exact hd
  · cases hcode.symm.trans (of_checkEntryPoint? hd).1

/-- A diagnostic about the entry point is that of the check for the entry point. -/
theorem checkEntryPoint?_of_mem_diagnostics (hd : d ∈ p.diagnostics c rules)
    (hcode : d.code? = some .missingEntryPoint) : p.checkEntryPoint? rules = some d := by
  rcases mem_diagnostics_iff.1 hd with hd | hd | hd | hd
  · exact absurd hcode (code?_ne_of_mem_check hd).2
  · cases hcode.symm.trans (of_mem_checkDelays hd).1
  · cases hcode.symm.trans (of_checkImport? hd).1
  · exact hd

/-- There is a diagnostic about the entry point if and only if the program does not bind it at its
top level. -/
theorem exists_missingEntryPoint_iff :
    (∃ d ∈ p.diagnostics c rules, d.code? = some .missingEntryPoint) ↔
      p.definesAtTop rules.entryPoint = false := by
  constructor
  · rintro ⟨d, hd, hcode⟩
    have hcheck := checkEntryPoint?_of_mem_diagnostics hd hcode
    rw [checkEntryPoint?] at hcheck
    split at hcheck
    · cases hcheck
    · next hdefines =>
        exact Bool.eq_false_iff.2 hdefines
  · intro hdefines
    have hcheck : p.checkEntryPoint? rules =
        some (Finding.missingEntryPoint rules.entryPoint).diagnostic := by
      rw [checkEntryPoint?, hdefines]
      rfl
    exact ⟨_, mem_diagnostics_iff.2 (Or.inr (Or.inr (Or.inr hcheck))), rfl⟩

/-- The errors about a program are those about its bindings and calls, and then the one about its
entry point. -/
theorem errors_verdict (p : Program) :
    (p.verdict c rules).errors =
      (p.check c rules).filter Diagnostic.isError ++ (p.checkEntryPoint? rules).toList := by
  have hdelays : (p.checkDelays rules).filter Diagnostic.isError = [] :=
    List.filter_eq_nil_iff.2 fun d hd => by simp [(of_mem_checkDelays hd).2]
  have himport : (p.checkImport? c rules).toList.filter Diagnostic.isError = [] :=
    List.filter_eq_nil_iff.2 fun d hd => by
      simp [(of_checkImport? (Option.mem_toList.1 hd)).2]
  have hentry : (p.checkEntryPoint? rules).toList.filter Diagnostic.isError =
      (p.checkEntryPoint? rules).toList :=
    List.filter_eq_self.2 fun d hd => (of_checkEntryPoint? (Option.mem_toList.1 hd)).2
  rw [verdict, Diagnostic.divide, List.partition_eq_filter_filter, diagnostics,
    List.filter_append, List.filter_append, List.filter_append, hdelays, himport, hentry,
    List.append_nil, List.append_nil]

end Program
end DspCheck
