import DspCheck.Proofs.Check.ImportLine

/-!
# Members of local libraries

A binding of a library or an environment makes its name a local library.  Nothing is said about the
calls of its members, wherever they stand (`Program.library_notMem_of_mem_check`).  The check
for imports looks at the references and at the catalog only: where no library is imported, it warns
of the first reference to a library of the catalog, also if the program binds that name itself
(`Program.exists_missingImport_iff`).

Main statement: `startsAtMember_of_mem_localLibraries`.
-/

namespace DspCheck

/-- The bytes that a diagnostic is about start with a member of a library. -/
def Diagnostic.StartsAtMember (d : Diagnostic) (source library : Text) : Prop :=
  ∃ before behind, source = before ++ library ++ '.' :: behind ∧
    ∃ span, d.span? = some span ∧ span.start = Text.byteSize before

namespace Program

variable {c : Catalog} {rules : Rules} {source library : Text} {p : Program} {d : Diagnostic}

/-- A remark that is put where a reference starts is about a member of its library, and of no
other. -/
theorem startsAtMember_iff (hp : ofSource source = .ok p) {l : ProgramLine} (hl : l ∈ p)
    {r : Reference} (hr : r ∈ l.references) {m : Remark} (hm : m.start = r.start)
    (hlibrary : Ident.isIdent library = true) :
    (m.diagnostic l.toLine).StartsAtMember source library ↔ r.library = library := by
  obtain ⟨front, rest, htext, hstart, -, hident⟩ :=
    ProgramLine.exists_of_mem_references (isRead_of_mem hp hl) hr
  obtain ⟨before, behind, hstands⟩ := Line.exists_stands (line_of_mem_ofSource hp hl).1
  have hsource : source =
      (before ++ front) ++ (r.library ++ '.' :: (r.name ++ rest ++ behind)) := by
    rw [hstands.split, htext, Reference.fullName, Ident.qualified]
    simp
  have hspan : (m.diagnostic l.toLine).span? =
      some (Span.between (l.offset + m.start) (l.offset + m.stop)) := rfl
  have hposition : l.offset + m.start = Text.byteSize (before ++ front) := by
    rw [hm, hstart, hstands.offset, Text.byteSize_append]
  constructor
  · rintro ⟨before', behind', hsource', span, hspan', hstart'⟩
    obtain rfl := Option.some.inj (hspan.symm.trans hspan')
    rw [Span.start_between, hposition] at hstart'
    rw [hsource, List.append_assoc before'] at hsource'
    obtain ⟨-, hmember⟩ := Text.append_inj_of_byteSize hsource' hstart'
    -- a library ends where its dot stands
    have hdot : ∀ t : Text, Text.EndsAt Ident.isPart ('.' :: t) := Text.endsAt_cons (by decide)
    rw [← Ident.leading_append hident (hdot (r.name ++ rest ++ behind)), hmember,
      Ident.leading_append hlibrary (hdot behind')]
  · rintro rfl
    refine ⟨before ++ front, r.name ++ rest ++ behind, ?_, _, hspan, ?_⟩
    · rw [hsource, List.append_assoc (before ++ front)]
    · rw [Span.start_between, hposition]

/-- A diagnostic about a call is not about a member of a local library. -/
theorem library_notMem_of_mem_check (hp : ofSource source = .ok p) (hd : d ∈ p.check c rules)
    (hcode : d.code? ∈ [some Code.unknownLibrary, some .unknownFunction, some .argumentCount])
    (hlibrary : Ident.isIdent library = true) (hstarts : d.StartsAtMember source library) :
    library ∉ p.localLibraries := by
  obtain ⟨l, hl, hd⟩ := List.mem_flatMap.1 hd
  obtain ⟨m, hm, rfl⟩ := List.mem_map.1 hd
  rcases List.mem_append.1 hm with hm | hm
  · obtain ⟨b, -, hm⟩ := List.mem_flatMap.1 hm
    have hm' : (m.diagnostic l.toLine).code? = some m.finding.code := rfl
    rw [hm'] at hcode
    rcases Binding.code_of_mem_remarks hm with h | h <;> simp [h] at hcode
  · obtain ⟨r, hr, hm⟩ := List.mem_filterMap.1 hm
    obtain ⟨hcall, hlocal⟩ := List.mem_filter.1 hr
    have hmem : r ∈ l.references := (List.mem_filter.1 hcall).1
    rw [← (startsAtMember_iff hp hl hmem (Reference.start_of_remark? hm) hlibrary).1 hstarts]
    simpa using hlocal

/-- The first reference of a program to a library of the catalog. -/
def firstKnownReference? (c : Catalog) (p : Program) : Option Reference :=
  p.findSome? fun l => l.references.find? fun r => c.hasLibrary r.library

/-- There is a warning about the import of a library if and only if none is imported and the first
reference to a library of the catalog is to that one. -/
theorem exists_missingImport_iff (hp : ofSource source = .ok p)
    (hlibrary : Ident.isIdent library = true) :
    (∃ d ∈ p.diagnostics c rules, d.code? = some .missingImport ∧
      d.StartsAtMember source library) ↔
    p.hasImport rules = false ∧ ∃ r, p.firstKnownReference? c = some r ∧ r.library = library := by
  constructor
  · rintro ⟨d, hd, hcode, hstarts⟩
    have hcheck := checkImport?_of_mem_diagnostics hd hcode
    rw [checkImport?] at hcheck
    split at hcheck
    · cases hcheck
    · next himport =>
        obtain ⟨front, l, rest, rfl, hfirst, hnone⟩ := List.findSome?_eq_some_iff.1 hcheck
        obtain ⟨r, hr, rfl⟩ := Option.map_eq_some_iff.1 hfirst
        refine ⟨Bool.eq_false_iff.2 himport, r, ?_, ?_⟩
        · exact List.findSome?_eq_some_iff.2 ⟨front, l, rest, rfl, hr,
            fun x hx => Option.map_eq_none_iff.1 (hnone x hx)⟩
        · have hl : l ∈ front ++ l :: rest := List.mem_append_right _ List.mem_cons_self
          exact (startsAtMember_iff hp hl (List.mem_of_find?_eq_some hr) rfl hlibrary).1 hstarts
  · rintro ⟨himport, r, hfirst, rfl⟩
    obtain ⟨front, l, rest, rfl, hr, hnone⟩ := List.findSome?_eq_some_iff.1 hfirst
    have hl : l ∈ front ++ l :: rest := List.mem_append_right _ List.mem_cons_self
    have hcheck : checkImport? c rules (front ++ l :: rest) = some (Remark.diagnostic l.toLine
        ⟨.missingImport r.library, r.start, r.start + Text.byteSize r.library⟩) := by
      rw [checkImport?, himport, if_neg Bool.false_ne_true]
      exact List.findSome?_eq_some_iff.2 ⟨front, l, rest, rfl,
        Option.map_eq_some_iff.2 ⟨r, hr, rfl⟩, fun x hx => Option.map_eq_none_iff.2 (hnone x hx)⟩
    refine ⟨_, mem_diagnostics_iff.2 (Or.inr (Or.inr (Or.inl hcheck))), rfl, ?_⟩
    exact (startsAtMember_iff hp hl (List.mem_of_find?_eq_some hr) rfl hlibrary).2 rfl

end Program

/-- No diagnostic about a call is about a member of a local library.  The warning that no library is
imported is about a member of one if it is the first library of the catalog that the program refers
to. -/
theorem startsAtMember_of_mem_localLibraries {c : Catalog} {rules : Rules} {source library : Text}
    {v : Verdict} (hv : validate c rules source = .ok v)
    (hlocal : ∃ l ∈ Line.ofSource source, ∃ b ∈ l.bindings,
      b.isLibrary = true ∧ b.name = library) :
    (∀ d ∈ v.errors ++ v.warnings,
      d.code? ∈ [some Code.unknownLibrary, some .unknownFunction, some .argumentCount] →
      ¬ d.StartsAtMember source library) ∧
    ∃ p, Program.ofSource source = .ok p ∧
      ((∃ d ∈ v.errors ++ v.warnings, d.code? = some .missingImport ∧
          d.StartsAtMember source library) ↔
        p.hasImport rules = false ∧
          ∃ r, p.firstKnownReference? c = some r ∧ r.library = library) := by
  obtain ⟨p, hp, rfl⟩ := exists_verdict_of_validate hv
  obtain ⟨line, hline, b, hb, hisLibrary, rfl⟩ := hlocal
  have hident : Ident.isIdent b.name = true := (Line.exists_of_mem_bindings hb).1
  have hmem : b.name ∈ p.localLibraries := by
    rw [← Program.map_toLine_of_ofSource hp] at hline
    obtain ⟨l, hl, rfl⟩ := List.mem_map.1 hline
    have hbindings : b ∈ p.bindings := List.mem_flatMap.2 ⟨l, hl, hb⟩
    exact List.mem_map_of_mem (List.mem_filter.2 ⟨hbindings, hisLibrary⟩)
  simp only [Program.mem_verdict_iff]
  refine ⟨fun d hd hcode hstarts => ?_, p, hp, Program.exists_missingImport_iff hp hident⟩
  have hcheck : d ∈ p.check c rules := by
    rcases Program.mem_diagnostics_iff.1 hd with hd | hd | hd | hd
    · exact hd
    · simp [(Program.of_mem_checkDelays hd).1] at hcode
    · simp [(Program.of_checkImport? hd).1] at hcode
    · simp [(Program.of_checkEntryPoint? hd).1] at hcode
  exact Program.library_notMem_of_mem_check hp hcheck hcode hident hstarts hmem

/-- A program that calls a member of its own environment, which has the name of a library. -/
def ownFilters : Text :=
  "process = fi.lowpass(1);\nfi = environment \x7b lowpass(x) = x; \x7d;"

theorem exists_isLibrary_ownFilters :
    ∃ l ∈ Line.ofSource ownFilters, ∃ b ∈ l.bindings, b.isLibrary = true ∧ b.name = "fi" := by
  decide

theorem validate_ownFilters : validate lowpassCatalog .standard ownFilters =
    .ok ⟨[], [(Finding.missingImport "fi").diagnostic.putAt "process = " "fi"], []⟩ := by
  decide +kernel

/-- Nothing is said about the number of arguments, but there is a warning about the import. -/
theorem exists_missingImport_ownFilters :
    ∃ v, validate lowpassCatalog .standard ownFilters = .ok v ∧
      ∃ d ∈ v.errors ++ v.warnings, d.code? = some .missingImport ∧
        d.StartsAtMember ownFilters "fi" := by
  obtain ⟨-, p, hp, hiff⟩ :=
    startsAtMember_of_mem_localLibraries validate_ownFilters exists_isLibrary_ownFilters
  have hfirst : (Program.ofSource ownFilters).map (fun p => (p.hasImport Rules.standard,
      (p.firstKnownReference? lowpassCatalog).map Reference.library)) =
        .ok (false, some "fi") := by
    decide
  rw [hp] at hfirst
  obtain ⟨himport, hlibrary⟩ := Prod.mk.inj (Except.ok.inj hfirst)
  exact ⟨_, validate_ownFilters, hiff.2 ⟨himport, Option.map_eq_some_iff.1 hlibrary⟩⟩

/-- So local libraries are not respected by every check. -/
theorem not_forall_not_startsAtMember :
    ¬ ∀ (c : Catalog) (rules : Rules) (source library : Text) (v : Verdict),
      validate c rules source = .ok v →
      (∃ l ∈ Line.ofSource source, ∃ b ∈ l.bindings, b.isLibrary = true ∧ b.name = library) →
      ∀ d ∈ v.errors ++ v.warnings,
        d.code? ∈ [some Code.unknownLibrary, some .missingImport, some .unknownFunction,
          some .argumentCount] →
        ¬ d.StartsAtMember source library := by
  intro h
  have hspan : ((Finding.missingImport "fi").diagnostic.putAt "process = " "fi").StartsAtMember
      ownFilters "fi" :=
    ⟨"process = ", "lowpass(1);\nfi = environment \x7b lowpass(x) = x; \x7d;", rfl, _, rfl, rfl⟩
  exact h _ _ _ _ _ validate_ownFilters exists_isLibrary_ownFilters _
    (List.mem_singleton_self _) (by decide) hspan

end DspCheck
