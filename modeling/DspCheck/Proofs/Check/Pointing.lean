import DspCheck.Proofs.Check.Places

/-!
# What the diagnostics of a program point at

A diagnostic *points at* a text of a program if its line, its column and its span are those of that
text, and the text is what the diagnostic is about (`Diagnostic.PointsAt`).  Every diagnostic with a
line points at a text of the program that was validated, so the label that is drawn for it lies in
the program.

Main statement: `exists_pointsAt_of_validate`.
-/

namespace DspCheck

/-- A reference of a program starts behind a text. -/
def Reference.StartsBehind (source before : Text) (r : Reference) : Prop :=
  ∃ p, Program.ofSource source = .ok p ∧
    ∃ l ∈ p, r ∈ l.references ∧ Text.byteSize before = l.offset + r.start

namespace Diagnostic

/-- A diagnostic of a finding points at the text `under` of a program. -/
structure PointsAt (d : Diagnostic) (source : Text) (f : Finding)
    (before under behind : Text) : Prop where
  split : source = before ++ under ++ behind
  code : d.code? = some f.code
  message : d.message = f.message
  line : d.line = Text.lineBehind before
  column : d.column = Text.columnBehind before
  span : d.span? = some (Span.between (Text.byteSize before) (Text.byteSize (before ++ under)))
  noBreak : '\n' ∉ under
  about : f.IsAbout (Reference.StartsBehind source before) under behind

variable {d : Diagnostic} {source : Text} {f : Finding} {before under behind : Text}

theorem pointsAt_putAt (hsplit : source = before ++ under ++ behind) (hbreak : '\n' ∉ under)
    (habout : f.IsAbout (Reference.StartsBehind source before) under behind) :
    (f.diagnostic.putAt before under).PointsAt source f before under behind where
  split := hsplit
  code := rfl
  message := rfl
  line := rfl
  column := rfl
  span := by rw [Text.byteSize_append]; rfl
  noBreak := hbreak
  about := habout

/-- A text that is pointed at lies in the program. -/
theorem PointsAt.le_byteSize (h : d.PointsAt source f before under behind) :
    Text.byteSize before + Text.byteSize under ≤ Text.byteSize source := by
  rw [h.split, Text.byteSize_append, Text.byteSize_append]
  omega

/-- The label of a diagnostic covers the text that it points at. -/
theorem PointsAt.label?_eq (h : d.PointsAt source f before under behind) :
    (Notice.ofDiagnostic source d).label? =
      some ⟨some f.code.description, Text.byteSize before, Text.byteSize under⟩ := by
  have hle : Text.byteSize before ≤ Text.byteSize (before ++ under) := by
    rw [Text.byteSize_append]
    omega
  rw [Notice.ofDiagnostic, h.span, h.code, Option.map_some, Option.map_some, Span.length,
    Span.stop_between_of_le hle, Span.start_between, Text.byteSize_append, Nat.add_sub_cancel_left]
  rfl

end Diagnostic

namespace Program

variable {c : Catalog} {rules : Rules} {source : Text} {p : Program} {d : Diagnostic}

/-- The diagnostic comes from a remark on a line of the program. -/
def IsRemarked (p : Program) (d : Diagnostic) : Prop :=
  ∃ l ∈ p, ∃ m : Remark, m.IsOn l ∧ d = m.diagnostic l.toLine

theorem isRead_of_mem (hp : ofSource source = .ok p) {l : ProgramLine} (hl : l ∈ p) :
    l.IsRead := by
  obtain ⟨hline, hscan⟩ := line_of_mem_ofSource hp hl
  obtain ⟨before, behind, hstands⟩ := Line.exists_stands hline
  exact ⟨hstands.masked, hscan⟩

theorem isOn_of_mem_remarks {l : ProgramLine} (hread : l.IsRead) {locals : List Text} {m : Remark}
    (hm : m ∈ l.bindingRemarks ++ l.callRemarks c rules locals) : m.IsOn l := by
  rcases List.mem_append.1 hm with hm | hm
  · obtain ⟨b, hb, hm⟩ := List.mem_flatMap.1 hm
    rcases List.mem_append.1 hm with hm | hm
    · exact ProgramLine.isOn_of_recursion? hread hb (Option.mem_toList.1 hm)
    · exact ProgramLine.isOn_of_stringValue? hread hb (Option.mem_toList.1 hm)
  · obtain ⟨r, hr, hm⟩ := List.mem_filterMap.1 hm
    have hcall : r ∈ l.calls := (List.mem_filter.1 hr).1
    exact ProgramLine.isOn_of_remark? hread (List.mem_filter.1 hcall).1 hm

theorem isRemarked_of_mem_check (hp : ofSource source = .ok p) (hd : d ∈ p.check c rules) :
    p.IsRemarked d := by
  obtain ⟨l, hl, hd⟩ := List.mem_flatMap.1 hd
  obtain ⟨m, hm, rfl⟩ := List.mem_map.1 hd
  exact ⟨l, hl, m, isOn_of_mem_remarks (isRead_of_mem hp hl) hm, rfl⟩

theorem isRemarked_of_mem_checkDelays (hp : ofSource source = .ok p)
    (hd : d ∈ p.checkDelays rules) : p.IsRemarked d := by
  obtain ⟨l, hl, hd⟩ := List.mem_flatMap.1 hd
  obtain ⟨m, hm, rfl⟩ := List.mem_map.1 hd
  obtain ⟨delay, hdelay, hm⟩ := List.mem_filterMap.1 hm
  exact ⟨l, hl, m, ProgramLine.isOn_of_delay (isRead_of_mem hp hl) hdelay hm, rfl⟩

theorem isRemarked_of_checkImport? (hp : ofSource source = .ok p)
    (hd : p.checkImport? c rules = some d) : p.IsRemarked d := by
  unfold checkImport? at hd
  split at hd
  · cases hd
  · obtain ⟨l, hl, hd⟩ := List.exists_of_findSome?_eq_some hd
    obtain ⟨r, hr, rfl⟩ := Option.map_eq_some_iff.1 hd
    have hon : Remark.IsOn ⟨.missingImport r.library, r.start,
        r.start + Text.byteSize r.library⟩ l :=
      ProgramLine.isOn_of_library (isRead_of_mem hp hl) (List.mem_of_find?_eq_some hr)
        fun _ _ => rfl
    exact ⟨l, hl, _, hon, rfl⟩

/-- A diagnostic about a program comes from a line of it, or it is about the program as a whole and
has no line. -/
theorem isRemarked_or_of_mem_diagnostics (hp : ofSource source = .ok p)
    (hd : d ∈ p.diagnostics c rules) : p.IsRemarked d ∨ d.line = 0 := by
  unfold diagnostics at hd
  rcases List.mem_append.1 hd with hd | hd
  · rcases List.mem_append.1 hd with hd | hd
    · rcases List.mem_append.1 hd with hd | hd
      · exact Or.inl (isRemarked_of_mem_check hp hd)
      · exact Or.inl (isRemarked_of_mem_checkDelays hp hd)
    · exact Or.inl (isRemarked_of_checkImport? hp (Option.mem_toList.1 hd))
  · rw [Option.mem_toList, checkEntryPoint?] at hd
    split at hd
    · cases hd
    · obtain rfl := Option.some.inj hd
      exact Or.inr rfl

/-- What a remark marks on a line is what its diagnostic points at in the program. -/
theorem exists_pointsAt_of_isRemarked (hp : ofSource source = .ok p) (hd : p.IsRemarked d) :
    ∃ f before under behind, d.PointsAt source f before under behind := by
  obtain ⟨l, hl, m, ⟨front, under, rest, hmarks⟩, rfl⟩ := hd
  obtain ⟨before, behind, hstands⟩ := Line.exists_stands (line_of_mem_ofSource hp hl).1
  have hplace : m.diagnostic l.toLine = m.finding.diagnostic.putAt (before ++ front) under := by
    rw [Remark.diagnostic, hmarks.start, hmarks.stop]
    exact hstands.place_eq _ hmarks.split
  have hunder : '\n' ∉ under := by
    intro hmem
    apply hstands.noBreak
    rw [hmarks.split]
    exact List.mem_append_left _ (List.mem_append_right _ hmem)
  refine ⟨m.finding, before ++ front, under, rest ++ behind, ?_⟩
  rw [hplace]
  refine Diagnostic.pointsAt_putAt ?_ hunder (hmarks.about.mono ?_ (List.prefix_append _ _))
  · rw [hstands.split, hmarks.split]
    simp
  · rintro r ⟨hr, hstart⟩
    refine ⟨p, hp, l, hl, hr, ?_⟩
    rw [Text.byteSize_append, hstands.offset, hstart]

end Program

/-- Every diagnostic with a line points at a text of the program, and its label lies in the
program. -/
theorem exists_pointsAt_of_validate {c : Catalog} {rules : Rules} {source : Text} {v : Verdict}
    (hv : validate c rules source = .ok v) {d : Diagnostic} (hd : d ∈ v.errors ++ v.warnings)
    (hline : d.line ≠ 0) :
    ∃ f before under behind, d.PointsAt source f before under behind ∧
      (∃ s, d.span? = some s ∧ s.start ≤ s.stop ∧ s.stop ≤ Text.byteSize source) ∧
      ∃ label, (Notice.ofDiagnostic source d).label? = some label ∧
        label.start = Text.byteSize before ∧ label.length = Text.byteSize under ∧
        label.start + label.length ≤ Text.byteSize source := by
  unfold validate at hv
  cases hp : Program.ofSource source with
  | error e =>
      rw [hp] at hv
      cases hv
  | ok p =>
      rw [hp] at hv
      obtain rfl := Except.ok.inj hv
      have hmem : d ∈ p.diagnostics c rules := by
        rw [Program.verdict, Diagnostic.divide, List.partition_eq_filter_filter] at hd
        rcases List.mem_append.1 hd with hd | hd
        · exact (List.mem_filter.1 hd).1
        · exact (List.mem_filter.1 hd).1
      have hremarked : p.IsRemarked d :=
        (Program.isRemarked_or_of_mem_diagnostics hp hmem).resolve_right hline
      obtain ⟨f, before, under, behind, h⟩ := Program.exists_pointsAt_of_isRemarked hp hremarked
      refine ⟨f, before, under, behind, h, ⟨_, h.span, Span.le _, ?_⟩, _, h.label?_eq, rfl, rfl,
        h.le_byteSize⟩
      rw [Span.stop_between_of_le (by rw [Text.byteSize_append]; omega), Text.byteSize_append]
      exact h.le_byteSize

/-- The theorem at a literal behind a comment, where bytes and scalars differ. -/
theorem exists_pointsAt_literal :
    ∃ v d, validate Catalog.empty Rules.standard "/* é */ s = \"ü\";\nprocess = s;" = .ok v ∧
      d ∈ v.errors ++ v.warnings ∧ d.line ≠ 0 ∧
      ∃ f before under behind,
        d.PointsAt "/* é */ s = \"ü\";\nprocess = s;" f before under behind := by
  have hv : validate Catalog.empty Rules.standard "/* é */ s = \"ü\";\nprocess = s;" =
      .ok ⟨[(Finding.stringAssignment "s").diagnostic.putAt "/* é */ s = " "\"ü\""], [], []⟩ := by
    decide +kernel
  have hd := List.mem_append_left ([] : List Diagnostic)
    (List.mem_singleton_self
      ((Finding.stringAssignment "s").diagnostic.putAt "/* é */ s = " "\"ü\""))
  obtain ⟨f, before, under, behind, h, -⟩ := exists_pointsAt_of_validate hv hd (by decide)
  exact ⟨_, _, hv, hd, by decide, f, before, under, behind, h⟩

end DspCheck
