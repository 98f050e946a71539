import DspCheck.Proofs.Bytewise.Runs
import DspCheck.Proofs.Check.Pointing
import DspCheck.Proofs.Check.TopLevel
import DspCheck.Proofs.Renaming.Source

/-!
# The order of diagnostics

Each line is examined twice, first for its bindings and then for its calls.  So the diagnostics of a
program are in the order of their lines, on each line those about bindings come before those about
calls, and only then columns count (`Diagnostic.IsCheckedBefore`).

A line with several statements may have a call before a binding.  Then the diagnostics of the line
are not in the order in which they stand in the source (`not_forall_pairwise_precedes`).

Main statement: `pairwise_of_check`.
-/

namespace DspCheck

namespace Diagnostic

/-- The place of a diagnostic is not behind that of another one. -/
def Precedes (d e : Diagnostic) : Prop :=
  d.line < e.line ∨ d.line = e.line ∧ d.column ≤ e.column

/-- Whether a diagnostic is about a binding. -/
def isAboutBinding (d : Diagnostic) : Bool :=
  d.code? = some .recursiveDefinition || d.code? = some .stringAssignment

/-- The order of checking: by lines, on a line bindings before calls, and then by columns. -/
def IsCheckedBefore (d e : Diagnostic) : Prop :=
  d.line < e.line ∨ d.line = e.line ∧
    (d.isAboutBinding = true ∧ e.isAboutBinding = false ∨
      d.isAboutBinding = e.isAboutBinding ∧ d.column ≤ e.column)

/-- On one line, a diagnostic about a binding does not stand behind one about a call. -/
def PrecedesCall (d e : Diagnostic) : Prop :=
  d.line = e.line → d.isAboutBinding = true → e.isAboutBinding = false → d.column ≤ e.column

/-- Diagnostics in the order of checking are in the order of the source if and only if no call
stands before a binding on a line. -/
theorem pairwise_precedes_iff {ds : List Diagnostic} (h : ds.Pairwise IsCheckedBefore) :
    ds.Pairwise Precedes ↔ ∀ d ∈ ds, ∀ e ∈ ds, d.PrecedesCall e := by
  constructor
  · intro hprecedes
    have hself : ∀ d ∈ ds, d.PrecedesCall d := fun d _ _ _ _ => Nat.le_refl _
    have hforward : ds.Pairwise PrecedesCall := by
      refine hprecedes.imp fun {d e} hde hline _ _ => ?_
      rcases hde with hlt | ⟨-, hcolumn⟩
      · exact absurd hline (Nat.ne_of_lt hlt)
      · exact hcolumn
    -- behind a diagnostic about a call there is none about a binding of its line
    have hbackward : ds.Pairwise (flip PrecedesCall) := by
      refine h.imp fun {d e} hde hline hbinding hcall => ?_
      rcases hde with hlt | ⟨-, ⟨hbinding', -⟩ | ⟨hphase, -⟩⟩
      · exact absurd hline.symm (Nat.ne_of_lt hlt)
      · cases hbinding'.symm.trans hcall
      · cases hbinding.symm.trans (hphase.symm.trans hcall)
    exact hforward.forall_of_forall_of_flip hself hbackward
  · intro hcalls
    refine h.imp_of_mem fun {d e} hd he hde => ?_
    rcases hde with hline | ⟨hline, ⟨hbinding, hcall⟩ | ⟨-, hcolumn⟩⟩
    · exact Or.inl hline
    · exact Or.inr ⟨hline, hcalls d hd e he hline hbinding hcall⟩
    · exact Or.inr ⟨hline, hcolumn⟩

end Diagnostic

/-- More bytes have no fewer scalars. -/
theorem Text.scalarsBefore_le_scalarsBefore (t : Text) {m n : Nat} (h : m ≤ n) :
    scalarsBefore t m ≤ scalarsBefore t n := by
  induction t generalizing m n with
  | nil =>
      exact Nat.le_refl 0
  | cons c t ih =>
      rcases Nat.eq_zero_or_pos m with rfl | hm
      · exact Nat.zero_le _
      · rw [scalarsBefore_cons c t hm, scalarsBefore_cons c t (Nat.lt_of_lt_of_le hm h)]
        exact Nat.add_le_add_left (ih (Nat.sub_le_sub_right h _)) 1

/-- Remarks of which none starts before an earlier one. -/
def AreInOrder (ms : List Remark) : Prop :=
  ms.Pairwise fun m m' => m.start ≤ m'.start

/-! ## The remarks about a line -/

theorem Remark.isAboutBinding_diagnostic (m : Remark) (l : Line) :
    (m.diagnostic l).isAboutBinding =
      (m.finding.code = .recursiveDefinition || m.finding.code = .stringAssignment) := by
  simp [Diagnostic.isAboutBinding, diagnostic, Line.place, Finding.diagnostic, Diagnostic.ofCode]

namespace Binding

theorem start_of_recursion? {b : Binding} {m : Remark} (h : b.recursion? = some m) :
    m.start = b.nameStart := by
  rw [recursion?] at h
  split at h
  · obtain rfl := Option.some.inj h
    rfl
  · cases h

theorem start_of_stringValue? {b : Binding} {m : Remark} (h : b.stringValue? = some m) :
    m.start = b.valueStart := by
  obtain ⟨literal, -, rfl⟩ := Option.map_eq_some_iff.1 h
  rfl

theorem start_of_mem_remarks {b : Binding} {m : Remark} (h : m ∈ b.remarks) :
    m.start = b.nameStart ∨ m.start = b.valueStart := by
  rcases List.mem_append.1 h with h | h
  · exact Or.inl (start_of_recursion? (Option.mem_toList.1 h))
  · exact Or.inr (start_of_stringValue? (Option.mem_toList.1 h))

/-- The remark about the name of a binding comes before the one about its value. -/
theorem areInOrder_remarks {b : Binding} (h : b.nameStart ≤ b.valueStart) :
    AreInOrder b.remarks := by
  refine List.pairwise_append.2 ⟨?_, ?_, fun m hm m' hm' => ?_⟩
  · cases b.recursion? <;> simp
  · cases b.stringValue? <;> simp
  · rw [start_of_recursion? (Option.mem_toList.1 hm),
      start_of_stringValue? (Option.mem_toList.1 hm')]
    exact h

end Binding

/-- The value of a binding stands behind its name, and both stand in the statement. -/
theorem Statement.bounds_of_binding? {s : Statement} {b : Binding} (h : s.binding? = some b) :
    s.start ≤ b.nameStart ∧ b.nameStart ≤ b.valueStart ∧
      b.valueStart ≤ s.start + Text.byteSize s.text := by
  obtain ⟨indent, gap, pad, htext, -, hname, hvalue⟩ := exists_of_binding? h
  rw [hname, hvalue, htext]
  simp only [Text.byteSize_append, Text.byteSize_cons]
  omega

/-- The remarks about the bindings of a line are found from left to right. -/
theorem Line.areInOrder_bindingRemarks (l : Line) : AreInOrder l.bindingRemarks := by
  refine List.pairwise_flatMap.2 ⟨fun b hb => ?_, List.pairwise_filterMap.2 ?_⟩
  · obtain ⟨s, -, hs⟩ := List.mem_filterMap.1 hb
    exact Binding.areInOrder_remarks (Statement.bounds_of_binding? hs).2.1
  · refine l.pairwise_statements.imp fun hlt b hb b' hb' m hm m' hm' => ?_
    have hbounds := Statement.bounds_of_binding? hb
    have hbounds' := Statement.bounds_of_binding? hb'
    have hstart := Binding.start_of_mem_remarks hm
    have hstart' := Binding.start_of_mem_remarks hm'
    omega

namespace ProgramLine

variable {c : Catalog} {rules : Rules} {locals : List Text} {l : ProgramLine}

/-- The remarks about the calls of a line are found from left to right. -/
theorem areInOrder_callRemarks (hl : l.IsRead) : AreInOrder (l.callRemarks c rules locals) := by
  have hreferences : l.references.Pairwise fun r r' => r.start ≤ r'.start := by
    refine (Reference.pairwise_of_scan hl.scanned).imp_of_mem fun hr _ hlt => ?_
    obtain ⟨front, blanks, hstands⟩ := Reference.exists_stands_of_scan hl.scanned hr
    have hstop := hstands.stop
    omega
  refine List.pairwise_filterMap.2 (((hreferences.filter _).filter _).imp ?_)
  intro r r' hle m hm m' hm'
  rw [Reference.start_of_remark? hm, Reference.start_of_remark? hm']
  exact hle

/-- The diagnostics of a line are in the order of checking. -/
theorem pairwise_check (hl : l.IsRead) :
    (l.check c rules locals).Pairwise Diagnostic.IsCheckedBefore := by
  have hbinding : ∀ m ∈ l.bindingRemarks, (m.diagnostic l.toLine).isAboutBinding = true := by
    intro m hm
    obtain ⟨b, -, hm⟩ := List.mem_flatMap.1 hm
    rcases Binding.code_of_mem_remarks hm with h | h <;> simp [m.isAboutBinding_diagnostic, h]
  have hcall : ∀ m ∈ l.callRemarks c rules locals,
      (m.diagnostic l.toLine).isAboutBinding = false := by
    intro m hm
    obtain ⟨r, -, hm⟩ := List.mem_filterMap.1 hm
    rcases Reference.code_of_remark? hm with h | h | h <;> simp [m.isAboutBinding_diagnostic, h]
  have hmono : ∀ {m n : Nat}, m ≤ n → l.column m ≤ l.column n := fun hle =>
    Nat.add_le_add_right (l.text.scalarsBefore_le_scalarsBefore hle) 1
  refine List.pairwise_map.2 (List.pairwise_append.2 ⟨?_, ?_, fun m hm m' hm' => ?_⟩)
  · refine l.areInOrder_bindingRemarks.imp_of_mem fun hm hm' hle => ?_
    refine Or.inr ⟨rfl, Or.inr ⟨?_, hmono hle⟩⟩
    rw [hbinding _ hm, hbinding _ hm']
  · refine (areInOrder_callRemarks hl).imp_of_mem fun hm hm' hle => ?_
    refine Or.inr ⟨rfl, Or.inr ⟨?_, hmono hle⟩⟩
    rw [hcall _ hm, hcall _ hm']
  · exact Or.inr ⟨rfl, Or.inl ⟨hbinding m hm, hcall m' hm'⟩⟩

end ProgramLine

/-- The diagnostics of a program are in the order of checking: by lines, on a line those about
bindings before those about calls, and then by columns.  They are in the order of the source if and
only if none about a call stands before one about a binding of its line. -/
theorem pairwise_of_check {c : Catalog} {rules : Rules} {source : Text} {ds : List Diagnostic}
    (h : check c rules source = .ok ds) :
    ds.Pairwise Diagnostic.IsCheckedBefore ∧
    (ds.Pairwise Diagnostic.Precedes ↔ ∀ d ∈ ds, ∀ e ∈ ds, d.PrecedesCall e) := by
  obtain ⟨p, hp, rfl⟩ := exists_of_map_eq_ok h
  have hchecked : (p.check c rules).Pairwise Diagnostic.IsCheckedBefore := by
    refine List.pairwise_flatMap.2 ⟨fun l hl => ?_, ?_⟩
    · exact ProgramLine.pairwise_check (Program.isRead_of_mem hp hl)
    · refine (Program.pairwise_ofSource hp).imp fun hlines d hd e he => Or.inl ?_
      obtain ⟨m, -, rfl⟩ := List.mem_map.1 hd
      obtain ⟨m', -, rfl⟩ := List.mem_map.1 he
      exact hlines.number
  exact ⟨hchecked, Diagnostic.pairwise_precedes_iff hchecked⟩

/-- A program with a call before a binding on a line. -/
def callBeforeBinding : Text := "process = xy.f(1); s = \"a\";"

theorem check_callBeforeBinding : check Catalog.empty .standard callBeforeBinding =
    .ok [(Finding.stringAssignment "s").diagnostic.putAt "process = xy.f(1); s = " "\"a\"",
      (Finding.unknownLibrary "xy" []).diagnostic.putAt "process = " "xy"] := by
  decide +kernel

/-- The call is checked behind the binding. -/
theorem pairwise_of_check_callBeforeBinding :
    ∃ ds, check Catalog.empty .standard callBeforeBinding = .ok ds ∧
      ds.Pairwise Diagnostic.IsCheckedBefore ∧ ¬ ds.Pairwise Diagnostic.Precedes := by
  obtain ⟨hchecked, hprecedes⟩ := pairwise_of_check check_callBeforeBinding
  refine ⟨_, check_callBeforeBinding, hchecked, fun h => ?_⟩
  have hcolumn := hprecedes.1 h _ List.mem_cons_self _ (List.mem_cons_of_mem _ List.mem_cons_self)
  exact absurd (hcolumn rfl rfl rfl) (by decide)

/-- So diagnostics are not always in the order of the source. -/
theorem not_forall_pairwise_precedes :
    ¬ ∀ (c : Catalog) (rules : Rules) (source : Text) (ds : List Diagnostic),
      check c rules source = .ok ds → ds.Pairwise Diagnostic.Precedes := by
  intro h
  have hpair := h _ _ _ _ check_callBeforeBinding
  have hprecedes := List.rel_of_pairwise_cons hpair List.mem_cons_self
  revert hprecedes
  unfold Diagnostic.Precedes
  decide

end DspCheck
