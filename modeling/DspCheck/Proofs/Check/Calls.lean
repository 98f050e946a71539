import DspCheck.Check.Calls
import Mathlib.Data.List.Basic

/-!
# Calls one by one

What is said about one reference is a function of the reference and of the names around it
(`Reference.remarkIn?`), and the remarks about the calls of a line are those about its references
(`ProgramLine.callRemarks_eq_filterMap`).  A remark about an unknown function tells what is known of
its library, and the diagnostic about it stands among those about the calls of its line
(`ProgramLine.exists_of_check_eq_append`).
-/

namespace DspCheck

/-- A member of a list of lists stands in one of them. -/
theorem exists_of_flatMap_eq_append {α β : Type} {f : α → List β} {as : List α}
    {front back : List β} {b : β} (h : as.flatMap f = front ++ b :: back) :
    ∃ as₁ a as₂ bs₁ bs₂, as = as₁ ++ a :: as₂ ∧ f a = bs₁ ++ b :: bs₂ ∧
      front = as₁.flatMap f ++ bs₁ ∧ back = bs₂ ++ as₂.flatMap f := by
  induction as generalizing front with
  | nil =>
      simp at h
  | cons a as ih =>
      rw [List.flatMap_cons] at h
      rcases List.append_eq_append_iff.1 h with ⟨bs, rfl, hbs⟩ | ⟨bs, ha, hbs⟩
      · obtain ⟨as₁, a', as₂, bs₁, bs₂, rfl, ha', rfl, rfl⟩ := ih hbs
        exact ⟨a :: as₁, a', as₂, bs₁, bs₂, rfl, ha', by simp, rfl⟩
      · cases bs with
        | nil =>
            have hbs' : as.flatMap f = [] ++ b :: back := hbs.symm
            obtain ⟨as₁, a', as₂, bs₁, bs₂, rfl, ha', hfront, rfl⟩ := ih hbs'
            rw [List.append_nil] at ha
            refine ⟨a :: as₁, a', as₂, bs₁, bs₂, rfl, ha', ?_, rfl⟩
            rw [List.flatMap_cons, List.append_assoc, ← hfront, ha, List.append_nil]
        | cons b' bs =>
            obtain ⟨rfl, rfl⟩ := List.cons.inj hbs
            exact ⟨[], a, as, front, bs, rfl, ha, rfl, rfl⟩

variable {c : Catalog} {rules : Rules} {locals recursive : List Text}

namespace Reference

/-- The remark about a reference, unless it is no call or the library is a local one. -/
def remarkIn? (c : Catalog) (rules : Rules) (locals recursive : List Text) (r : Reference) :
    Option Remark :=
  if r.isCall && !locals.contains r.library then r.remark? c rules recursive else none

/-- What is known where an unknown function of a library is called. -/
theorem of_remarkIn?_unknownFunction {r : Reference} {m : Remark}
    (h : r.remarkIn? c rules locals recursive = some m)
    (hm : m.finding.code = .unknownFunction) :
    (r.isCall && !locals.contains r.library) = true ∧ c.hasLibrary r.library = true ∧
      m = r.unknownFunction c rules := by
  unfold remarkIn? at h
  split at h
  · next hcall =>
      refine ⟨hcall, ?_⟩
      unfold remark? at h
      split at h
      · split at h
        · cases h
        · obtain rfl := Option.some.inj h
          cases hm
      · next hlibrary =>
          refine ⟨by simpa using hlibrary, ?_⟩
          split at h
          · exact (Option.some.inj h).symm
          · unfold argumentRemark? at h
            split at h
            · cases h
            · split at h
              · cases h
              · obtain rfl := Option.some.inj h
                cases hm
  · cases h

theorem of_argumentRemark?_eq_some {r : Reference} {s : Signature} {m : Remark}
    (h : r.argumentRemark? s = some m) :
    ∃ given, m.finding = .argumentCount r.fullName s given ∧ m.start = r.start := by
  unfold argumentRemark? at h
  split at h
  · cases h
  · split at h
    · cases h
    · obtain rfl := Option.some.inj h
      exact ⟨_, rfl, rfl⟩

end Reference

/-- A remark about a call is of one of the kinds of problems that calls have. -/
theorem Reference.code_of_remark? {r : Reference} {m : Remark}
    (h : r.remark? c rules recursive = some m) :
    m.finding.code = .unknownLibrary ∨ m.finding.code = .unknownFunction ∨
      m.finding.code = .argumentCount := by
  unfold remark? at h
  split at h
  · split at h
    · cases h
    · obtain rfl := Option.some.inj h
      exact Or.inl rfl
  · split at h
    · obtain rfl := Option.some.inj h
      exact Or.inr (Or.inl rfl)
    · obtain ⟨given, hfinding, -⟩ := of_argumentRemark?_eq_some h
      exact Or.inr (Or.inr (by rw [hfinding]; rfl))

/-- A remark about a call starts where the call starts. -/
theorem Reference.start_of_remark? {r : Reference} {m : Remark}
    (h : r.remark? c rules recursive = some m) : m.start = r.start := by
  unfold remark? at h
  split at h
  · split at h
    · cases h
    · obtain rfl := Option.some.inj h
      rfl
  · split at h
    · obtain rfl := Option.some.inj h
      rfl
    · obtain ⟨-, -, hstart⟩ := of_argumentRemark?_eq_some h
      exact hstart

/-- A remark about a binding is of one of the two kinds of problems that bindings have. -/
theorem Binding.code_of_mem_remarks {b : Binding} {m : Remark} (h : m ∈ b.remarks) :
    m.finding.code = .recursiveDefinition ∨ m.finding.code = .stringAssignment := by
  rcases List.mem_append.1 h with h | h
  · rw [Option.mem_toList, recursion?] at h
    split at h
    · obtain rfl := Option.some.inj h
      exact Or.inl rfl
    · cases h
  · obtain ⟨literal, -, rfl⟩ := Option.map_eq_some_iff.1 (Option.mem_toList.1 h)
    exact Or.inr rfl

namespace ProgramLine

theorem callRemarks_eq_filterMap (l : ProgramLine) :
    l.callRemarks c rules locals =
      l.references.filterMap (Reference.remarkIn? c rules locals l.recursiveNames) := by
  rw [callRemarks, calls, List.filterMap_filter, List.filterMap_filter]
  refine List.filterMap_congr fun r _ => ?_
  unfold Reference.remarkIn?
  cases r.isCall <;> simp

/-- A diagnostic about an unknown function is about a call. -/
theorem exists_of_check_eq_append {l : ProgramLine} {front back : List Diagnostic}
    {d : Diagnostic} (h : l.check c rules locals = front ++ d :: back)
    (hd : d.code? = some .unknownFunction) :
    ∃ ms m ns, l.callRemarks c rules locals = ms ++ m :: ns ∧
      d = m.diagnostic l.toLine ∧ m.finding.code = .unknownFunction ∧
      front = (l.bindingRemarks ++ ms).map (Remark.diagnostic l.toLine) ∧
      back = ns.map (Remark.diagnostic l.toLine) := by
  obtain ⟨ms, ns', hsplit, rfl, hns'⟩ := List.map_eq_append_iff.1 h
  obtain ⟨m, ns, rfl, rfl, rfl⟩ := List.map_eq_cons_iff.1 hns'
  have hm : m.finding.code = .unknownFunction := Option.some.inj hd
  rcases List.append_eq_append_iff.1 hsplit with ⟨qs, rfl, hqs⟩ | ⟨qs, hbindings, hqs⟩
  · exact ⟨qs, m, ns, hqs, rfl, hm, rfl, rfl⟩
  · cases qs with
    | nil =>
        rw [List.append_nil] at hbindings
        exact ⟨[], m, ns, hqs.symm, rfl, hm, by rw [hbindings, List.append_nil], rfl⟩
    | cons q qs =>
        -- no remark about a binding is about an unknown function
        obtain ⟨rfl, -⟩ := List.cons.inj hqs
        have hmem : m ∈ l.bindingRemarks := by
          rw [hbindings]
          simp
        obtain ⟨b, -, hb⟩ := List.mem_flatMap.1 hmem
        rcases Binding.code_of_mem_remarks hb with hcode | hcode <;> cases hm.symm.trans hcode

/-- The diagnostics about a line are about its bindings and its calls. -/
theorem code?_of_mem_check {l : ProgramLine} {d : Diagnostic} (hd : d ∈ l.check c rules locals) :
    d.code? ∈ [some .recursiveDefinition, some .stringAssignment, some .unknownLibrary,
      some .unknownFunction, some .argumentCount] := by
  obtain ⟨m, hm, rfl⟩ := List.mem_map.1 hd
  have hcode : (m.diagnostic l.toLine).code? = some m.finding.code := rfl
  rw [hcode]
  rcases List.mem_append.1 hm with hm | hm
  · obtain ⟨b, -, hm⟩ := List.mem_flatMap.1 hm
    rcases Binding.code_of_mem_remarks hm with h | h <;> simp [h]
  · obtain ⟨r, -, hm⟩ := List.mem_filterMap.1 hm
    rcases Reference.code_of_remark? hm with h | h | h <;> simp [h]

end ProgramLine

namespace Program

theorem localLibraries_eq_flatMap (p : Program) :
    p.localLibraries =
      p.flatMap fun l => (l.bindings.filter Binding.isLibrary).map Binding.name := by
  rw [localLibraries, bindings, List.filter_flatMap, List.map_flatMap]

end Program

end DspCheck
