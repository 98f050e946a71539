import DspCheck.Proofs.Check.CallForm
import DspCheck.Proofs.Check.Verdict
import DspCheck.Proofs.Source.Program

/-!
# Programs of one line

Without comments, string literals and line ends a program is one line that is its own masked form
(`IsOneLine.exists_ofSource`).  What its checks look for is found at one place of it.

* The suggestion about a division is about what follows the only slash
  (`IsOneLine.exists_suggestions`).
* All that is said about delay constants comes from the check for them (`Program.delays_verdict`),
  and that finds the constant behind the only at sign (`IsOneLine.exists_delays_operand`).
-/

namespace DspCheck

/-- The line that a program of one line is. -/
def Line.only (t : Text) : Line :=
  ⟨1, 0, 0, t, t⟩

/-- A program of one line that has neither comments nor string literals. -/
structure IsOneLine (t : Text) : Prop where
  noBreak : '\n' ∉ t
  noReturn : t.getLast? ≠ some '\r'
  masked : Text.MasksAs t t
  ascii : ∀ c ∈ t, Text.isAscii c = true

/-- An ASCII character that starts no string literal and no comment and ends no line. -/
def Text.isInert (c : Char) : Bool :=
  isAscii c && c ≠ '"' && c ≠ '/' && c ≠ '\n' && c ≠ '\r'

theorem Text.ne_of_isInert {c : Char} (h : isInert c = true) :
    isAscii c = true ∧ (c ≠ '"' ∧ c ≠ '/') ∧ c ≠ '\n' ∧ c ≠ '\r' := by
  simpa [isInert, and_assoc] using h

namespace IsOneLine

variable {s t before behind : Text}

theorem of_isInert (h : ∀ c ∈ t, Text.isInert c = true) : IsOneLine t where
  noBreak := fun hc => (Text.ne_of_isInert (h _ hc)).2.2.1 rfl
  noReturn := fun hc => (Text.ne_of_isInert (h _ (List.mem_of_getLast? hc))).2.2.2 rfl
  masked := Text.masksAs_self fun c hc => (Text.ne_of_isInert (h c hc)).2.1
  ascii := fun c hc => (Text.ne_of_isInert (h c hc)).1

/-- A slash before a blank starts no comment. -/
theorem division (hs : ∀ c ∈ s, Text.isInert c = true) (ht : ∀ c ∈ t, Text.isInert c = true) :
    IsOneLine (s ++ " / " ++ t) := by
  have hslash : ∀ c ∈ s ++ " / " ++ t, Text.isInert c = true ∨ c = '/' := by
    refine List.forall_mem_append.2 ⟨List.forall_mem_append.2 ⟨fun c hc => Or.inl (hs c hc), ?_⟩,
      fun c hc => Or.inl (ht c hc)⟩
    exact List.all_iff_forall_prop.1 (by decide)
  have hplain : ∀ c ∈ s ++ " / " ++ t, Text.isAscii c = true ∧ c ≠ '\n' ∧ c ≠ '\r' := by
    intro c hc
    rcases hslash c hc with h | rfl
    · exact ⟨(Text.ne_of_isInert h).1, (Text.ne_of_isInert h).2.2⟩
    · decide
  exact {
    noBreak := fun hc => (hplain _ hc).2.1 rfl
    noReturn := fun hc => (hplain _ (List.mem_of_getLast? hc)).2.2 rfl
    masked := ((of_isInert hs).masked.append Text.masksAs_division).append (of_isInert ht).masked
    ascii := fun c hc => (hplain c hc).1 }

theorem exists_ofSource (h : IsOneLine t) :
    ∃ rs, Reference.scan t = .ok rs ∧ Program.ofSource t = .ok [⟨.only t, rs⟩] := by
  obtain ⟨rs, hrs⟩ := Reference.exists_scanFrom_eq_ok h.ascii false 0
  exact ⟨rs, hrs, Program.ofSource_of_oneLine h.noBreak h.noReturn h.masked hrs⟩

theorem stands (h : IsOneLine t) : (Line.only t).Stands t [] [] where
  split := (List.append_nil t).symm
  offset := rfl
  number := rfl
  start := rfl
  noBreak := h.noBreak
  masked := ⟨.code, by
    have hself := (h.masked []).1
    rw [List.append_nil, Text.mask, List.append_nil] at hself
    exact hself.symm⟩

end IsOneLine

/-! ## Divisions -/

namespace Line

variable {before t : Text}

theorem firstDivisor?_of_notMem (h : '/' ∉ before) :
    firstDivisor? (before ++ t) = firstDivisor? t := by
  induction before with
  | nil =>
      rfl
  | cons c before ih =>
      have hc : c ≠ '/' := fun h' => h (h' ▸ List.mem_cons_self)
      rw [List.cons_append, firstDivisor?, if_neg hc,
        ih fun hmem => h (List.mem_cons_of_mem c hmem)]

/-- The divisor behind the only slash of a text. -/
theorem firstDivisor?_single (hbefore : '/' ∉ before) (ht : '/' ∉ t) :
    firstDivisor? (before ++ '/' :: t) = divisor? t := by
  have hrest := firstDivisor?_of_notMem (t := []) ht
  rw [List.append_nil] at hrest
  rw [firstDivisor?_of_notMem hbefore, firstDivisor?, if_pos rfl, hrest]
  exact Option.or_none

end Line

/-- A program of one line with a single division gets a suggestion if and only if the line is not
guarded and the division is by anything but a literal. -/
theorem IsOneLine.exists_suggestions {before behind : Text}
    (h : IsOneLine (before ++ '/' :: behind)) (hbefore : '/' ∉ before) (hbehind : '/' ∉ behind)
    (c : Catalog) (rules : Rules) :
    ∃ v, validate c rules (before ++ '/' :: behind) = .ok v ∧
      v.suggestions =
        (if (Line.only (before ++ '/' :: behind)).mentions rules.guards then none
        else (Line.divisor? behind).map
          (Line.only (before ++ '/' :: behind)).guardDivision).toList := by
  obtain ⟨rs, -, hp⟩ := h.exists_ofSource
  refine ⟨_, by rw [validate, hp]; rfl, ?_⟩
  rw [← Line.firstDivisor?_single hbefore hbehind]
  show List.filterMap (fun l : ProgramLine => l.divisionAdvice? rules)
    [⟨.only (before ++ '/' :: behind), rs⟩] =
      ((Line.only (before ++ '/' :: behind)).divisionAdvice? rules).toList
  rw [List.filterMap_cons, List.filterMap_nil]
  cases (Line.only (before ++ '/' :: behind)).divisionAdvice? rules <;> rfl

/-! ## Delay constants -/

/-- What a verdict says about delay constants. -/
def Verdict.delays (v : Verdict) : List Diagnostic :=
  (v.errors ++ v.warnings).filter fun d => d.code? = some .oversizedDelay

/-- What is said about a constant that stands at a text of a program, or about none. -/
def Rules.delayReport (rules : Rules) (before under : Text) : Option Binary64 → List Diagnostic
  | none => []
  | some a =>
      if (Binary64.ofNat rules.maxDelay).less a then
        [(Finding.oversizedDelay a rules.maxDelay).diagnostic.putAt before under]
      else []

namespace Program

variable {c : Catalog} {rules : Rules} {p : Program}

theorem filter_oversizedDelay_diagnostics :
    (p.diagnostics c rules).filter (fun d => d.code? = some .oversizedDelay) =
      p.checkDelays rules := by
  have hcheck : (p.check c rules).filter (fun d => d.code? = some .oversizedDelay) = [] := by
    refine List.filter_eq_nil_iff.2 fun d hd => ?_
    obtain ⟨l, -, hd⟩ := List.mem_flatMap.1 hd
    have hcode := ProgramLine.code?_of_mem_check hd
    rw [decide_eq_true_eq]
    intro h
    simp [h] at hcode
  have hdelays : (p.checkDelays rules).filter (fun d => d.code? = some .oversizedDelay) =
      p.checkDelays rules :=
    List.filter_eq_self.2 fun d hd => decide_eq_true (of_mem_checkDelays hd).1
  have himport : (p.checkImport? c rules).toList.filter
      (fun d => d.code? = some .oversizedDelay) = [] :=
    List.filter_eq_nil_iff.2 fun d hd => by simp [(of_checkImport? (Option.mem_toList.1 hd)).1]
  have hentry : (p.checkEntryPoint? rules).toList.filter
      (fun d => d.code? = some .oversizedDelay) = [] :=
    List.filter_eq_nil_iff.2 fun d hd => by
      simp [(of_checkEntryPoint? (Option.mem_toList.1 hd)).1]
  rw [diagnostics, List.filter_append, List.filter_append, List.filter_append, hcheck, hdelays,
    himport, hentry, List.nil_append, List.append_nil, List.append_nil]

/-- What a verdict says about delay constants is what the check for them says. -/
theorem delays_verdict (c : Catalog) (rules : Rules) (p : Program) :
    (p.verdict c rules).delays = p.checkDelays rules := by
  have herrors : (p.checkDelays rules).filter Diagnostic.isError = [] :=
    List.filter_eq_nil_iff.2 fun d hd => by simp [(of_mem_checkDelays hd).2]
  have hwarnings : (p.checkDelays rules).filter (not ∘ Diagnostic.isError) =
      p.checkDelays rules :=
    List.filter_eq_self.2 fun d hd => by simp [(of_mem_checkDelays hd).2]
  have hdivide := Diagnostic.divide_filter (fun d => d.code? = some .oversizedDelay)
    (p.diagnostics c rules)
  rw [filter_oversizedDelay_diagnostics, Diagnostic.divide, List.partition_eq_filter_filter,
    herrors, hwarnings, Prod.mk.injEq] at hdivide
  rw [Verdict.delays, List.filter_append, verdict, ← hdivide.1, ← hdivide.2, List.nil_append]

end Program

namespace DelayConstant

variable {before t : Text}

theorem operandsFrom_of_notMem (h : '@' ∉ before) (position : Nat) :
    operandsFrom position (before ++ t) = operandsFrom (position + Text.byteSize before) t := by
  induction before generalizing position with
  | nil =>
      rfl
  | cons c before ih =>
      have hc : c ≠ '@' := fun h' => h (h' ▸ List.mem_cons_self)
      rw [List.cons_append, operandsFrom, if_neg hc, ih fun hmem => h (List.mem_cons_of_mem c hmem),
        Text.byteSize_cons, Nat.add_assoc]
      rfl

/-- The constant behind the only at sign of a text. -/
theorem operandsFrom_single (hbefore : '@' ∉ before) (ht : '@' ∉ t) :
    operandsFrom 0 (before ++ '@' :: t) =
      (operand? t).toList.map (⟨Text.byteSize before, ·⟩) := by
  have hrest := operandsFrom_of_notMem (t := []) ht (Text.byteSize before + Char.utf8Size '@')
  rw [List.append_nil] at hrest
  rw [operandsFrom_of_notMem hbefore, operandsFrom, if_pos rfl, Nat.zero_add, hrest]
  exact List.append_nil _

/-- No delay function is called on a line without the last letter of its name. -/
theorem filterMap_ofCall?_eq_nil {code : Text} {rs : List Reference}
    (hscan : Reference.scan code = .ok rs) (hcode : 'y' ∉ code) : rs.filterMap ofCall? = [] := by
  refine List.filterMap_eq_nil_iff.2 fun r hr => ?_
  obtain ⟨front, blanks, hstands⟩ := Reference.exists_stands_of_scan hscan hr
  refine if_neg fun hdelay => hcode ?_
  obtain ⟨u, hu⟩ := Option.isSome_iff_exists.1 hdelay
  have hname : 'y' ∈ r.name := by
    rw [← List.mem_reverse, Text.after?_eq_some_iff.1 hu]
    exact List.mem_append_left u (by decide)
  rw [hstands.split]
  refine List.mem_append_left _ (List.mem_append_left _ (List.mem_append_right _ ?_))
  exact List.mem_append_right _ (List.mem_cons_of_mem _ hname)

/-- The constants of a line with one at sign and without delay functions. -/
theorem ofLine_operand {rs : List Reference} (hbefore : '@' ∉ before) (ht : '@' ∉ t)
    (hcalls : 'y' ∉ before ++ '@' :: t) (hscan : Reference.scan (before ++ '@' :: t) = .ok rs) :
    ofLine ⟨.only (before ++ '@' :: t), rs⟩ =
      (operand? t).toList.map (⟨Text.byteSize before, ·⟩) := by
  have hoperands := operandsFrom_single hbefore ht
  rw [ofLine, filterMap_ofCall?_eq_nil hscan hcalls, List.append_nil]
  show (operandsFrom 0 (before ++ '@' :: t)).mergeSort _ = _
  rw [hoperands]
  cases operand? t with
  | none =>
      exact List.mergeSort_nil
  | some a =>
      exact List.mergeSort_singleton _

end DelayConstant

namespace IsOneLine

variable {before behind : Text} {under : Char}

/-- A program of one line with at most one constant is reported if and only if it has one and that
exceeds the limit. -/
theorem exists_delays (h : IsOneLine (before ++ under :: behind)) (hunder : under.utf8Size = 1)
    (a? : Option Binary64)
    (hconstants : ∀ rs, Reference.scan (before ++ under :: behind) = .ok rs →
      DelayConstant.ofLine ⟨.only (before ++ under :: behind), rs⟩ =
        a?.toList.map (⟨Text.byteSize before, ·⟩))
    (c : Catalog) (rules : Rules) :
    ∃ v, validate c rules (before ++ under :: behind) = .ok v ∧
      v.delays = rules.delayReport before [under] a? := by
  obtain ⟨rs, hscan, hp⟩ := h.exists_ofSource
  have htext : (Line.only (before ++ under :: behind)).text = before ++ [under] ++ behind := by
    simp [Line.only]
  refine ⟨_, by rw [validate, hp]; rfl, ?_⟩
  rw [Program.delays_verdict, Program.checkDelays, List.flatMap_singleton, hconstants rs hscan]
  cases a? with
  | none =>
      rfl
  | some a =>
      have hplace := h.stands.place_eq (Finding.oversizedDelay a rules.maxDelay).diagnostic htext
      rw [Text.byteSize_cons, Text.byteSize_nil, hunder, List.nil_append] at hplace
      rw [Option.toList_some, List.map_singleton, List.filterMap_cons, List.filterMap_nil,
        DelayConstant.remark?, Rules.delayReport]
      by_cases hless : (Binary64.ofNat rules.maxDelay).less a = true
      · rw [if_pos hless, if_pos hless]
        exact congrArg (fun d => [d]) hplace
      · rw [if_neg hless, if_neg hless]
        rfl

/-- A program of one line with a delay behind its only at sign is reported if and only if the delay
is a constant that exceeds the limit. -/
theorem exists_delays_operand (h : IsOneLine (before ++ '@' :: behind)) (hbefore : '@' ∉ before)
    (hbehind : '@' ∉ behind) (hcalls : 'y' ∉ before ++ '@' :: behind) (c : Catalog)
    (rules : Rules) :
    ∃ v, validate c rules (before ++ '@' :: behind) = .ok v ∧
      v.delays = rules.delayReport before "@" (DelayConstant.operand? behind) :=
  h.exists_delays (by decide) _
    (fun _ hscan => DelayConstant.ofLine_operand hbefore hbehind hcalls hscan) c rules

end IsOneLine
end DspCheck
