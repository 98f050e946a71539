import DspCheck.Proofs.Check.OneLine
import DspCheck.Proofs.Number.Numeral

/-!
# Numerals in divisions and delays

Divisions and delays read a numeral in the same way (`validate_numeral`).

* Without a sign in its exponent it is a literal.  It is no divisor that calls for a guard, and as a
  delay it is compared with the limit as the number nearest to its value.
* With a sign it is none.  What stands in front of the sign is reported as a divisor, and the delay
  is not compared with anything.
-/

namespace DspCheck
namespace Numeral

open Binary64 (IsNearest)

variable {n : Numeral} {c : Char} {w : Text}

theorem isRunChar_of_isChar (h : Literal.isChar c = true) : Reference.isRunChar c = true := by
  simp only [Literal.isChar, Bool.or_eq_true, decide_eq_true_eq] at h
  rcases h with ((h | rfl) | rfl) | rfl
  · simp [Reference.isRunChar, Ident.isPart_of_isDigit h]
  · decide
  · decide
  · decide

theorem char_cases (hc : c ∈ n.text) : Literal.isChar c = true ∨ c = '+' ∨ c = '-' := by
  cases hcut : n.cut? with
  | none =>
      exact Or.inl ((exists_read?_of_unsigned hcut).1 c hc)
  | some w =>
      obtain ⟨e, s, -, htext⟩ := exists_of_cut? hcut
      rw [htext] at hc
      rcases List.mem_append.1 hc with hc | hc
      · exact Or.inl ((read?_of_cut? hcut).1 c hc)
      · rcases List.mem_cons.1 hc with rfl | hc
        · exact Or.inr (by cases s <;> decide)
        · exact Or.inl (isChar_of_isDigit (e.digits.isDigit c hc))

/-- The characters of a numeral mean nothing to the scanners of a line. -/
theorem inert_of_mem (hc : c ∈ n.text) :
    Text.isInert c = true ∧ Text.isBlank c = false ∧ c ≠ '@' ∧ c ≠ 'y' ∧ c ≠ '(' := by
  rcases char_cases hc with h | rfl | rfl
  · have hall := Text.forall_ascii (p := fun c => !Literal.isChar c ||
        (Text.isInert c && !Text.isBlank c && c ≠ '@' && c ≠ 'y' && c ≠ '(')) (by decide)
      (Reference.isAscii_of_isRunChar (isRunChar_of_isChar h))
    simpa [h, and_assoc] using hall
  · decide
  · decide

theorem text_ne_nil (n : Numeral) : n.text ≠ [] := by
  obtain ⟨c, t, hm, -⟩ := exists_head n.mantissa
  rw [text, hm]
  exact List.cons_ne_nil c _

/-- A numeral behind blanks opens no argument list. -/
theorem exists_trimStart (n : Numeral) (rest : Text) :
    ∃ c t, Text.trimStart (" " ++ (n.text ++ rest)) = n.text ++ rest ∧
      n.text ++ rest = c :: t ∧ c ≠ '(' := by
  obtain ⟨c, t, htext⟩ := List.exists_cons_of_ne_nil n.text_ne_nil
  obtain ⟨-, hblank, -, -, hparen⟩ := inert_of_mem (n := n) (htext ▸ List.mem_cons_self)
  refine ⟨c, t ++ rest, ?_, by rw [htext]; rfl, hparen⟩
  rw [htext]
  exact Text.trimStart_of_endsAt (t := c :: t ++ rest) (Text.endsAt_cons hblank _)

/-- A numeral is a divisor if its exponent has a sign, and then only up to that. -/
theorem divisor?_text (n : Numeral) : Line.divisor? (" " ++ (n.text ++ ";")) = n.cut? := by
  obtain ⟨c, t, htrim, hcons, hparen⟩ := n.exists_trimStart ";"
  have hhead : (n.text ++ ";").head? ≠ some '(' := by
    rw [hcons, List.head?_cons]
    exact fun h => hparen (Option.some.inj h)
  rw [Line.divisor?]
  simp only [htrim, if_neg hhead]
  cases hcut : n.cut? with
  | none =>
      have hend : Text.EndsAt Literal.isChar ";" := Text.endsAt_cons (by decide) []
      obtain ⟨a, hread, -⟩ := Literal.exists_leading?_of_unsigned hcut hend
      rw [hread]
      rfl
  | some w =>
      obtain ⟨e, s, hw, htext⟩ := exists_of_cut? hcut
      have hrun : (n.text ++ ";").takeWhile Reference.isRunChar = w := by
        rw [htext, List.append_assoc]
        exact Text.takeWhile_run
          (fun c hc => isRunChar_of_isChar ((read?_of_cut? hcut).1 c hc))
          (Text.endsAt_cons (by cases s <;> decide) _)
      have hne : w ≠ [] := by
        rw [hw]
        simp
      rw [Literal.leading?_of_cut? hcut, hrun]
      simp [hne]

theorem operand?_text (n : Numeral) :
    DelayConstant.operand? (" " ++ (n.text ++ ";")) = Literal.whole? (n.text ++ ";") := by
  obtain ⟨c, t, htrim, hcons, hparen⟩ := n.exists_trimStart ";"
  have hargs : ArgumentList.read? (n.text ++ ";") = none := by
    rw [hcons]
    simp [ArgumentList.read?, hparen]
  rw [DelayConstant.operand?, htrim]
  simp only [hargs]

/-- A numeral whose exponent has no sign is a delay constant. -/
theorem exists_operand?_of_unsigned (h : n.cut? = none) :
    ∃ a, DelayConstant.operand? (" " ++ (n.text ++ ";")) = some a ∧ IsNearest n.value a := by
  rw [operand?_text]
  exact Literal.exists_whole?_of_unsigned h (Text.endsAt_cons (by decide) []) (by decide)

theorem operand?_of_cut? (h : n.cut? = some w) :
    DelayConstant.operand? (" " ++ (n.text ++ ";")) = none := by
  rw [operand?_text, Literal.whole?, Literal.leading?_of_cut? h]

end Numeral

open Binary64 (IsNearest)

section Programs

variable (c : Catalog) (rules : Rules) (n : Numeral)

theorem Numeral.plain_of_mem :
    ∀ c ∈ n.text ++ ";", Text.isInert c = true ∧ c ≠ '@' ∧ c ≠ 'y' := by
  refine List.forall_mem_append.2 ⟨fun c hc => ?_, List.forall_mem_singleton.2 (by decide)⟩
  obtain ⟨hinert, -, hat, hy, -⟩ := Numeral.inert_of_mem hc
  exact ⟨hinert, hat, hy⟩

/-- A division by a numeral is reported if the exponent of the numeral has a sign and the line is
not guarded. -/
theorem validate_division :
    ∃ v, validate c rules ("process = _ / " ++ n.text ++ ";") = .ok v ∧
      v.suggestions =
        match n.cut? with
        | none => []
        | some cut =>
            if (Line.only ("process = _ / " ++ n.text ++ ";")).mentions rules.guards then []
            else [(Line.only ("process = _ / " ++ n.text ++ ";")).guardDivision cut] := by
  have hsource : "process = _ / " ++ n.text ++ ";" =
      "process = _ " ++ '/' :: (" " ++ (n.text ++ ";")) := by
    rw [List.append_assoc]
    rfl
  have hline : IsOneLine ("process = _ " ++ '/' :: (" " ++ (n.text ++ ";"))) :=
    IsOneLine.division (s := "process = _") (List.all_iff_forall_prop.1 (by decide))
      fun c hc => (n.plain_of_mem c hc).1
  have hslash : '/' ∉ " " ++ (n.text ++ ";") := by
    intro hmem
    rcases List.mem_append.1 hmem with hmem | hmem
    · exact absurd hmem (by decide)
    · exact (Text.ne_of_isInert (n.plain_of_mem _ hmem).1).2.1.2 rfl
  obtain ⟨v, hv, hsuggestions⟩ := hline.exists_suggestions (by decide) hslash c rules
  rw [hsource]
  refine ⟨v, hv, ?_⟩
  rw [hsuggestions, Numeral.divisor?_text]
  cases n.cut? with
  | none =>
      rw [Option.map_none, ite_self]
      rfl
  | some cut =>
      split <;> rfl

/-- A numeral as a delay is reported if its exponent has no sign and the number nearest to its value
is greater than the one nearest to the limit. -/
theorem validate_delay :
    ∃ v samples limit, validate c rules ("process = _ @ " ++ n.text ++ ";") = .ok v ∧
      (∀ b, IsNearest n.value b ↔ b = samples) ∧ (∀ b, IsNearest rules.maxDelay b ↔ b = limit) ∧
      v.delays =
        match n.cut? with
        | none =>
            if limit.less samples then
              [(Finding.oversizedDelay samples rules.maxDelay).diagnostic.putAt "process = _ " "@"]
            else []
        | some _ => [] := by
  have hsource : "process = _ @ " ++ n.text ++ ";" =
      "process = _ " ++ '@' :: (" " ++ (n.text ++ ";")) := by
    rw [List.append_assoc]
    rfl
  have hplain : ∀ c ∈ " " ++ (n.text ++ ";"), Text.isInert c = true ∧ c ≠ '@' ∧ c ≠ 'y' :=
    List.forall_mem_append.2 ⟨List.forall_mem_singleton.2 (by decide), n.plain_of_mem⟩
  have hline : IsOneLine ("process = _ " ++ '@' :: (" " ++ (n.text ++ ";"))) :=
    .of_isInert (List.forall_mem_append.2 ⟨List.all_iff_forall_prop.1 (by decide),
      List.forall_mem_cons.2 ⟨by decide, fun c hc => (hplain c hc).1⟩⟩)
  have hcalls : 'y' ∉ "process = _ " ++ '@' :: (" " ++ (n.text ++ ";")) := by
    intro hmem
    rcases List.mem_append.1 hmem with hmem | hmem
    · exact absurd hmem (by decide)
    · rcases List.mem_cons.1 hmem with heq | hmem
      · exact absurd heq (by decide)
      · exact (hplain _ hmem).2.2 rfl
  obtain ⟨v, hv, hdelays⟩ := hline.exists_delays_operand (by decide)
    (fun hmem => (hplain _ hmem).2.1 rfl) hcalls c rules
  obtain ⟨samples, hsamples⟩ := Binary64.exists_nearest n.value_nonneg
  rw [hsource]
  refine ⟨v, samples, _, hv, hsamples, (Binary64.isNearest_ofNat rules.maxDelay).iff_eq, ?_⟩
  rw [hdelays]
  cases hcut : n.cut? with
  | none =>
      obtain ⟨a, hoperand, ha⟩ := Numeral.exists_operand?_of_unsigned hcut
      obtain rfl := (hsamples a).1 ha
      rw [hoperand]
      rfl
  | some w =>
      rw [Numeral.operand?_of_cut? hcut]
      rfl

/-- What is said about a numeral depends on the sign of its exponent.  Without one it is a literal,
and with one what stands in front of the sign is taken for the divisor and the delay for no
constant. -/
theorem validate_numeral :
    (∃ v, validate c rules ("process = _ / " ++ n.text ++ ";") = .ok v ∧
      v.suggestions =
        match n.cut? with
        | none => []
        | some cut =>
            if (Line.only ("process = _ / " ++ n.text ++ ";")).mentions rules.guards then []
            else [(Line.only ("process = _ / " ++ n.text ++ ";")).guardDivision cut]) ∧
    ∃ v samples limit, validate c rules ("process = _ @ " ++ n.text ++ ";") = .ok v ∧
      (∀ b, IsNearest n.value b ↔ b = samples) ∧ (∀ b, IsNearest rules.maxDelay b ↔ b = limit) ∧
      v.delays =
        match n.cut? with
        | none =>
            if limit.less samples then
              [(Finding.oversizedDelay samples rules.maxDelay).diagnostic.putAt "process = _ " "@"]
            else []
        | some _ => [] :=
  ⟨validate_division c rules n, validate_delay c rules n⟩

end Programs

/-- The numeral `1e-5`. -/
def hundredThousandth : Numeral where
  mantissa := .whole (.ofNat 1)
  exponent? := some ⟨false, some .minus, .ofNat 5⟩

theorem validate_hundredThousandth :
    validate Catalog.empty .standard ("process = _ / " ++ hundredThousandth.text ++ ";") =
      .ok ⟨[], [], [(Line.only "process = _ / 1e-5;").guardDivision "1e"]⟩ := by
  decide +kernel

/-- So not every numeral is read as a literal. -/
theorem not_forall_numeral_literal :
    ¬ ∀ (c : Catalog) (rules : Rules) (n : Numeral),
      (∃ v, validate c rules ("process = _ / " ++ n.text ++ ";") = .ok v ∧ v.suggestions = []) ∧
      ∃ v samples limit, validate c rules ("process = _ @ " ++ n.text ++ ";") = .ok v ∧
        IsNearest n.value samples ∧ IsNearest rules.maxDelay limit ∧
        v.delays.length = if limit.less samples then 1 else 0 := by
  intro h
  obtain ⟨⟨v, hv, hsuggestions⟩, -⟩ := h Catalog.empty .standard hundredThousandth
  rw [validate_hundredThousandth] at hv
  obtain rfl := Except.ok.inj hv
  cases hsuggestions

end DspCheck
