import DspCheck.Proofs.Check.Numerals

/-!
# The limit for whole delays

A delay by a whole number of samples is written with the numeral of the number behind an at sign,
with or without parentheses, or as the first argument of a delay function.  All three are read as
the same number, and reported if and only if the number of the format nearest to it is greater than
the one nearest to the limit (`exists_delays_whole`).

So no delay up to the limit is reported.  A limit below `2 ^ 53` is exact, but a greater one may be
rounded, and then the delays that are rounded to the same number are not reported.
-/

namespace DspCheck

/-- A way to write a delay by a whole number of samples. -/
inductive DelayForm
  | spaced
  | parenthesized
  | call

namespace DelayForm

/-- What stands in a program before the place that is reported. -/
def before : DelayForm → Text
  | call => "process = "
  | _ => "process = _ "

/-- The character that is reported. -/
def under : DelayForm → Char
  | call => 'd'
  | _ => '@'

/-- What stands behind it. -/
def behind (n : Nat) : DelayForm → Text
  | spaced => " " ++ (Text.decimal n ++ ";")
  | parenthesized => "(" ++ (Text.decimal n ++ ");")
  | call => "e.delay(" ++ (Text.decimal n ++ ", 1);")

/-- The program that delays by a number of samples. -/
def source (n : Nat) : DelayForm → Text
  | spaced => "process = _ @ " ++ Text.decimal n ++ ";"
  | parenthesized => "process = _ @(" ++ Text.decimal n ++ ");"
  | call => "process = de.delay(" ++ Text.decimal n ++ ", 1);"

theorem source_eq (n : Nat) (f : DelayForm) : f.source n = f.before ++ f.under :: f.behind n := by
  cases f with
  | spaced =>
      exact List.append_assoc "process = _ @ ".toList (Text.decimal n) ";".toList
  | parenthesized =>
      exact List.append_assoc "process = _ @(".toList (Text.decimal n) ");".toList
  | call =>
      exact List.append_assoc "process = de.delay(".toList (Text.decimal n) ", 1);".toList

end DelayForm

open Binary64 (IsNearest)

/-- The numeral of a number is read as the number nearest to it. -/
theorem whole?_decimal (n : Nat) {rest : Text} (hrest : Text.EndsAt Literal.isChar rest)
    (hend : (Text.trimStart rest).head?.all Literal.isEnd = true) :
    Literal.whole? (Text.decimal n ++ rest) = some (.ofNat n) := by
  obtain ⟨a, hread, ha⟩ := Literal.exists_whole?_of_unsigned (n := .ofNat n) rfl hrest hend
  rw [Numeral.text_ofNat] at hread
  rw [Numeral.value_ofNat] at ha
  rw [hread, (Binary64.isNearest_ofNat n).unique ha]

/-- The characters of a numeral mean nothing to the scanners. -/
theorem inert_of_mem_decimal {n : Nat} {c : Char} (hc : c ∈ Text.decimal n) :
    Text.isInert c = true ∧ Text.isBlank c = false ∧ ArgumentList.isPlain c = true ∧
      c ≠ '@' ∧ c ≠ 'y' ∧ c ≠ '.' := by
  have hdigit := Text.isDigit_of_mem_decimal hc
  have hall := Text.forall_ascii (p := fun c => !c.isDigit || (Text.isInert c && !Text.isBlank c &&
      ArgumentList.isPlain c && c ≠ '@' && c ≠ 'y' && c ≠ '.')) (by decide)
    (Ident.isAscii_of_isPart (Ident.isPart_of_isDigit hdigit))
  simpa [hdigit, and_assoc] using hall

/-- Around a numeral there are no other at signs and no other last letters of delay functions. -/
theorem notMem_around {n : Nat} {c : Char} (hc : c = '@' ∨ c = 'y') {s t : Text} (hs : c ∉ s)
    (ht : c ∉ t) : c ∉ s ++ (Text.decimal n ++ t) := by
  simp only [List.mem_append, not_or]
  refine ⟨hs, fun hmem => ?_, ht⟩
  obtain ⟨-, -, -, hat, hy, -⟩ := inert_of_mem_decimal hmem
  rcases hc with rfl | rfl
  · exact hat rfl
  · exact hy rfl

theorem trim_decimal (n : Nat) : Text.trim (Text.decimal n) = Text.decimal n := by
  refine Text.trim_eq_self_iff.2 ⟨fun c hc => ?_, fun c hc => ?_⟩
  · exact (inert_of_mem_decimal (List.mem_of_head? hc)).2.1
  · exact (inert_of_mem_decimal (List.mem_reverse.1 (List.mem_of_head? hc))).2.1

theorem passes_decimal (n : Nat) : ArgumentList.Passes 0 (Text.decimal n) :=
  ArgumentList.passes_of_plain fun _ hc => (inert_of_mem_decimal hc).2.2.1

/-- The numeral of a number as a whole argument. -/
theorem whole?_argument (n : Nat) : Literal.whole? (Text.decimal n) = some (.ofNat n) := by
  have hwhole := whole?_decimal n (Text.endsAt_nil Literal.isChar) rfl
  rwa [List.append_nil] at hwhole

namespace DelayConstant

theorem operand?_spaced (n : Nat) :
    operand? (" " ++ (Text.decimal n ++ ";")) = some (.ofNat n) := by
  have hend : Text.EndsAt Literal.isChar ";" := Text.endsAt_cons (by decide) []
  have hread := (Numeral.ofNat n).operand?_text
  rwa [Numeral.text_ofNat, whole?_decimal n hend (by decide)] at hread

theorem operand?_parenthesized (n : Nat) :
    operand? ("(" ++ (Text.decimal n ++ ");")) = some (.ofNat n) := by
  have hne : [Text.decimal n] ≠ [[]] := by simp [Text.decimal_ne_nil]
  obtain ⟨l, hread, hargs, -⟩ := ArgumentList.exists_read?_tight
    (List.forall_mem_singleton.2 (passes_decimal n)) (List.forall_mem_singleton.2 (trim_decimal n))
    hne ";"
  have hread' : ArgumentList.read? ('(' :: (Text.decimal n ++ ");")) = some l := hread
  have htrim : Text.trimStart ("(" ++ (Text.decimal n ++ ");")) =
      '(' :: (Text.decimal n ++ ");") :=
    Text.trimStart_of_endsAt (t := '(' :: (Text.decimal n ++ ");"))
      (Text.endsAt_cons (by decide) _)
  rw [operand?, htrim]
  simp only [hread', hargs, whole?_argument]

/-- The only constant behind an at sign, if a numeral with `s` and `t` around it is read there. -/
theorem ofLine_around {n : Nat} {s t : Text} {rs : List Reference} (hsat : '@' ∉ s)
    (htat : '@' ∉ t) (hsy : 'y' ∉ s) (hty : 'y' ∉ t)
    (hread : operand? (s ++ (Text.decimal n ++ t)) = some (.ofNat n))
    (hscan : Reference.scan ("process = _ " ++ '@' :: (s ++ (Text.decimal n ++ t))) = .ok rs) :
    ofLine ⟨.only ("process = _ " ++ '@' :: (s ++ (Text.decimal n ++ t))), rs⟩ =
      [⟨12, .ofNat n⟩] := by
  have hcalls : 'y' ∉ ("process = _ " ++ '@' :: (s ++ (Text.decimal n ++ t)) : Text) := by
    rw [List.mem_append, List.mem_cons, not_or, not_or]
    exact ⟨by decide, by decide, notMem_around (Or.inr rfl) hsy hty⟩
  rw [ofLine_operand (by decide) (notMem_around (Or.inl rfl) hsat htat) hcalls hscan, hread]
  rfl

/-- A call with two arguments is read with the first one in front. -/
theorem exists_read?_call (n : Nat) :
    ∃ l, ArgumentList.read? ('(' :: (Text.decimal n ++ ", 1);")) = some l ∧
      l.args.head? = some (Text.decimal n) := by
  have hone : ArgumentList.Passes 0 "1" :=
    ArgumentList.passes_of_plain (List.all_iff_forall_prop.1 (by decide))
  have hblank : ArgumentList.Passes 0 " " :=
    ArgumentList.passes_of_plain (List.all_iff_forall_prop.1 (by decide))
  have hpass : ∀ t ∈ [Text.decimal n, ("1" : Text)], ArgumentList.Passes 0 t :=
    List.forall_mem_cons.2 ⟨passes_decimal n, List.forall_mem_singleton.2 hone⟩
  have htext : Text.decimal n ++ ", 1);" =
      Text.join (',' :: " ") [Text.decimal n, "1"] ++ ')' :: ";" := by
    rw [Text.join_cons_cons, List.append_assoc, List.append_assoc]
    rfl
  have htrim : [Text.decimal n, " 1"].map Text.trim = [Text.decimal n, "1"] := by
    rw [List.map_cons, trim_decimal]
    rfl
  have hargs : ArgumentList.argsOf [Text.decimal n, " 1"] = [Text.decimal n, "1"] := by
    rw [ArgumentList.argsOf_eq_map (by simp), htrim]
  refine ⟨_, by rw [ArgumentList.read?, htext, ArgumentList.pieces?_join hblank hpass]; rfl, ?_⟩
  show (ArgumentList.argsOf [Text.decimal n, " 1"]).head? = _
  rw [hargs]
  rfl

/-- The call of a delay function is the only reference in its program. -/
theorem exists_scan_delayCall (n : Nat) :
    ∃ r, Reference.scan ("process = de.delay(" ++ (Text.decimal n ++ ", 1);")) = .ok [r] ∧
      r.name = "delay" ∧ r.start = 10 ∧ r.follow = '(' :: (Text.decimal n ++ ", 1);") := by
  have hplain : ∀ c ∈ '(' :: (Text.decimal n ++ ", 1);"), Text.isAscii c = true ∧ '.' ≠ c := by
    refine List.forall_mem_cons.2 ⟨by decide, List.forall_mem_append.2 ⟨fun c hc => ?_,
      List.all_iff_forall_prop.1 (by decide)⟩⟩
    obtain ⟨hinert, -, -, -, -, hdot⟩ := inert_of_mem_decimal hc
    exact ⟨(Text.ne_of_isInert hinert).1, hdot.symm⟩
  obtain ⟨r, hscan, -, hname, hstart, hfollow⟩ := Reference.exists_scan_eq
    ⟨"de", by decide⟩ ⟨"delay", by decide⟩ (Text.decimal n ++ ", 1);")
  rw [Reference.scanFrom_eq_nil (fun c hc => (hplain c hc).1) fun hmem => (hplain _ hmem).2 rfl]
    at hscan
  exact ⟨r, hscan, hname, hstart, hfollow⟩

/-- The only constant in the call of a delay function. -/
theorem ofLine_delayCall {n : Nat} {rs : List Reference}
    (hscan : Reference.scan ("process = de.delay(" ++ (Text.decimal n ++ ", 1);")) = .ok rs) :
    ofLine ⟨.only ("process = de.delay(" ++ (Text.decimal n ++ ", 1);")), rs⟩ =
      [⟨10, .ofNat n⟩] := by
  obtain ⟨r, hr, hname, hstart, hfollow⟩ := exists_scan_delayCall n
  obtain rfl := Except.ok.inj (hscan.symm.trans hr)
  obtain ⟨l, hread, hfirst⟩ := exists_read?_call n
  have hat : '@' ∉ ("process = de.delay(" ++ (Text.decimal n ++ ", 1);") : Text) :=
    notMem_around (Or.inl rfl) (by decide) (by decide)
  have hoperands := operandsFrom_of_notMem (t := []) hat 0
  rw [List.append_nil] at hoperands
  have hcall : ofCall? r = some ⟨10, .ofNat n⟩ := by
    have hdelay : Text.endsWith "delay" r.name = true := by
      rw [hname]
      decide
    rw [ofCall?, if_pos hdelay, hfollow, hread, hstart]
    simp only [hfirst, Option.bind_some, whole?_argument, Option.map_some]
  show (operandsFrom 0 ("process = de.delay(" ++ (Text.decimal n ++ ", 1);")) ++
    [r].filterMap ofCall?).mergeSort _ = _
  rw [hoperands, List.filterMap_cons, hcall]
  exact List.mergeSort_singleton _

end DelayConstant

namespace DelayForm

/-- Every program is one line without comments and string literals. -/
theorem isOneLine (n : Nat) (f : DelayForm) : IsOneLine (f.before ++ f.under :: f.behind n) := by
  have hdecimal : ∀ c ∈ Text.decimal n, Text.isInert c = true :=
    fun c hc => (inert_of_mem_decimal hc).1
  refine .of_isInert (List.forall_mem_append.2 ⟨?_, List.forall_mem_cons.2 ⟨?_, ?_⟩⟩)
  · cases f <;> exact List.all_iff_forall_prop.1 (by decide)
  · cases f <;> decide
  · cases f <;>
      exact List.forall_mem_append.2 ⟨List.all_iff_forall_prop.1 (by decide),
        List.forall_mem_append.2 ⟨hdecimal, List.all_iff_forall_prop.1 (by decide)⟩⟩

/-- All forms are read as the same constant. -/
theorem ofLine_eq {n : Nat} {f : DelayForm} {rs : List Reference}
    (hscan : Reference.scan (f.before ++ f.under :: f.behind n) = .ok rs) :
    DelayConstant.ofLine ⟨.only (f.before ++ f.under :: f.behind n), rs⟩ =
      [⟨Text.byteSize f.before, .ofNat n⟩] := by
  cases f with
  | spaced =>
      exact DelayConstant.ofLine_around (by decide) (by decide) (by decide) (by decide)
        (DelayConstant.operand?_spaced n) hscan
  | parenthesized =>
      exact DelayConstant.ofLine_around (by decide) (by decide) (by decide) (by decide)
        (DelayConstant.operand?_parenthesized n) hscan
  | call =>
      exact DelayConstant.ofLine_delayCall hscan

end DelayForm

/-- A delay by a whole number of samples is reported, however it is written, if and only if the
number nearest to it is greater than the one nearest to the limit.  That is never so up to the
limit, and always above a limit that is less than `2 ^ 53`. -/
theorem exists_delays_whole (c : Catalog) (rules : Rules) (n : Nat) :
    ∃ samples limit, (∀ b, IsNearest n b ↔ b = samples) ∧
      (∀ b, IsNearest rules.maxDelay b ↔ b = limit) ∧
      (n ≤ rules.maxDelay → limit.less samples = false) ∧
      (rules.maxDelay < n → rules.maxDelay < 2 ^ 53 → limit.less samples = true) ∧
      ∀ f : DelayForm, ∃ v, validate c rules (f.source n) = .ok v ∧
        v.delays =
          if limit.less samples then
            [(Finding.oversizedDelay samples rules.maxDelay).diagnostic.putAt f.before [f.under]]
          else [] := by
  have hsamples := Binary64.isNearest_ofNat n
  have hlimit := Binary64.isNearest_ofNat rules.maxDelay
  refine ⟨_, _, hsamples.iff_eq, hlimit.iff_eq, fun hle => ?_, fun hlt hexact => ?_, fun f => ?_⟩
  · exact hsamples.not_less hlimit (by exact_mod_cast hle)
  · exact hlimit.less_of_lt hexact hlt hsamples
  · have hunder : f.under.utf8Size = 1 := by cases f <;> decide
    rw [f.source_eq]
    exact (f.isOneLine n).exists_delays hunder (some (.ofNat n)) (fun _ hscan => f.ofLine_eq hscan)
      c rules

/-- The standard rules with the greatest delay constant `2 ^ 53`. -/
def Rules.roundedLimit : Rules :=
  { Rules.standard with maxDelay := 2 ^ 53 }

/-- The next number is rounded to the limit. -/
theorem validate_roundedLimit :
    validate Catalog.empty .roundedLimit (DelayForm.spaced.source (2 ^ 53 + 1)) =
      .ok ⟨[], [], []⟩ := by
  decide +kernel

/-- So not every whole delay above the limit is reported. -/
theorem not_forall_whole_reported :
    ¬ ∀ (c : Catalog) (rules : Rules) (n : Nat) (f : DelayForm), rules.maxDelay < 2 ^ 64 →
      n < 2 ^ 64 →
        ∃ v, validate c rules (f.source n) = .ok v ∧ (v.delays ≠ [] ↔ rules.maxDelay < n) := by
  intro h
  obtain ⟨v, hv, hreported⟩ :=
    h Catalog.empty .roundedLimit (2 ^ 53 + 1) .spaced (by decide) (by decide)
  rw [validate_roundedLimit] at hv
  obtain rfl := Except.ok.inj hv
  exact hreported.2 (by decide) rfl

end DspCheck
