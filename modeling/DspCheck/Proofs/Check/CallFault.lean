import DspCheck.Check.Validation
import DspCheck.Proofs.OrderedMap
import DspCheck.Proofs.Source.ExpressionCalls
import DspCheck.Proofs.Source.Program

/-!
# What is wrong with a call

What is wrong with a call can be said of the call itself (`CallSite.fault?`), without any scanner,
and a scanner that reads the call says the same (`CallSite.map_remark?_eq_diagnostic?`).

There are three faults, and for each of them the diagnostic is told word by word
(`CallSite.IsReported`): its code and its severity, its message with the numbers of arguments that
are declared and given, its place, and what it suggests.

Main statement: `CallSite.diagnostic?_eq_some_iff`.
-/

namespace DspCheck

namespace CallSite

/-- What is wrong with a call, and the text that this is about. -/
def fault? (c : Catalog) (rules : Rules) (s : CallSite) : Option (Finding × Text) :=
  if c.hasLibrary s.library.text then
    match c.get? s.fullName with
    | none =>
        some (.unknownFunction s.library.text s.name.text
          (c.suggestions s.library.text s.name.text rules.maxSuggestions), s.fullName)
    | some signature =>
        if signature.argCount = 0 ∨ s.args.length = signature.argCount then none
        else some (.argumentCount s.fullName signature s.args.length, s.text)
  else if Text.byteSize s.library.text ≤ rules.maxUnknownLibrary then
    some (.unknownLibrary s.library.text c.libraryNames, s.library.text)
  else none

/-- The diagnostic about a call, at the place where it stands in the program. -/
def diagnostic? (c : Catalog) (rules : Rules) (s : CallSite) : Option Diagnostic :=
  (s.fault? c rules).map fun fault => fault.1.diagnostic.putAt s.before fault.2

/-- A remark on what a call starts with is put where the call stands. -/
theorem StandsIn.diagnostic_eq {l : Line} {source before behind : Text}
    (hstands : l.Stands source before behind) {s : CallSite} (hin : s.StandsIn before l.text)
    {start : Nat} (hstart : Text.byteSize before + start = Text.byteSize s.before) (f : Finding)
    {under more : Text} (hunder : s.text = under ++ more) :
    Remark.diagnostic l ⟨f, start, start + Text.byteSize under⟩ =
      f.diagnostic.putAt s.before under := by
  obtain ⟨front, rest, hbefore, htext⟩ := hin
  have hfront : start = Text.byteSize front := by
    rw [hbefore, Text.byteSize_append] at hstart
    omega
  have hsplit : l.text = front ++ under ++ (more ++ rest) := by
    rw [htext, hunder]
    simp
  rw [hbefore, Remark.diagnostic, hfront]
  exact hstands.place_eq f.diagnostic hsplit

/-- What the scanner finds at a call is judged as the call is. -/
theorem map_remark?_eq_diagnostic? (c : Catalog) (rules : Rules) {l : Line}
    {source before behind : Text} (hstands : l.Stands source before behind) {s : CallSite}
    {r : Reference} (hread : s.IsRead (Text.byteSize before) r) (hin : s.StandsIn before l.text)
    {recursive : List Text} (hrecursive : s.library.text ∉ recursive) :
    (r.remark? c rules recursive).map (Remark.diagnostic l) = s.diagnostic? c rules := by
  have hfull : r.fullName = s.fullName := by
    rw [Reference.fullName, hread.library, hread.name, fullName]
  have htext : s.text = s.library.text ++
      ('.' :: s.name.text ++ Expression.argumentsWith id s.args) := by
    rw [text_eq, fullName, Ident.qualified, List.append_assoc]
  unfold Reference.remark? diagnostic? fault?
  rw [hread.library, hfull]
  cases hlibrary : c.hasLibrary s.library.text with
  | false =>
      by_cases hlong : Text.byteSize s.library.text ≤ rules.maxUnknownLibrary
      · have hshort : ¬ rules.maxUnknownLibrary < Text.byteSize s.library.text := by
          omega
        simp only [hlong, hshort, List.contains_eq_mem, hrecursive, Bool.not_false, if_true,
          decide_false, Bool.or_false, Bool.false_eq_true, if_false, Option.map_some,
          Reference.unknownLibrary, hread.library]
        exact congrArg some (hin.diagnostic_eq hstands hread.start _ htext)
      · have hshort : rules.maxUnknownLibrary < Text.byteSize s.library.text := by
          omega
        simp [hlong, hshort]
  | true =>
      cases hget : c.get? s.fullName with
      | none =>
          simp only [Bool.not_true, Bool.false_eq_true, if_false, if_true, Option.map_some,
            Reference.unknownFunction, hread.library, hread.name, hread.stop]
          exact congrArg some (hin.diagnostic_eq hstands hread.start _ s.text_eq)
      | some signature =>
          obtain ⟨args, hargs, hcount, hend⟩ := hread.args
          simp only [Bool.not_true, Bool.false_eq_true, if_false, if_true,
            Reference.argumentRemark?, hargs, hcount, hfull, Bool.or_eq_true, decide_eq_true_eq]
          split
          · rfl
          · rw [Option.map_some, Option.map_some, hend]
            exact congrArg some
              (hin.diagnostic_eq hstands hread.start _ (List.append_nil s.text).symm)

/-! ## The words of the diagnostic -/

end CallSite

/-- A diagnostic of a severity and a code is about the text `under` that stands behind `before`. -/
structure Diagnostic.Says (severity : Severity) (tag message : Text) (suggestion? : Option Text)
    (before under : Text) (d : Diagnostic) : Prop where
  severity : d.severity = severity
  code : d.code? = Code.ofTag? tag
  message : d.message = message
  suggestion : d.suggestion? = suggestion?
  line : d.line = Text.lineBehind before
  column : d.column = Text.columnBehind before
  span : ∃ span, d.span? = some span ∧ span.start = Text.byteSize before ∧
    span.stop = Text.byteSize before + Text.byteSize under

/-- Diagnostics that say the same are one. -/
theorem Diagnostic.Says.unique {severity : Severity} {tag message : Text}
    {suggestion? : Option Text} {before under : Text} {d d' : Diagnostic}
    (h : d.Says severity tag message suggestion? before under)
    (h' : d'.Says severity tag message suggestion? before under) : d = d' := by
  obtain ⟨hseverity, hcode, hmessage, hsuggestion, hline, hcolumn, span, hspan, hstart, hstop⟩ := h
  obtain ⟨hseverity', hcode', hmessage', hsuggestion', hline', hcolumn', span', hspan', hstart',
    hstop'⟩ := h'
  have hsame : span = span' := by
    rw [Span.mk.injEq]
    exact ⟨hstart.trans hstart'.symm, hstop.trans hstop'.symm⟩
  rw [Diagnostic.mk.injEq]
  exact ⟨hseverity.trans hseverity'.symm, hcode.trans hcode'.symm, hmessage.trans hmessage'.symm,
    hline.trans hline'.symm, hcolumn.trans hcolumn'.symm,
    hspan.trans ((congrArg some hsame).trans hspan'.symm), hsuggestion.trans hsuggestion'.symm⟩

theorem Finding.says_putAt (f : Finding) {severity : Severity} {tag message : Text}
    {suggestion? : Option Text} (hseverity : f.code.severity = severity)
    (hcode : some f.code = Code.ofTag? tag) (hmessage : f.message = message)
    (hsuggestion : f.suggestion? = suggestion?) (before under : Text) :
    (f.diagnostic.putAt before under).Says severity tag message suggestion? before under where
  severity := hseverity
  code := hcode
  message := hmessage
  suggestion := hsuggestion
  line := rfl
  column := rfl
  span := ⟨_, rfl, rfl, Span.stop_between_of_le (Nat.le_add_right _ _)⟩

/-- The short names of the libraries, each one where it is declared first. -/
theorem Catalog.libraryNames_eq (c : Catalog) :
    c.libraryNames = (c.libraries.values.map LibraryInfo.library).eraseDups := by
  rw [libraryNames]
  induction c.libraries.values.map LibraryInfo.library using List.reverseRecOn with
  | nil =>
      rfl
  | append_singleton names name ih =>
      rw [List.foldl_append, ih, List.eraseDups_append]
      by_cases h : name ∈ names
      · simp [List.removeAll, h]
      · simp [List.removeAll, h, List.eraseDups_cons]

theorem Catalog.hasLibrary_iff {c : Catalog} {library : Text} :
    c.hasLibrary library = true ↔ ∃ l ∈ c.libraries.values, l.library = library := by
  simp [hasLibrary]

namespace CallSite

/-- What a diagnostic says of a faulty call. -/
inductive IsReported (c : Catalog) (rules : Rules) (s : CallSite) (d : Diagnostic) : Prop
  /-- No library has the short name before the dot, and that name is not too long for a library. -/
  | unknownLibrary (hlibrary : ∀ l ∈ c.libraries.values, l.library ≠ s.library.text)
      (hshort : Text.byteSize s.library.text ≤ rules.maxUnknownLibrary)
      (htold : d.Says .warning "W200" ("unknown library prefix `" ++ s.library.text ++ "`")
        (match (c.libraries.values.map LibraryInfo.library).eraseDups with
          | [] => none
          | known => some ("known prefixes: " ++ Text.join ", " known))
        s.before s.library.text)
  /-- There is a library of that name, but no function is kept under the full name. -/
  | unknownFunction (hlibrary : ∃ l ∈ c.libraries.values, l.library = s.library.text)
      (hfunction : s.fullName ∉ c.functions.keys)
      (htold : d.Says .error "E100" ("unknown function `" ++ s.fullName ++ "`")
        (some (match c.suggestions s.library.text s.name.text rules.maxSuggestions with
          | [] => "no function named `" ++ s.name.text ++ "` in the `" ++ s.library.text
              ++ "` library; check its documentation"
          | similar =>
              "did you mean " ++ Text.join ", " (similar.map fun t => "`" ++ t ++ "`") ++ "?"))
        s.before s.fullName)
  /-- The function takes another number of arguments. -/
  | argumentCount (signature : Signature)
      (hlibrary : ∃ l ∈ c.libraries.values, l.library = s.library.text)
      (hfunction : (s.fullName, signature) ∈ c.functions.entries)
      (hsome : signature.argCount ≠ 0) (hcount : s.args.length ≠ signature.argCount)
      (htold : d.Says .error "E101"
        ("`" ++ s.fullName ++ "` expects " ++ Text.decimal signature.argCount ++ " argument(s) ("
          ++ Text.join ", " signature.args ++ ") but got " ++ Text.decimal s.args.length)
        (some (signature.fullName ++ "(" ++ Text.join ", " signature.args ++ ")"))
        s.before s.text)

variable (c : Catalog) (rules : Rules) (s : CallSite)

theorem says_unknownLibrary :
    ((Finding.unknownLibrary s.library.text c.libraryNames).diagnostic.putAt s.before
        s.library.text).Says .warning "W200" ("unknown library prefix `" ++ s.library.text ++ "`")
      (match (c.libraries.values.map LibraryInfo.library).eraseDups with
        | [] => none
        | known => some ("known prefixes: " ++ Text.join ", " known))
      s.before s.library.text := by
  refine Finding.says_putAt (.unknownLibrary s.library.text c.libraryNames) rfl
    (Code.ofTag?_tag .unknownLibrary).symm rfl ?_ _ _
  rw [c.libraryNames_eq]
  cases (c.libraries.values.map LibraryInfo.library).eraseDups <;> rfl

theorem says_unknownFunction :
    ((Finding.unknownFunction s.library.text s.name.text
        (c.suggestions s.library.text s.name.text rules.maxSuggestions)).diagnostic.putAt s.before
        s.fullName).Says .error "E100" ("unknown function `" ++ s.fullName ++ "`")
      (some (match c.suggestions s.library.text s.name.text rules.maxSuggestions with
        | [] => "no function named `" ++ s.name.text ++ "` in the `" ++ s.library.text
            ++ "` library; check its documentation"
        | similar =>
            "did you mean " ++ Text.join ", " (similar.map fun t => "`" ++ t ++ "`") ++ "?"))
      s.before s.fullName := by
  refine Finding.says_putAt (.unknownFunction s.library.text s.name.text _) rfl
    (Code.ofTag?_tag .unknownFunction).symm rfl ?_ _ _
  cases c.suggestions s.library.text s.name.text rules.maxSuggestions with
  | nil =>
      simp only [Finding.suggestion?, Text.quoted, List.append_assoc]
      rfl
  | cons t ts =>
      rfl

theorem says_argumentCount (signature : Signature) :
    ((Finding.argumentCount s.fullName signature s.args.length).diagnostic.putAt s.before
        s.text).Says .error "E101"
      ("`" ++ s.fullName ++ "` expects " ++ Text.decimal signature.argCount ++ " argument(s) ("
        ++ Text.join ", " signature.args ++ ") but got " ++ Text.decimal s.args.length)
      (some (signature.fullName ++ "(" ++ Text.join ", " signature.args ++ ")"))
      s.before s.text := by
  have hquoted : ("`" ++ s.fullName ++ "` expects " : Text) =
      Text.quoted s.fullName ++ " expects " := by
    rw [Text.quoted, List.append_assoc _ ("`" : Text)]
    rfl
  rw [hquoted]
  exact Finding.says_putAt (.argumentCount s.fullName signature s.args.length) rfl
    (Code.ofTag?_tag .argumentCount).symm rfl rfl _ _

/-- The diagnostic about a call is one that its fault accounts for. -/
theorem isReported_of_diagnostic? {d : Diagnostic} (h : s.diagnostic? c rules = some d) :
    s.IsReported c rules d := by
  obtain ⟨fault, hfault, rfl⟩ := Option.map_eq_some_iff.1 h
  unfold fault? at hfault
  split at hfault
  · next hlibrary =>
      rw [Catalog.hasLibrary_iff] at hlibrary
      split at hfault
      · next hget =>
          obtain rfl := Option.some.inj hfault
          exact .unknownFunction hlibrary (OrderedMap.get?_eq_none_iff.1 hget)
            (s.says_unknownFunction c rules)
      · next signature hget =>
          split at hfault
          · cases hfault
          · next hcount =>
              obtain rfl := Option.some.inj hfault
              rw [not_or] at hcount
              exact .argumentCount signature hlibrary (OrderedMap.get?_eq_some_iff.1 hget) hcount.1
                hcount.2 (s.says_argumentCount signature)
  · next hlibrary =>
      split at hfault
      · next hshort =>
          obtain rfl := Option.some.inj hfault
          refine .unknownLibrary (fun l hl heq => hlibrary ?_) hshort (s.says_unknownLibrary c)
          exact Catalog.hasLibrary_iff.2 ⟨l, hl, heq⟩
      · cases hfault

/-- A diagnostic is given about a call if and only if a fault of the call accounts for it. -/
theorem diagnostic?_eq_some_iff (d : Diagnostic) :
    s.diagnostic? c rules = some d ↔ s.IsReported c rules d := by
  refine ⟨s.isReported_of_diagnostic? c rules, fun h => ?_⟩
  unfold diagnostic? fault?
  cases h with
  | unknownLibrary hlibrary hshort htold =>
      have hnone : c.hasLibrary s.library.text = false := by
        rw [Bool.eq_false_iff, ne_eq, Catalog.hasLibrary_iff]
        exact fun ⟨l, hl, heq⟩ => hlibrary l hl heq
      rw [hnone, if_neg Bool.false_ne_true, if_pos hshort, Option.map_some]
      exact congrArg some ((s.says_unknownLibrary c).unique htold)
  | unknownFunction hlibrary hfunction htold =>
      have hget : c.get? s.fullName = none := OrderedMap.get?_eq_none_iff.2 hfunction
      rw [if_pos (Catalog.hasLibrary_iff.2 hlibrary), hget]
      exact congrArg some ((s.says_unknownFunction c rules).unique htold)
  | argumentCount signature hlibrary hfunction hsome hcount htold =>
      have hget : c.get? s.fullName = some signature := OrderedMap.get?_eq_some_iff.2 hfunction
      rw [if_pos (Catalog.hasLibrary_iff.2 hlibrary), hget]
      dsimp only
      rw [if_neg (not_or.2 ⟨hsome, hcount⟩), Option.map_some]
      exact congrArg some ((s.says_argumentCount signature).unique htold)

end CallSite
end DspCheck
