import DspCheck.Check.Validation
import DspCheck.Proofs.Check.Calls
import DspCheck.Proofs.Library.Build
import DspCheck.Proofs.Source.ExpressionCalls
import DspCheck.Proofs.Source.Program

/-!
# Call forms are accepted

The diagnostic about a wrong number of arguments suggests the call form of the function.  In a
program that consists of a call form, the scanner finds the call where it stands and nothing else at
that place (`exists_scan_call`), and it reads as many arguments as the signature has.  So nothing is
wrong with the call, unless the catalog has lost the library of the function
(`Catalog.IsSound.exists_check_callForm`).
-/

namespace DspCheck

/-- The kinds of problems that calls have. -/
def Code.ofCalls : List Code :=
  [.unknownFunction, .argumentCount, .unknownLibrary]

namespace Reference

variable {c : Catalog} {rules : Rules} {recursive : List Text} {r : Reference}

/-- Nothing is wrong with a call of a known function with as many arguments as it takes. -/
theorem remark?_eq_none {s : Signature} (hlibrary : c.hasLibrary r.library = true)
    (hget : c.get? r.fullName = some s) {l : ArgumentList}
    (hread : ArgumentList.read? r.follow = some l) (hcount : l.args.length = s.argCount) :
    r.remark? c rules recursive = none := by
  simp [remark?, argumentRemark?, hlibrary, hget, hread, hcount]

/-- The only remark about a call of a member of an unknown library is about the library. -/
theorem eq_unknownLibrary_of_remark? (hlibrary : c.hasLibrary r.library = false) {m : Remark}
    (hm : r.remark? c rules recursive = some m) : m = r.unknownLibrary c := by
  unfold remark? at hm
  rw [hlibrary, Bool.not_false, if_pos rfl] at hm
  split at hm
  · cases hm
  · exact (Option.some.inj hm).symm

/-- In a program that consists of a call, the scanner finds the call and goes on behind the name of
the function. -/
theorem exists_scan_eq (library name : Identifier) (t : Text) :
    ∃ r, scan ("process = " ++ Ident.qualified library.text name.text ++ '(' :: t) =
        (scanFrom false (10 + Text.byteSize (Ident.qualified library.text name.text))
          ('(' :: t)).map (r :: ·) ∧
      r.library = library.text ∧ r.name = name.text ∧ r.start = 10 ∧ r.follow = '(' :: t := by
  have hparen : Text.EndsAt isRunChar ('(' :: t) := Text.endsAt_cons (by decide) t
  have hblank : Text.EndsAt Text.isBlank ('(' :: t) := Text.endsAt_cons (by decide) t
  have hscan :=
    calc scan ("process = " ++ Ident.qualified library.text name.text ++ '(' :: t)
      _ = scanFrom false 0 (("process" : Text) ++ (" = " ++
          (Ident.qualified library.text name.text ++ '(' :: t))) := by
        rw [scan, List.append_assoc]
        rfl
      _ = scanFrom false 7 ((" = " : Text) ++
          (Ident.qualified library.text name.text ++ '(' :: t)) :=
        scanFrom_of_notMem (by decide) (List.all_iff_forall_prop.1 (by decide)) (by decide)
          (Text.endsAt_cons (by decide) _) 0
      _ = scanFrom false 10 (Ident.qualified library.text name.text ++ '(' :: t) :=
        scanFrom_glue (List.all_iff_forall_prop.1 (by decide)) 7 _
      _ = _ := Expression.scanFrom_qualified library name hparen
  rw [Text.trimStart_of_endsAt hblank] at hscan
  exact ⟨_, hscan, rfl, rfl, rfl, rfl⟩

/-- In a program that consists of a call, the scanner finds the call where it stands. -/
theorem exists_scan_call (library name : Identifier) {t : Text}
    (ht : ∀ c ∈ t, Text.isAscii c = true) :
    ∃ r rs, scan ("process = " ++ Ident.qualified library.text name.text ++ '(' :: t) =
        .ok (r :: rs) ∧
      r.library = library.text ∧ r.name = name.text ∧ r.follow = '(' :: t ∧
      ∀ r' ∈ rs, 10 < r'.start := by
  have hascii : ∀ c ∈ '(' :: t, Text.isAscii c = true := List.forall_mem_cons.2 ⟨by decide, ht⟩
  have hbefore : 10 + Text.byteSize (Ident.qualified library.text name.text) =
      Text.byteSize ("process = " ++ Ident.qualified library.text name.text) := by
    rw [Text.byteSize_append]
    rfl
  obtain ⟨rs, hrs⟩ := exists_scanFrom_eq_ok hascii false
    (10 + Text.byteSize (Ident.qualified library.text name.text))
  obtain ⟨r, hscan, hlibrary, hname, -, hfollow⟩ := exists_scan_eq library name t
  rw [hrs] at hscan
  refine ⟨r, rs, hscan, hlibrary, hname, hfollow, fun r' hr' => ?_⟩
  obtain ⟨front, blanks, hstands⟩ := exists_stands_of_scanFrom hrs hr' _ hbefore
  have hpos : 0 < Text.byteSize (Ident.qualified library.text name.text) :=
    Text.byteSize_pos (by simp [Ident.qualified])
  rw [hstands.start, Text.byteSize_append, ← hbefore]
  omega

end Reference

namespace ProgramLine

/-- A diagnostic about a call comes from the remark about a reference on its line. -/
theorem exists_remark?_of_mem_check {c : Catalog} {rules : Rules} {localLibraries : List Text}
    {l : ProgramLine} {d : Diagnostic} (hd : d ∈ l.check c rules localLibraries) {code : Code}
    (hcode : d.code? = some code) (hcalls : code ∈ Code.ofCalls) :
    ∃ r ∈ l.references, ∃ m, r.remark? c rules l.recursiveNames = some m ∧
      d = m.diagnostic l.toLine := by
  obtain ⟨m, hm, rfl⟩ := List.mem_map.1 hd
  rcases List.mem_append.1 hm with hm | hm
  · obtain ⟨b, -, hm⟩ := List.mem_flatMap.1 hm
    obtain rfl := Option.some.inj hcode
    -- no remark about a binding is about a call
    rcases Binding.code_of_mem_remarks hm with h | h
    · exact absurd hcalls (by simp [h, Code.ofCalls])
    · exact absurd hcalls (by simp [h, Code.ofCalls])
  · obtain ⟨r, hr, hm⟩ := List.mem_filterMap.1 hm
    exact ⟨r, List.mem_of_mem_filter (List.mem_of_mem_filter hr), m, hm, rfl⟩

end ProgramLine

/-- A source on one line that is its own masked form is a program of that line. -/
theorem Program.ofSource_of_oneLine {t : Text} (hbreak : '\n' ∉ t) (hend : t.getLast? ≠ some '\r')
    (hmask : Text.MasksAs t t) {rs : List Reference} (hscan : Reference.scan t = .ok rs) :
    Program.ofSource t = .ok [⟨⟨1, 0, 0, t, t⟩, rs⟩] := by
  have hraw : Text.rawLines t = [t] :=
    Text.rawLines_join (List.cons_ne_nil t []) (List.forall_mem_singleton.2 hbreak)
  have hcode : Text.mask .code t = t := by
    have hself := (hmask []).1
    rwa [List.append_nil, Text.mask, List.append_nil] at hself
  have hline : ProgramLine.ofLine ⟨1, 0, 0, t, t⟩ = .ok ⟨⟨1, 0, 0, t, t⟩, rs⟩ := by
    rw [ProgramLine.ofLine, hscan]
    rfl
  rw [ofSource, Line.ofSource, hraw, Line.linesFrom, Text.dropReturn_of_getLast? hend, hcode]
  exact mapM_cons_of_ok hline rfl

namespace Signature

variable {s : Signature}

/-- What stands behind the full name in a program that consists of a call form. -/
def callBehind (s : Signature) : Text :=
  Text.join ", " s.args ++ ")" ++ ";"

theorem process_callForm (s : Signature) :
    "process = " ++ s.callForm ++ ";" = "process = " ++ s.fullName ++ '(' :: s.callBehind := by
  simp [callForm, callBehind]

/-- All characters behind the full name come from the arguments or are punctuation. -/
theorem forall_mem_callBehind {p : Char → Prop} (hargs : ∀ a ∈ s.args, ∀ c ∈ a, p c)
    (hplain : ∀ c ∈ (", );" : Text), p c) : ∀ c ∈ s.callBehind, p c := by
  intro c hc
  rw [callBehind, List.append_assoc] at hc
  rcases List.mem_append.1 hc with hc | hc
  · rcases Text.mem_join hc with hc | ⟨a, ha, hc⟩
    · exact hplain c (List.mem_append_left ");".toList hc)
    · exact hargs a ha c hc
  · exact hplain c (List.mem_append_right ", ".toList hc)

theorem IsDocumented.newline_notMem_args {limits : DocLimits} (h : s.IsDocumented limits) :
    ∀ a ∈ s.args, '\n' ∉ a := by
  obtain ⟨t, l, hbreak, hread, hl⟩ := h.args
  intro a ha hmem
  exact hbreak (ArgumentList.mem_of_mem_args hread (hl ▸ ha) hmem)

/-- Without quotes and slashes in the arguments, the program has no string literals, no comments and
no line ends. -/
theorem IsDocumented.plain_process {limits : DocLimits} (h : s.IsDocumented limits)
    (hargs : ∀ a ∈ s.args, ∀ c ∈ a, c ≠ '"' ∧ c ≠ '/') :
    ∀ c ∈ "process = " ++ s.fullName ++ '(' :: s.callBehind,
      (c ≠ '"' ∧ c ≠ '/') ∧ c ≠ '\n' := by
  rw [List.forall_mem_append, List.forall_mem_append, List.forall_mem_cons]
  refine ⟨⟨List.all_iff_forall_prop.1 (by decide), fun c hc => ?_⟩, by decide,
    forall_mem_callBehind (fun a ha c hc => ⟨hargs a ha c hc, ?_⟩)
      (List.all_iff_forall_prop.1 (by decide))⟩
  · rw [h.fullName] at hc
    obtain ⟨hplain, -, hslash, hbreak⟩ := Expression.inert_of_isRunChar
      (Expression.isRunChar_of_mem_qualified ⟨s.library, h.library⟩ ⟨s.name, h.name⟩ c hc)
    obtain ⟨⟨⟨hquote, -⟩, -⟩, -⟩ := by simpa [ArgumentList.isPlain] using hplain
    exact ⟨⟨hquote, hslash⟩, hbreak⟩
  · rintro rfl
    exact h.newline_notMem_args a ha hc

theorem getLast?_process (s : Signature) :
    ("process = " ++ s.fullName ++ '(' :: s.callBehind).getLast? ≠ some '\r' := by
  have hsplit : "process = " ++ s.fullName ++ '(' :: s.callBehind =
      "process = " ++ s.fullName ++ '(' :: (Text.join ", " s.args ++ ")") ++ [';'] := by
    simp [callBehind]
  rw [hsplit, List.getLast?_concat]
  decide

/-- Arguments without string literals are as many arguments in the call form. -/
theorem IsDocumented.exists_read?_callBehind {limits : DocLimits} (h : s.IsDocumented limits)
    (hquote : ∀ a ∈ s.args, '"' ∉ a) :
    ∃ l, ArgumentList.read? ('(' :: s.callBehind) = some l ∧ l.args.length = s.argCount := by
  obtain ⟨t, l, -, hread, hl⟩ := h.args
  rw [h.argCount, callBehind, ← hl]
  rw [← hl] at hquote
  exact ArgumentList.exists_read?_args hread hquote ";"

end Signature

namespace Catalog

variable {limits : DocLimits} {c : Catalog} {s : Signature}

/-- Every function is found under its full name. -/
theorem IsSound.get?_fullName (h : c.IsSound limits) (hs : s ∈ c.functions.values) :
    c.get? s.fullName = some s ∧ s.IsDocumented limits := by
  obtain ⟨e, he, rfl⟩ := List.mem_map.1 hs
  obtain ⟨hkey, hdocumented⟩ := h.functions e he
  refine ⟨?_, hdocumented⟩
  rw [get?, OrderedMap.get?_eq_some_iff, ← hkey]
  exact he

/-- The library of every function is known if no entry is lost. -/
theorem IsWellFormed.hasLibrary (h : c.IsWellFormed limits) (hs : s ∈ c.functions.values) :
    c.hasLibrary s.library = true := by
  obtain ⟨e, he, rfl⟩ := List.mem_map.1 hs
  obtain ⟨l, hl, hlibrary⟩ := h.declared e he
  rw [Catalog.hasLibrary, List.any_eq_true]
  exact ⟨l, hl, decide_eq_true hlibrary⟩

/-- Nothing is wrong with the call form of a function, unless its library is unknown, and then
nothing else. -/
theorem IsSound.exists_check_callForm (h : c.IsSound limits) (hs : s ∈ c.functions.values)
    (hargs : ∀ a ∈ s.args, ∀ ch ∈ a, Text.isAscii ch = true ∧ ch ≠ '"' ∧ ch ≠ '/')
    (rules : Rules) :
    ∃ ds, check c rules ("process = " ++ s.callForm ++ ";") = .ok ds ∧
      ∀ d ∈ ds, ∀ code span, d.code? = some code → code ∈ Code.ofCalls →
        d.span? = some span → span.start = 10 →
          code = .unknownLibrary ∧ c.hasLibrary s.library = false := by
  obtain ⟨hget, hs⟩ := h.get?_fullName hs
  obtain ⟨list, hread, hcount⟩ :=
    hs.exists_read?_callBehind fun a ha hmem => (hargs a ha _ hmem).2.1 rfl
  obtain ⟨r, rs, hscan, hlibrary, hname, hfollow, hlater⟩ := Reference.exists_scan_call
    ⟨s.library, hs.library⟩ ⟨s.name, hs.name⟩
    (Signature.forall_mem_callBehind (fun a ha ch hch => (hargs a ha ch hch).1)
      (List.all_iff_forall_prop.1 (by decide)))
  have hplain := hs.plain_process fun a ha ch hch => (hargs a ha ch hch).2
  have hprogram := Program.ofSource_of_oneLine (fun hmem => (hplain _ hmem).2 rfl)
    s.getLast?_process (Text.masksAs_self fun ch hch => (hplain ch hch).1) (hs.fullName ▸ hscan)
  rw [s.process_callForm, check, hprogram]
  refine ⟨_, rfl, fun d hd code span hcode hcalls hspan hstart => ?_⟩
  rw [Program.check, List.flatMap_singleton] at hd
  obtain ⟨r', hr', m, hm, rfl⟩ := ProgramLine.exists_remark?_of_mem_check hd hcode hcalls
  have hplace : r'.start = 10 := by
    rw [← Reference.start_of_remark? hm, ← hstart]
    cases hspan
    simp
  rcases List.mem_cons.1 hr' with rfl | hr'
  · cases hknown : c.hasLibrary s.library with
    | true =>
        have hfull : c.get? r'.fullName = some s := by
          rw [Reference.fullName, hlibrary, hname, ← hget, hs.fullName]
        rw [Reference.remark?_eq_none (hlibrary ▸ hknown) hfull (hfollow ▸ hread) hcount] at hm
        cases hm
    | false =>
        rw [Reference.eq_unknownLibrary_of_remark? (hlibrary ▸ hknown) hm] at hcode
        exact ⟨(Option.some.inj hcode).symm, rfl⟩
  · -- what the scanner finds later starts behind the name of the function
    have hbehind := hlater r' hr'
    omega

end Catalog

namespace FileTree

/-- In a catalog that is built from a directory, the call form of every function without string
literals and comments in its arguments is accepted: a program that consists of it has no diagnostic
about the call, unless the library of the function is unknown.  Then two files that document
something have the same name, and the names of the files are not all texts. -/
theorem exists_check_callForm_of_buildCatalog {t t' : FileTree} {home : Option Text}
    {input : ByteArray} {settings : LibrarySettings} {directory : Text} {b : CatalogBuild}
    (h : ((access home input).buildCatalog settings directory).run.run t = (.ok b, t'))
    {s : Signature} (hs : s ∈ b.catalog.functions.values)
    (hargs : ∀ a ∈ s.args, ∀ c ∈ a, Text.isAscii c = true ∧ c ≠ '"' ∧ c ≠ '/') (rules : Rules) :
    ∃ ds, check b.catalog rules ("process = " ++ s.callForm ++ ";") = .ok ds ∧
      ∀ d ∈ ds, ∀ code span, d.code? = some code → code ∈ Code.ofCalls →
        d.span? = some span → span.start = 10 →
          code = .unknownLibrary ∧ b.catalog.hasLibrary s.library = false ∧
            ¬ CatalogBuild.NamesDiffer settings (t.filesBelow directory) ∧
            ¬ t.HasReadableNames directory := by
  rw [eq_ofFiles_of_buildCatalog h] at hs ⊢
  obtain ⟨ds, hcheck, hds⟩ :=
    (CatalogBuild.isSound_ofFiles settings directory _).exists_check_callForm hs hargs rules
  refine ⟨ds, hcheck, fun d hd code span hcode hcalls hspan hstart => ?_⟩
  obtain ⟨hunknown, hlibrary⟩ := hds d hd code span hcode hcalls hspan hstart
  have hshared : ¬ CatalogBuild.NamesDiffer settings (t.filesBelow directory) := by
    intro hnames
    rw [(CatalogBuild.isWellFormed_ofFiles directory hnames).hasLibrary hs] at hlibrary
    cases hlibrary
  exact ⟨hunknown, hlibrary, hshared,
    fun hnames => hshared (namesDiffer_filesBelow hnames settings)⟩

/-- The theorem at a function with an argument that has commas and parentheses in it: no diagnostic
is about the call. -/
theorem exists_check_callForm_nested :
    ∃ t b s, ((access none .empty).buildCatalog .standard "libs").run.run t = (.ok b, t) ∧
      s ∈ b.catalog.functions.values ∧ s.args = ["(a, b)".toList, "c".toList] ∧
      ∃ ds, check b.catalog .standard ("process = " ++ s.callForm ++ ";") = .ok ds ∧
        ∀ d ∈ ds, ∀ code span, d.code? = some code → code ∈ Code.ofCalls →
          d.span? = some span → span.start ≠ 10 := by
  let text : Text :=
    "// prefix: fi\n// ---`mix`---\n// #### Usage\n// ```\n// _ : mix((a, b), c) : _\n// ```\n"
  let s : Signature := .ofShape "fi" "mix" ["(a, b)".toList, "c".toList] 1 1
  have hrun := run_buildCatalog (oneLibrary text) none .empty .standard "libs"
  rw [filesBelow_oneLibrary, if_pos (by decide +kernel)] at hrun
  have hs : s ∈ (CatalogBuild.ofFiles .standard "libs"
      [⟨.ofTexts ["filters.lib"], .ok (Text.toUtf8 text)⟩]).catalog.functions.values := by
    decide +kernel
  have hargs : ∀ a ∈ s.args, ∀ c ∈ a, Text.isAscii c = true ∧ c ≠ '"' ∧ c ≠ '/' :=
    List.forall_mem_cons.2 ⟨List.all_iff_forall_prop.1 (by decide),
      List.forall_mem_singleton.2 (List.all_iff_forall_prop.1 (by decide))⟩
  have hnames := hasReadableNames_oneLibrary text
  obtain ⟨ds, hcheck, hds⟩ := exists_check_callForm_of_buildCatalog hrun hs hargs .standard
  exact ⟨_, _, s, hrun, hs, rfl, ds, hcheck, fun d hd code span hcode hcalls hspan hstart =>
    (hds d hd code span hcode hcalls hspan hstart).2.2.2 hnames⟩

/-- The library of the first of two files with names that cannot be read is unknown, and so there is
a warning about it at the call form of its function. -/
theorem exists_check_callForm_unreadableNames :
    ((access none .empty).buildCatalog .standard "libs").run.run unreadableNames =
        (.ok unreadableNamesBuild, unreadableNames) ∧
      ∃ s ∈ unreadableNamesBuild.catalog.functions.values, s.args = ["x".toList] ∧
        ∃ d, check unreadableNamesBuild.catalog .standard ("process = " ++ s.callForm ++ ";") =
            .ok [d] ∧
          d.code? = some .unknownLibrary ∧ d.span? = some (.between 10 12) := by
  let s : Signature := .ofShape "aa" "f" ["x".toList] 0 1
  let d : Diagnostic := { Finding.diagnostic (.unknownLibrary "aa" ["bb"]) with
    line := 1
    column := 11
    span? := some (.between 10 12) }
  have hs : s ∈ unreadableNamesBuild.catalog.functions.values := by
    decide +kernel
  have hcheck : check unreadableNamesBuild.catalog .standard ("process = " ++ s.callForm ++ ";") =
      .ok [d] := by
    decide +kernel
  exact ⟨run_buildCatalog_unreadableNames, s, hs, rfl, d, hcheck, rfl, rfl⟩

end FileTree
end DspCheck
