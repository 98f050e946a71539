import DspCheck.Library.File
import DspCheck.Proofs.Source.Expression
import DspCheck.Proofs.Text.Lines
import DspCheck.Proofs.Text.Trim
import DspCheck.Proofs.Text.Word

/-!
# Libraries as they are written

A written function has a documentation block and a definition.  The block has a header, a usage that
may be missing, and what the parameters mean.  Its layout says how many dashes and empty comments
there are, which means nothing to the reader.

`WrittenFunction.lines` are the lines of a function, and `WrittenFunction.docLines` says what each
of them is to the reader (`map_classify_lines`).
-/

namespace DspCheck

/-- How a documentation block is laid out. -/
structure BlockLayout where
  /-- The dashes before the name, beyond the first three. -/
  before : Nat
  /-- The dashes behind the name. -/
  behind : Nat
  /-- The dashes of the last line, beyond the first three. -/
  closing : Nat
  /-- The empty comments around a heading. -/
  gap : Nat

/-- The signals that a usage shows. -/
structure SignalCounts where
  inputs : Nat
  outputs : Nat
  pos : 1 ≤ outputs

/-- What the documentation of a parameter may say: something on one line, without blanks around
it. -/
structure IsMeaning (t : Text) : Prop where
  ne_nil : t ≠ []
  trimmed : Text.trim t = t
  noBreak : '\n' ∉ t

/-- A function with its documentation, as it is written into a library. -/
structure WrittenFunction where
  layout : BlockLayout
  name : Identifier
  /-- The name can be told from a placeholder. -/
  name_ne : name.text ≠ "_"
  args : List Identifier
  /-- What the usage shows, if there is one. -/
  signals? : Option SignalCounts
  paramDocs : OrderedMap Text Text
  isIdent_of_mem_keys : ∀ key ∈ paramDocs.keys, Ident.isIdent key = true
  isMeaning_of_mem_values : ∀ t ∈ paramDocs.values, IsMeaning t

namespace WrittenFunction

/-- At least three dashes. -/
def dashes (n : Nat) : Text :=
  List.replicate (n + 3) '-'

/-- Placeholders for some signals. -/
def signals (n : Nat) : Text :=
  Text.join "," (List.replicate n "_".toList)

/-- What stands before a call with some inputs. -/
def lead (n : Nat) : Text :=
  if n = 0 then [] else signals n ++ " : "

/-- A comment line. -/
def commentLine (t : Text) : Text :=
  if t = [] then "//" else "// " ++ t

/-- The line about a parameter. -/
def bullet (entry : Text × Text) : Text :=
  "* `" ++ entry.1 ++ "`: " ++ entry.2

variable (f : WrittenFunction)

/-- What stands behind the name in a call. -/
def callArgs : Text :=
  "(" ++ Text.join "," (f.args.map Identifier.text) ++ ")"

/-- The line of the usage. -/
def usage (s : SignalCounts) : Text :=
  lead s.inputs ++ f.name.text ++ (f.callArgs ++ " : " ++ signals s.outputs)

/-- The name with the short name of the library, as in `(fi.)lowpass`. -/
def member (library : Identifier) : Text :=
  "(" ++ (library.text ++ "." ++ ")" ++ f.name.text)

/-- What the first line of the block has between its dashes, and the dashes. -/
def headerText (library : Identifier) : Text :=
  dashes f.layout.before ++ Text.quoted (f.member library) ++ List.replicate f.layout.behind '-'

/-- The first line of the block. -/
def header (library : Identifier) : Text :=
  "//" ++ f.headerText library

/-- The empty comments around a heading. -/
def gap : List Text :=
  List.replicate f.layout.gap []

/-- The comments of the usage. -/
def usageComments : List Text :=
  match f.signals? with
  | none => []
  | some s => f.gap ++ ["#### Usage".toList] ++ f.gap ++ ["```".toList, f.usage s, "```".toList]

/-- The comments about the parameters. -/
def paramComments : List Text :=
  f.gap ++ ["Where:".toList] ++ f.gap ++ f.paramDocs.entries.map bullet ++ f.gap

/-- The line that ends the block. -/
def closing : Text :=
  "//" ++ dashes f.layout.closing

/-- The line that defines the function.  The arguments are there if there is no usage. -/
def definition : Text :=
  f.name.text ++ ((if f.signals?.isSome then [] else f.callArgs) ++ " = _;")

/-- The lines of the function in a library with a given short name. -/
def lines (library : Identifier) : List Text :=
  f.header library :: (f.usageComments ++ f.paramComments).map commentLine
    ++ [f.closing, f.definition, []]

/-- What the lines behind the header are to the reader. -/
def bodyLines : List DocLine :=
  (f.usageComments ++ f.paramComments).map .comment ++ [.rule, .code f.definition, .blank]

/-- What the lines are to the reader. -/
def docLines : List DocLine :=
  .header f.name.text :: f.bodyLines

/-- The signature that the lines give. -/
def signature (library : Identifier) : Signature :=
  { Signature.ofShape library.text f.name.text (f.args.map Identifier.text)
      ((f.signals?.map SignalCounts.inputs).getD 0)
      ((f.signals?.map SignalCounts.outputs).getD 1) with
    paramDocs := f.paramDocs }

/-! ## The lines are trimmed -/

/-- A line that trimming leaves alone. -/
structure IsTrimmedLine (t : Text) : Prop where
  trimmed : Text.trim t = t
  noBreak : '\n' ∉ t

theorem isTrimmedLine_of_forall {t : Text} (h : ∀ c ∈ t, Text.isBlank c = false) :
    IsTrimmedLine t where
  trimmed := Text.trim_of_forall h
  noBreak hmem := absurd (h _ hmem) (by decide)

theorem IsTrimmedLine.append {s t m : Text} (hs : IsTrimmedLine s) (ht : IsTrimmedLine t)
    (hs' : s ≠ []) (ht' : t ≠ []) (hm : '\n' ∉ m) : IsTrimmedLine (s ++ (m ++ t)) where
  trimmed := Text.trim_append hs' ht' hs.trimmed ht.trimmed m
  noBreak := by
    rw [List.mem_append, List.mem_append, not_or, not_or]
    exact ⟨hs.noBreak, hm, ht.noBreak⟩

theorem not_isBlank_of_mem_dashes {n : Nat} {c : Char} (hc : c ∈ List.replicate n '-') :
    Text.isBlank c = false := by
  rw [List.eq_of_mem_replicate hc]
  decide

theorem not_isBlank_of_mem_identifier (x : Identifier) :
    ∀ c ∈ x.text, Text.isBlank c = false :=
  fun _ hc => Ident.not_isBlank_of_isPart (Ident.isPart_of_mem x.isIdent hc)

theorem isTrimmedLine_identifier (x : Identifier) : IsTrimmedLine x.text :=
  isTrimmedLine_of_forall (not_isBlank_of_mem_identifier x)

theorem mem_signals {n : Nat} {c : Char} (h : c ∈ signals n) : c = '_' ∨ c = ',' := by
  rcases Text.mem_join h with h | ⟨t, ht, h⟩
  · exact Or.inr (List.mem_singleton.1 h)
  · rw [List.eq_of_mem_replicate ht] at h
    exact Or.inl (List.mem_singleton.1 h)

theorem exists_signals_eq_cons {n : Nat} (h : n ≠ 0) : ∃ t, signals n = '_' :: t := by
  match n with
  | 0 =>
      exact absurd rfl h
  | 1 =>
      exact ⟨[], rfl⟩
  | n + 2 =>
      exact ⟨',' :: signals (n + 1), rfl⟩

theorem signals_ne_nil {n : Nat} (h : n ≠ 0) : signals n ≠ [] := by
  obtain ⟨t, ht⟩ := exists_signals_eq_cons h
  rw [ht]
  exact List.cons_ne_nil '_' t

theorem isTrimmedLine_signals (n : Nat) : IsTrimmedLine (signals n) := by
  refine isTrimmedLine_of_forall fun c hc => ?_
  rcases mem_signals hc with rfl | rfl <;> decide

theorem not_isBlank_of_mem_member (library : Identifier) :
    ∀ c ∈ f.member library, Text.isBlank c = false := by
  simp only [member, List.forall_mem_append]
  exact ⟨List.all_iff_forall_prop.1 (by decide), ⟨⟨not_isBlank_of_mem_identifier library,
    List.all_iff_forall_prop.1 (by decide)⟩, List.all_iff_forall_prop.1 (by decide)⟩,
    not_isBlank_of_mem_identifier f.name⟩

theorem not_isBlank_of_mem_headerText (library : Identifier) :
    ∀ c ∈ f.headerText library, Text.isBlank c = false := by
  simp only [headerText, Text.quoted, List.forall_mem_append]
  exact ⟨⟨fun _ => not_isBlank_of_mem_dashes, ⟨List.all_iff_forall_prop.1 (by decide),
    f.not_isBlank_of_mem_member library⟩, List.all_iff_forall_prop.1 (by decide)⟩,
    fun _ => not_isBlank_of_mem_dashes⟩

theorem isTrimmedLine_header (library : Identifier) : IsTrimmedLine (f.header library) := by
  apply isTrimmedLine_of_forall
  rw [header, List.forall_mem_append]
  exact ⟨List.all_iff_forall_prop.1 (by decide), f.not_isBlank_of_mem_headerText library⟩

theorem isTrimmedLine_closing : IsTrimmedLine f.closing := by
  apply isTrimmedLine_of_forall
  rw [closing, List.forall_mem_append]
  exact ⟨List.all_iff_forall_prop.1 (by decide), fun _ => not_isBlank_of_mem_dashes⟩

theorem newline_notMem_callArgs : '\n' ∉ f.callArgs := by
  intro hmem
  rcases List.mem_append.1 hmem with hmem | hmem
  · rcases List.mem_append.1 hmem with hmem | hmem
    · exact absurd hmem (by decide)
    · rcases Text.mem_join hmem with hmem | ⟨t, ht, hmem⟩
      · exact absurd hmem (by decide)
      · obtain ⟨x, -, rfl⟩ := List.mem_map.1 ht
        exact (isTrimmedLine_identifier x).noBreak hmem
  · exact absurd hmem (by decide)

theorem isTrimmedLine_definition : IsTrimmedLine f.definition := by
  have hargs : '\n' ∉ if f.signals?.isSome then [] else f.callArgs := by
    split
    · exact List.not_mem_nil
    · exact f.newline_notMem_callArgs
  have hend : IsTrimmedLine ";" := ⟨rfl, by decide⟩
  have hmiddle : '\n' ∉ (if f.signals?.isSome then [] else f.callArgs) ++ " = _".toList := by
    rw [List.mem_append, not_or]
    exact ⟨hargs, by decide⟩
  have hsplit : f.definition = f.name.text ++
      (((if f.signals?.isSome then [] else f.callArgs) ++ " = _".toList) ++ ";".toList) := by
    rw [List.append_assoc]
    rfl
  rw [hsplit]
  exact (isTrimmedLine_identifier f.name).append hend (Ident.ne_nil f.name.isIdent) (by decide)
    hmiddle

/-! ## The comments -/

/-- A comment that is trimmed and is no row of dashes or equals signs. -/
structure IsPlainComment (t : Text) : Prop extends IsTrimmedLine t where
  equals : t.head? ≠ some '='
  dash : t.head? ≠ some '-'

theorem isPlainComment_nil : IsPlainComment [] :=
  ⟨⟨rfl, by decide⟩, by decide, by decide⟩

/-- The usage starts with a placeholder or with the name. -/
theorem exists_usage_eq_cons (s : SignalCounts) :
    ∃ c t, f.usage s = c :: t ∧ Ident.isPart c = true := by
  unfold usage lead
  split
  · obtain ⟨c, t, hname, hc, -⟩ := Ident.isIdent_iff.1 f.name.isIdent
    rw [hname]
    exact ⟨c, _, rfl, Ident.isPart_of_isStart hc⟩
  · next hinputs =>
      obtain ⟨t, ht⟩ := exists_signals_eq_cons hinputs
      rw [ht]
      exact ⟨'_', _, rfl, by decide⟩

theorem isTrimmedLine_usage (s : SignalCounts) : IsTrimmedLine (f.usage s) := by
  have houtputs : signals s.outputs ≠ [] := signals_ne_nil (Nat.ne_of_gt s.pos)
  have hargs : '\n' ∉ f.callArgs ++ " : ".toList := by
    rw [List.mem_append, not_or]
    exact ⟨f.newline_notMem_callArgs, by decide⟩
  unfold usage lead
  split
  · exact (isTrimmedLine_identifier f.name).append (isTrimmedLine_signals s.outputs)
      (Ident.ne_nil f.name.isIdent) houtputs hargs
  · next hinputs =>
      have hmiddle : '\n' ∉ " : ".toList ++ f.name.text ++ (f.callArgs ++ " : ".toList) := by
        rw [List.mem_append, List.mem_append, not_or, not_or]
        exact ⟨⟨by decide, (isTrimmedLine_identifier f.name).noBreak⟩, hargs⟩
      have hline := (isTrimmedLine_signals s.inputs).append (isTrimmedLine_signals s.outputs)
        (signals_ne_nil hinputs) houtputs hmiddle
      simpa only [List.append_assoc] using hline

theorem isTrimmedLine_bullet {entry : Text × Text} (hkey : Ident.isIdent entry.1 = true)
    (hmeaning : IsMeaning entry.2) : IsTrimmedLine (bullet entry) := by
  have hstar : IsTrimmedLine "*" := ⟨rfl, by decide⟩
  have hmiddle : '\n' ∉ " `".toList ++ entry.1 ++ "`: ".toList := by
    rw [List.mem_append, List.mem_append, not_or, not_or]
    exact ⟨⟨by decide, (isTrimmedLine_identifier ⟨entry.1, hkey⟩).noBreak⟩, by decide⟩
  have hsplit : bullet entry = "*".toList ++ (" `".toList ++ entry.1 ++ "`: ".toList ++ entry.2) :=
    rfl
  rw [hsplit]
  exact hstar.append ⟨hmeaning.trimmed, hmeaning.noBreak⟩ (by decide) hmeaning.ne_nil hmiddle

theorem isTrimmedLine_commentLine {t : Text} (h : IsTrimmedLine t) :
    IsTrimmedLine (commentLine t) := by
  unfold commentLine
  split
  · exact ⟨rfl, by decide⟩
  · next hne =>
      exact IsTrimmedLine.append (s := "//") (m := " ") ⟨rfl, by decide⟩ h (by decide) hne
        (by decide)

/-- A line behind slashes is what the text there says. -/
theorem classify_slashes {t : Text} (h : Text.trim ("//" ++ t) = "//" ++ t) :
    DocLine.classify ("//" ++ t) = DocLine.ofComment t := by
  unfold DocLine.classify
  dsimp only
  rw [h, if_neg (by simp), Text.after?_append]

/-- A plain comment is read as it is. -/
theorem classify_commentLine {t : Text} (h : IsPlainComment t) :
    DocLine.classify (commentLine t) = .comment t := by
  by_cases ht : t = []
  · subst ht
    rfl
  · have hline : commentLine t = "//" ++ (" " ++ t) := if_neg ht
    have htrim := (isTrimmedLine_commentLine h.toIsTrimmedLine).trimmed
    rw [hline] at htrim ⊢
    have hbody : Text.trim (" " ++ t) = t := Text.trim_blank_cons (by decide) h.trimmed
    have hequals : Text.startsWith "===" t = false := Text.startsWith_of_head? h.equals
    have hdashes : Text.startsWith "---" t = false := Text.startsWith_of_head? h.dash
    rw [classify_slashes htrim]
    simp only [DocLine.ofComment, hbody, hequals, hdashes, Bool.false_eq_true, if_false,
      Text.after?_append, Option.getD_some]

/-! ## The other lines -/

/-- The dashes around a text are left out. -/
theorem trimChars_dashes {t : Text} (hne : t ≠ []) (hstart : Text.EndsAt (· = '-') t)
    (hend : Text.EndsAt (· = '-') t.reverse) (m n : Nat) :
    Text.trimChars (· = '-') (List.replicate m '-' ++ t ++ List.replicate n '-') = t := by
  have hrun : ∀ k, ∀ c ∈ List.replicate k '-', decide (c = '-') = true := by
    intro k c hc
    rw [List.eq_of_mem_replicate hc]
    rfl
  rw [Text.trimChars, List.append_assoc, Text.dropWhile_run (hrun m) (hstart.append hne _),
    List.reverse_append, List.reverse_replicate, Text.dropWhile_run (hrun n) hend,
    List.reverse_reverse]

/-- A comment that starts with dashes is told by what stands between them. -/
theorem ofComment_dashes {n : Nat} {t inner : Text}
    (hbody : Text.trim (dashes n ++ t) = dashes n ++ t)
    (hinner : Text.trim (Text.trimChars (· = '-') (dashes n ++ t)) = inner) :
    DocLine.ofComment (dashes n ++ t) = if inner = [] then .rule else
      match DocLine.functionName? inner with
      | some name => .header name
      | none => .oddHeader inner := by
  have hfirst : (dashes n ++ t).head? = some '-' := rfl
  have hequals : Text.startsWith "===" (dashes n ++ t) = false :=
    Text.startsWith_of_head? (c := '=') (s := "==") (by rw [hfirst]; decide)
  have hdashes : Text.startsWith "---" (dashes n ++ t) = true :=
    Text.startsWith_append "---" (List.replicate n '-' ++ t)
  unfold DocLine.ofComment
  dsimp only
  rw [hbody, hequals, hdashes, hinner]
  rfl

theorem unquoted?_quoted {t : Text} (h : '`' ∉ t) : DocLine.unquoted? (Text.quoted t) = some t := by
  have hopen : Text.breakAt? "`" (Text.quoted t) = some ([], t ++ ['`']) := rfl
  have hclose := Text.breakAt?_append h [] []
  rw [List.append_nil] at hclose
  rw [DocLine.unquoted?, hopen]
  exact congrArg (Option.map Prod.fst) hclose

theorem withoutGroup?_member (library : Identifier) :
    DocLine.withoutGroup? (f.member library) = some f.name.text := by
  have hgroup : ')' ∉ library.text ++ ".".toList := by
    rw [List.mem_append, not_or]
    exact ⟨Ident.notMem_of_not_isPart library.isIdent rfl, by decide⟩
  rw [DocLine.withoutGroup?, member, Text.after?_append]
  exact congrArg (Option.map Prod.snd) (Text.breakAt?_append hgroup [] f.name.text)

theorem afterLast_of_notMem {c : Char} {t : Text} (h : c ∉ t) : Text.afterLast c t = t := by
  have hrun : ∀ d ∈ t.reverse, decide (d ≠ c) = true := by
    intro d hd
    rw [decide_eq_true_eq]
    rintro rfl
    exact h (List.mem_reverse.1 hd)
  rw [Text.afterLast, List.takeWhile_eq_self_iff.2 hrun, List.reverse_reverse]

theorem functionName?_quoted (library : Identifier) :
    DocLine.functionName? (Text.quoted (f.member library)) = some f.name.text := by
  have hquote : '`' ∉ f.member library := by
    have hident : ∀ x : Identifier, '`' ∉ x.text := fun x =>
      Ident.notMem_of_not_isPart x.isIdent rfl
    simp only [member, List.mem_append, not_or]
    exact ⟨by decide, ⟨⟨hident library, by decide⟩, by decide⟩, hident f.name⟩
  simp only [DocLine.functionName?, unquoted?_quoted hquote,
    Text.trim_of_forall (f.not_isBlank_of_mem_member library), f.withoutGroup?_member library,
    afterLast_of_notMem (Ident.dot_notMem f.name.isIdent),
    (isTrimmedLine_identifier f.name).trimmed, f.name.isIdent, Option.bind_eq_bind,
    Option.bind_some, if_true]

theorem classify_header (library : Identifier) :
    DocLine.classify (f.header library) = .header f.name.text := by
  have hbody := Text.trim_of_forall (f.not_isBlank_of_mem_headerText library)
  have hlast : Text.EndsAt (· = '-') (Text.quoted (f.member library)).reverse := by
    rw [Text.quoted, List.reverse_append]
    exact Text.endsAt_cons (by decide) _
  have hquoted : Text.trim (Text.quoted (f.member library)) = Text.quoted (f.member library) := by
    apply Text.trim_of_forall
    simp only [Text.quoted, List.forall_mem_append]
    exact ⟨⟨List.all_iff_forall_prop.1 (by decide), f.not_isBlank_of_mem_member library⟩,
      List.all_iff_forall_prop.1 (by decide)⟩
  have hinner : Text.trim (Text.trimChars (· = '-') (f.headerText library)) =
      Text.quoted (f.member library) := by
    have hquotes := trimChars_dashes (List.cons_ne_nil _ _) (Text.endsAt_cons (by decide) _) hlast
      (f.layout.before + 3) f.layout.behind
    exact (congrArg Text.trim hquotes).trans hquoted
  have hsplit : f.headerText library = dashes f.layout.before ++
      (Text.quoted (f.member library) ++ List.replicate f.layout.behind '-') :=
    List.append_assoc ..
  rw [hsplit] at hbody hinner
  rw [header, classify_slashes (f.isTrimmedLine_header library).trimmed, hsplit,
    ofComment_dashes hbody hinner, f.functionName?_quoted library]
  rfl

theorem classify_closing : DocLine.classify f.closing = .rule := by
  have hbody : Text.trim (dashes f.layout.closing) = dashes f.layout.closing :=
    Text.trim_of_forall fun _ => not_isBlank_of_mem_dashes
  have hinner : Text.trim (Text.trimChars (· = '-') (dashes f.layout.closing)) = [] := by
    rw [Text.trimChars, dashes, List.dropWhile_replicate]
    rfl
  rw [← List.append_nil (dashes _)] at hbody hinner
  rw [closing, classify_slashes f.isTrimmedLine_closing.trimmed, ← List.append_nil (dashes _),
    ofComment_dashes hbody hinner]
  rfl

theorem classify_definition : DocLine.classify f.definition = .code f.definition := by
  obtain ⟨c, t, hname, hc, -⟩ := Ident.isIdent_iff.1 f.name.isIdent
  have hslash : '/' ≠ c := by
    rintro rfl
    cases hc
  have hhead : f.definition = c :: (t ++ ((if f.signals?.isSome then [] else f.callArgs) ++
      " = _;".toList)) := by
    rw [definition, hname]
    rfl
  have hnone : Text.after? "//" f.definition = none := by
    rw [hhead]
    exact if_neg hslash
  unfold DocLine.classify
  dsimp only
  rw [f.isTrimmedLine_definition.trimmed, hnone, if_neg (by rw [hhead]; exact List.cons_ne_nil _ _)]

/-! ## All lines -/

theorem isPlainComment_of_mem_gap {t : Text} (h : t ∈ f.gap) : IsPlainComment t := by
  rw [List.eq_of_mem_replicate h]
  exact isPlainComment_nil

theorem isPlainComment_of_mem_usageComments {t : Text} (h : t ∈ f.usageComments) :
    IsPlainComment t := by
  unfold usageComments at h
  split at h
  · cases h
  · next s _ =>
      have husage : IsPlainComment (f.usage s) := by
        obtain ⟨c, u, hu, hc⟩ := f.exists_usage_eq_cons s
        refine ⟨f.isTrimmedLine_usage s, ?_, ?_⟩ <;> rw [hu, List.head?_cons] <;>
          rintro ⟨rfl⟩ <;> cases hc
      have hfence : IsPlainComment "```" := ⟨⟨rfl, by decide⟩, by decide, by decide⟩
      have hheading : IsPlainComment "#### Usage" := ⟨⟨rfl, by decide⟩, by decide, by decide⟩
      simp only [List.mem_append, List.mem_cons, List.not_mem_nil, or_false] at h
      rcases h with ((h | rfl) | h) | rfl | rfl | rfl
      · exact f.isPlainComment_of_mem_gap h
      · exact hheading
      · exact f.isPlainComment_of_mem_gap h
      · exact hfence
      · exact husage
      · exact hfence

theorem isPlainComment_of_mem_paramComments {t : Text} (h : t ∈ f.paramComments) :
    IsPlainComment t := by
  have hheading : IsPlainComment "Where:" := ⟨⟨rfl, by decide⟩, by decide, by decide⟩
  simp only [paramComments, List.mem_append, List.mem_singleton] at h
  rcases h with (((h | rfl) | h) | h) | h
  · exact f.isPlainComment_of_mem_gap h
  · exact hheading
  · exact f.isPlainComment_of_mem_gap h
  · obtain ⟨entry, hentry, rfl⟩ := List.mem_map.1 h
    have hkey := f.isIdent_of_mem_keys _ (List.mem_map_of_mem hentry)
    have hmeaning := f.isMeaning_of_mem_values _ (List.mem_map_of_mem hentry)
    have hfirst : (bullet entry).head? = some '*' := rfl
    refine ⟨isTrimmedLine_bullet hkey hmeaning, ?_, ?_⟩ <;> rw [hfirst] <;> decide
  · exact f.isPlainComment_of_mem_gap h

theorem isPlainComment_of_mem {t : Text} (h : t ∈ f.usageComments ++ f.paramComments) :
    IsPlainComment t := by
  rcases List.mem_append.1 h with h | h
  · exact f.isPlainComment_of_mem_usageComments h
  · exact f.isPlainComment_of_mem_paramComments h

theorem isTrimmedLine_of_mem_lines (library : Identifier) {l : Text} (h : l ∈ f.lines library) :
    IsTrimmedLine l := by
  rw [lines, List.mem_append] at h
  simp only [List.mem_cons, List.not_mem_nil, or_false] at h
  rcases h with (rfl | h) | rfl | rfl | rfl
  · exact f.isTrimmedLine_header library
  · obtain ⟨t, ht, rfl⟩ := List.mem_map.1 h
    exact isTrimmedLine_commentLine (f.isPlainComment_of_mem ht).toIsTrimmedLine
  · exact f.isTrimmedLine_closing
  · exact f.isTrimmedLine_definition
  · exact ⟨rfl, List.not_mem_nil⟩

/-- What the lines are to the reader. -/
theorem map_classify_lines (library : Identifier) :
    (f.lines library).map DocLine.classify = f.docLines := by
  have hcomments : ((f.usageComments ++ f.paramComments).map commentLine).map DocLine.classify =
      (f.usageComments ++ f.paramComments).map DocLine.comment := by
    rw [List.map_map]
    exact List.map_congr_left fun t ht => classify_commentLine (f.isPlainComment_of_mem ht)
  rw [lines, List.map_append, List.map_cons, hcomments, f.classify_header, docLines, bodyLines]
  simp only [List.map_cons, List.map_nil, f.classify_closing, f.classify_definition]
  rfl

/-- The announcement of the short name of a library. -/
def announcement (library : Identifier) : Text :=
  "prefix: " ++ library.text

theorem isPlainComment_announcement (library : Identifier) :
    IsPlainComment (announcement library) := by
  have hword : IsTrimmedLine "prefix:" := ⟨rfl, by decide⟩
  have hline := hword.append (m := " ") (isTrimmedLine_identifier library) (by decide)
    (Ident.ne_nil library.isIdent) (by decide)
  have hfirst : (announcement library).head? = some 'p' := rfl
  refine ⟨hline, ?_, ?_⟩ <;> rw [hfirst] <;> decide

end WrittenFunction

open WrittenFunction

/-- The lines of a library with a short name and some functions. -/
def libraryLines (library : Identifier) (fs : List WrittenFunction) : List Text :=
  commentLine (announcement library) :: fs.flatMap fun f => f.lines library

/-- The lines of a library are those of its text. -/
theorem lines_unlines_libraryLines (library : Identifier) (fs : List WrittenFunction) :
    Text.lines (Text.unlines (libraryLines library fs)) = libraryLines library fs := by
  have htrimmed : ∀ l ∈ libraryLines library fs, IsTrimmedLine l := by
    refine List.forall_mem_cons.2 ⟨?_, fun l hl => ?_⟩
    · exact isTrimmedLine_commentLine (isPlainComment_announcement library).toIsTrimmedLine
    · obtain ⟨f, -, hl⟩ := List.mem_flatMap.1 hl
      exact f.isTrimmedLine_of_mem_lines library hl
  exact Text.lines_unlines fun l hl =>
    ⟨(htrimmed l hl).noBreak, Text.getLast?_ne_of_trim (htrimmed l hl).trimmed (by decide)⟩

example :
    Text.lines (Text.unlines (libraryLines ⟨"fi", rfl⟩ [{
      layout := ⟨1, 2, 1, 1⟩
      name := ⟨"mix", rfl⟩
      name_ne := by decide
      args := [⟨"a", rfl⟩, ⟨"b", rfl⟩]
      signals? := some ⟨2, 1, by decide⟩
      paramDocs := ⟨[("a".toList, "the share of the first signal".toList)], by decide⟩
      isIdent_of_mem_keys := by decide
      isMeaning_of_mem_values :=
        List.forall_mem_singleton.2 ⟨by decide, by decide, by decide⟩ }])) =
      ["// prefix: fi", "//----`(fi.)mix`--", "//", "// #### Usage", "//", "// ```",
        "// _,_ : mix(a,b) : _", "// ```", "//", "// Where:", "//",
        "// * `a`: the share of the first signal", "//", "//----", "mix = _;", ""].map
          String.toList := by
  decide

/-- What the lines of a library are to the reader. -/
theorem map_classify_libraryLines (library : Identifier) (fs : List WrittenFunction) :
    (libraryLines library fs).map DocLine.classify =
      .comment (announcement library) :: fs.flatMap docLines := by
  rw [libraryLines, List.map_cons, classify_commentLine (isPlainComment_announcement library),
    List.map_flatMap]
  congr 1
  exact List.flatMap_congr fun f _ => f.map_classify_lines library

end DspCheck
