import DspCheck.Check.Validation
import DspCheck.Proofs.Check.CallFault
import DspCheck.Proofs.Source.ExpressionCalls
import DspCheck.Proofs.Source.Program
import DspCheck.Proofs.Source.Statement

/-!
# Checking definitions

A program that consists of definitions gets exactly one diagnostic for each call with a fault, in
the order of the calls, and no other diagnostic from the check of bindings and calls
(`check_definitions`).  What the diagnostic says is told by the call itself (`CallSite.IsReported`).
-/

namespace DspCheck

/-- A definition `name = value;` on a line of its own. -/
structure DefinitionLine where
  name : Identifier
  value : Expression

namespace DefinitionLine

/-- The text of the line. -/
def text (d : DefinitionLine) : Text :=
  d.name.text ++ " = " ++ d.value.text ++ ";"

/-- The masked form of the line. -/
def code (d : DefinitionLine) : Text :=
  d.name.text ++ " = " ++ d.value.code ++ ";"

/-- The calls on consecutive lines behind a text. -/
def sites (before : Text) : List DefinitionLine → List CallSite
  | [] => []
  | d :: ds =>
      d.value.sites (before ++ (d.name.text ++ " = ")) ++ sites (before ++ d.text ++ ['\n']) ds

/-- A line that binds no string and does not use its name as a library. -/
structure IsPlain (d : DefinitionLine) : Prop where
  value : ∀ content, d.value ≠ .literal content
  name : d.name.text ∉ d.value.libraries

variable (d : DefinitionLine)

theorem newline_notMem_text : '\n' ∉ d.text := by
  have hname : '\n' ∉ d.name.text := Ident.notMem_of_not_isPart d.name.isIdent rfl
  have hvalue := d.value.newline_notMem_text
  simp [text, hname, hvalue]

theorem dropReturn_text : Text.dropReturn d.text = d.text := by
  apply Text.dropReturn_of_getLast?
  have hlast : d.text.getLast? = some ';' := List.getLast?_concat
  rw [hlast]
  decide

theorem masksAs_code : Text.MasksAs d.text d.code := by
  have hequals : Text.MasksAs " = " " = " :=
    Text.masksAs_self (List.all_iff_forall_prop.1 (by decide))
  have hend : Text.MasksAs ";" ";" := Text.masksAs_self (List.all_iff_forall_prop.1 (by decide))
  have hname := Expression.masksAs_run (Expression.isRunChar_of_mem_identifier d.name)
  exact ((hname.append hequals).append d.value.masksAs_code).append hend

theorem mask_text : Text.mask .code d.text = d.code := by
  have hmask := (d.masksAs_code []).1
  rwa [List.append_nil, Text.mask, List.append_nil] at hmask

theorem after_text : Mode.code.after d.text = .code := by
  have hafter := (d.masksAs_code []).2
  rwa [List.append_nil] at hafter

/-! ## Its binding -/

/-- The line is one statement. -/
theorem piecesFrom_code (depth : Nat) : ∃ start,
    Statement.piecesFrom 0 depth 0 d.code =
      [⟨0, depth, d.name.text ++ " = " ++ d.value.code⟩, ⟨start, depth, []⟩] := by
  have hends : ∀ c ∈ d.name.text ++ " = " ++ d.value.code, Statement.isEnd c = false := by
    rw [List.forall_mem_append, List.forall_mem_append]
    refine ⟨⟨fun c hc => ?_, List.all_iff_forall_prop.1 (by decide)⟩, d.value.isEnd_of_mem_code⟩
    exact (Expression.inert_of_isRunChar
      (Expression.isRunChar_of_mem_identifier d.name c hc)).2.1
  have hparens : (d.name.text ++ " = " ++ d.value.code).foldl parensAfter 0 = 0 := by
    rw [List.foldl_append, List.foldl_append,
      Expression.foldl_parensAfter_run (Expression.isRunChar_of_mem_identifier d.name)]
    exact d.value.foldl_parensAfter_code 0
  exact ⟨_, Statement.piecesFrom_append hends hparens 0 depth []⟩

/-- The line has one binding, of its name to its value. -/
theorem exists_bindings_eq {l : Line} (hcode : l.code = d.code) :
    ∃ b, l.bindings = [b] ∧ b.name = d.name.text ∧ b.value = d.value.code ∧
      b.depth = l.depth := by
  obtain ⟨c, t, hhead, hc⟩ := d.value.exists_head Text.spaces
  have hvalue : Text.EndsAt Text.isBlank d.value.code := by
    rw [Expression.code, hhead]
    exact Text.endsAt_cons hc t
  obtain ⟨b, hb, hname, hvalue⟩ :=
    Statement.exists_binding?_eq_some d.name.isIdent hvalue 0 l.depth
  obtain ⟨start, hpieces⟩ := d.piecesFrom_code l.depth
  have hblank : Text.isAllBlank (d.name.text ++ " = " ++ d.value.code) = false := by
    rw [Text.isAllBlank, List.all_eq_false]
    exact ⟨c, by simp [Expression.code, hhead], by simp [hc]⟩
  refine ⟨b, ?_, hname, hvalue, Statement.depth_of_binding? hb⟩
  rw [Line.bindings, Line.statements, hcode, hpieces,
    List.filter_cons_of_pos (by rw [hblank]; rfl),
    List.filter_cons_of_neg (by simp [Text.isAllBlank]), List.filter_nil,
    List.filterMap_cons_some hb, List.filterMap_nil]

/-- Nothing is wrong with the binding of a plain line. -/
theorem bindings_inert {d : DefinitionLine} (hd : d.IsPlain) {l : Line} (hcode : l.code = d.code) :
    l.bindingRemarks = [] ∧ l.recursiveNames = [] := by
  obtain ⟨b, hb, hname, hvalue, -⟩ := d.exists_bindings_eq hcode
  have hrecursive : b.isRecursive = false := by
    unfold Binding.isRecursive
    split
    · next rest hafter =>
        rw [hname, hvalue] at hafter
        have heq := Text.after?_eq_some_iff.1 hafter
        exact absurd (Expression.mem_libraries_of_code_eq d.name.isIdent heq) hd.name
    · rfl
  have hliteral : b.literal? = none := by
    unfold Binding.literal?
    split
    · next rest hquote =>
        rw [hvalue] at hquote
        obtain ⟨content, heq⟩ := Expression.eq_literal_of_code_eq hquote
        exact absurd heq (hd.value content)
    · rfl
  constructor
  · rw [Line.bindingRemarks, hb]
    simp [Binding.remarks, Binding.recursion?, Binding.stringValue?, hrecursive, hliteral]
  · rw [Line.recursiveNames, hb]
    simp [hrecursive]

/-! ## Its calls -/

/-- The scanner finds exactly the calls on the line. -/
theorem exists_references (before : Text) :
    ∃ refs, Reference.scan d.code = .ok refs ∧
      List.Forall₂ (CallSite.IsRead (Text.byteSize before))
        (d.value.sites (before ++ (d.name.text ++ " = "))) (refs.filter Reference.isCall) := by
  have hname : Expression.Reads (Text.byteSize before) 0 d.name.text
      ((" = " : Text) ++ (d.value.code ++ (";" : Text)) ++ []) [] :=
    Expression.reads_run (Ident.ne_nil d.name.isIdent)
      (Expression.isRunChar_of_mem_identifier d.name)
      (Reference.partsOf?_of_notMem (Ident.dot_notMem d.name.isIdent))
      (Expression.ends_blank (by decide) (by decide) _)
  have hequals : ∀ u, Expression.Reads (Text.byteSize before)
      (0 + Text.byteSize d.name.text) " = " u [] :=
    fun _ => Expression.reads_glue (List.all_iff_forall_prop.1 (by decide))
  have hposition : Text.byteSize before + (0 + Text.byteSize d.name.text + Text.byteSize " = ") =
      Text.byteSize (before ++ (d.name.text ++ " = ")) := by
    rw [Text.byteSize_append, Text.byteSize_append, Nat.zero_add]
  have hvalue := Expression.reads_code (Text.byteSize before) d.value _ _ ((";" : Text) ++ [])
    hposition (Expression.ends_cons (by decide) (by decide) (by decide) _)
  have hend : ∀ position, Expression.Reads (Text.byteSize before) position ";" [] [] :=
    fun _ => Expression.reads_glue (List.all_iff_forall_prop.1 (by decide))
  obtain ⟨refs, hscan, hcalls⟩ := hname.append ((hequals _).append (hvalue.append (hend _)))
  refine ⟨refs, ?_, ?_⟩
  · have hcode : d.code =
        d.name.text ++ ((" = " : Text) ++ (d.value.code ++ (";" : Text))) ++ [] := by
      simp [code]
    rw [Reference.scan, hcode, hscan]
    exact congrArg Except.ok (List.append_nil refs)
  · simpa using hcalls

/-- A line of a program that the definition has been read as, behind a text. -/
structure IsReadAs (d : DefinitionLine) (before : Text) (l : ProgramLine) : Prop where
  text : l.text = d.text
  code : l.code = d.code
  offset : l.offset = Text.byteSize before
  number : l.number = Text.lineBehind before
  start : Text.lastLine before = []
  calls : List.Forall₂ (CallSite.IsRead (Text.byteSize before))
    (d.value.sites (before ++ (d.name.text ++ " = "))) l.calls

theorem IsReadAs.stands {d : DefinitionLine} {before : Text} {l : ProgramLine}
    (h : d.IsReadAs before l) : l.toLine.Stands (before ++ l.text ++ []) before [] where
  split := rfl
  offset := h.offset
  number := h.number
  start := h.start
  noBreak := h.text ▸ d.newline_notMem_text
  masked := ⟨.code, by rw [h.code, h.text, d.mask_text]⟩

theorem filterMap_eq_of_forall₂ {α β γ : Type} {R : α → β → Prop} {f : α → Option γ}
    {g : β → Option γ} {as : List α} {bs : List β} (h : List.Forall₂ R as bs)
    (hfg : ∀ a ∈ as, ∀ b, R a b → f a = g b) : as.filterMap f = bs.filterMap g := by
  induction h with
  | nil =>
      rfl
  | cons hab _ ih =>
      rw [List.forall_mem_cons] at hfg
      rw [List.filterMap_cons, List.filterMap_cons, hfg.1 _ hab, ih hfg.2]

/-- The check says of the line what is wrong with its calls. -/
theorem IsReadAs.check_eq {d : DefinitionLine} {before : Text} {l : ProgramLine}
    (h : d.IsReadAs before l) (hd : d.IsPlain) (c : Catalog) (rules : Rules) {locals : List Text}
    (hlocal : ∀ x ∈ d.value.libraries, x ∉ locals) :
    l.check c rules locals =
      (d.value.sites (before ++ (d.name.text ++ " = "))).filterMap
        (CallSite.diagnostic? c rules) := by
  obtain ⟨hremarks, hrecursive⟩ := bindings_inert hd h.code
  rw [ProgramLine.check, hremarks, List.nil_append, ProgramLine.callRemarks, hrecursive,
    List.map_filterMap, List.filterMap_filter]
  symm
  apply filterMap_eq_of_forall₂ h.calls
  intro s hs r hr
  have hmem : r.library ∉ locals := by
    rw [hr.library]
    exact hlocal _ (Expression.mem_libraries_of_mem_sites hs)
  have hin : s.StandsIn before l.text := by
    rw [h.text]
    exact (Expression.standsIn_of_mem_sites hs).widen ";"
  rw [if_pos (by simpa using hmem)]
  exact (CallSite.map_remark?_eq_diagnostic? c rules h.stands hr hin List.not_mem_nil).symm

/-- The lines of a program that consists of definitions, with or without an empty line behind them,
from a given place on. -/
theorem exists_program (c : Catalog) (rules : Rules) {ds : List DefinitionLine}
    (hplain : ∀ d ∈ ds, d.IsPlain) {tail : List Text} (htail : tail = [] ∨ tail = [[]])
    (depth : Nat) {before : Text} (hstart : Text.lastLine before = []) :
    ∃ p : Program,
      (Line.linesFrom (Text.lineBehind before) (Text.byteSize before) depth .code
        (ds.map text ++ tail)).mapM ProgramLine.ofLine = .ok p ∧
      (∀ b ∈ p.bindings, b.name ∈ ds.map fun d => d.name.text) ∧
      ∀ locals : List Text, (∀ d ∈ ds, ∀ x ∈ d.value.libraries, x ∉ locals) →
        p.flatMap (ProgramLine.check c rules locals) =
          (sites before ds).filterMap (CallSite.diagnostic? c rules) := by
  induction ds generalizing depth before with
  | nil =>
      rcases htail with rfl | rfl
      · exact ⟨[], rfl, fun b hb => absurd hb List.not_mem_nil, fun _ _ => rfl⟩
      · exact ⟨[⟨⟨Text.lineBehind before, Text.byteSize before, depth, [], []⟩, []⟩], rfl,
          fun b hb => absurd hb List.not_mem_nil, fun _ _ => rfl⟩
  | cons d ds ih =>
      rw [List.forall_mem_cons] at hplain
      obtain ⟨refs, hscan, hcalls⟩ := d.exists_references before
      obtain ⟨p, hp, hbindings, hchecks⟩ := ih hplain.2 (d.code.foldl depthAfter depth)
        (Text.lastLine_append_newline (before ++ d.text))
      have hsize : Text.byteSize (before ++ d.text ++ ['\n']) =
          Text.byteSize before + Text.byteSize d.text + 1 := by
        rw [Text.byteSize_append, Text.byteSize_append]
        rfl
      rw [Text.lineBehind_newline d.newline_notMem_text, hsize] at hp
      have hread : d.IsReadAs before
          ⟨⟨Text.lineBehind before, Text.byteSize before, depth, d.text, d.code⟩, refs⟩ :=
        ⟨rfl, rfl, rfl, rfl, hstart, hcalls⟩
      refine ⟨⟨⟨Text.lineBehind before, Text.byteSize before, depth, d.text, d.code⟩, refs⟩ :: p,
        ?_, ?_, ?_⟩
      · rw [List.map_cons, List.cons_append, Line.linesFrom, d.dropReturn_text, d.mask_text,
          d.after_text]
        refine mapM_cons_of_ok ?_ hp
        rw [ProgramLine.ofLine, hscan]
        rfl
      · intro b hb
        rw [List.map_cons]
        rcases List.mem_append.1 hb with hb | hb
        · obtain ⟨b', hb', hname, -⟩ := d.exists_bindings_eq hread.code
          have hmem : b ∈ [b'] := hb' ▸ hb
          rw [List.mem_singleton.1 hmem, hname]
          exact List.mem_cons_self
        · exact List.mem_cons_of_mem _ (hbindings b hb)
      · intro locals hlocal
        rw [List.forall_mem_cons] at hlocal
        rw [List.flatMap_cons, sites, List.filterMap_append, hchecks locals hlocal.2,
          hread.check_eq hplain.1 c rules hlocal.1]

/-! ## Where the calls stand -/

theorem standsIn_of_mem_sites {s : CallSite} {ds : List DefinitionLine} {before : Text}
    (h : s ∈ sites before ds) : s.StandsIn before (Text.join "\n" (ds.map text)) := by
  induction ds generalizing before with
  | nil =>
      cases h
  | cons d ds ih =>
      rw [sites] at h
      rcases List.mem_append.1 h with h | h
      · have hline : s.StandsIn before d.text := (Expression.standsIn_of_mem_sites h).widen ";"
        have hwide := CallSite.StandsIn.widen (u := []) (by rwa [List.append_nil])
          ((ds.map text).flatMap (("\n" : Text) ++ ·))
        rwa [List.nil_append, ← Text.join_cons] at hwide
      · cases ds with
        | nil =>
            cases h
        | cons d' ds =>
            rw [List.append_assoc] at h
            have hwide := (ih h).widen []
            rwa [List.append_nil] at hwide

theorem pairwise_sites (ds : List DefinitionLine) (before : Text) :
    (sites before ds).Pairwise CallSite.Precedes := by
  induction ds generalizing before with
  | nil =>
      exact List.Pairwise.nil
  | cons d ds ih =>
      refine List.pairwise_append.2 ⟨d.value.pairwise_sites _, ih _, ?_⟩
      intro s hs t ht
      have hleft := (Expression.standsIn_of_mem_sites hs).bounds
      have hright := (standsIn_of_mem_sites ht).bounds
      simp only [text, Text.byteSize_append] at hleft hright
      unfold CallSite.Precedes
      omega

/-- The check of a program that is made of definitions says of each call what is wrong with it, in
the order in which the calls start, and nothing else.  What it says of a call is what the fault of
the call accounts for, word by word. -/
theorem check_definitions (c : Catalog) (rules : Rules) {ds : List DefinitionLine}
    (hvalue : ∀ d ∈ ds, ∀ content, d.value ≠ .literal content)
    (hlocal : ∀ d ∈ ds, ∀ x ∈ d.value.libraries, x ∉ ds.map fun d => d.name.text) :
    check c rules (Text.join "\n" (ds.map text)) =
      .ok ((sites [] ds).filterMap (CallSite.diagnostic? c rules)) ∧
    check c rules (Text.unlines (ds.map text)) =
      .ok ((sites [] ds).filterMap (CallSite.diagnostic? c rules)) ∧
    (sites [] ds).Pairwise CallSite.Precedes ∧
    (∀ s ∈ sites [] ds, s.StandsIn [] (Text.join "\n" (ds.map text))) ∧
    ∀ s ∈ sites [] ds, ∀ d, s.diagnostic? c rules = some d ↔ s.IsReported c rules d := by
  have hplain : ∀ d ∈ ds, d.IsPlain := fun d hd =>
    ⟨hvalue d hd, fun hmem => hlocal d hd _ hmem (List.mem_map_of_mem hd)⟩
  have hbreak : ∀ t ∈ ds.map text, '\n' ∉ t :=
    List.forall_mem_map.2 fun d _ => d.newline_notMem_text
  have hcheck : ∀ tail source, (tail = [] ∨ tail = [[]]) →
      Text.rawLines source = ds.map text ++ tail →
      check c rules source = .ok ((sites [] ds).filterMap (CallSite.diagnostic? c rules)) := by
    intro tail source htail hraw
    obtain ⟨p, hp, hbindings, hchecks⟩ :=
      exists_program c rules hplain htail 0 Text.lastLine_nil
    have hsource : Program.ofSource source = .ok p := by
      rw [Program.ofSource, Line.ofSource, hraw]
      exact hp
    rw [check, hsource]
    refine congrArg Except.ok (hchecks _ fun d hd x hx hmem => ?_)
    obtain ⟨b, hb, rfl⟩ := List.mem_map.1 hmem
    exact hlocal d hd _ hx (hbindings b (List.mem_filter.1 hb).1)
  refine ⟨?_, ?_, pairwise_sites ds [], fun s hs => standsIn_of_mem_sites hs,
    fun s _ => s.diagnostic?_eq_some_iff c rules⟩
  · cases ds with
    | nil =>
        exact hcheck [[]] _ (Or.inr rfl) rfl
    | cons d ds =>
        refine hcheck [] _ (Or.inl rfl) ?_
        rw [Text.rawLines_join (by simp) hbreak, List.append_nil]
  · refine hcheck [[]] _ (Or.inr rfl) ?_
    rw [Text.unlines_eq_join, Text.rawLines_join (by simp)]
    rw [List.forall_mem_append, List.forall_mem_singleton]
    exact ⟨hbreak, List.not_mem_nil⟩

/-- The catalog of one function, `fi.lowpass(N, fc)`. -/
def filterCatalog : Catalog :=
  Catalog.ofParts [] (OrderedMap.ofList [("fi.lib", ⟨"fi.lib", "fi", 1⟩)])
    (OrderedMap.ofList [("fi.lowpass", Signature.ofShape "fi" "lowpass" ["N", "fc"] 1 1)])

/-- The line `y = fi.lowpass("é, (//", fi.lowpass(1), xy.z((2.5 / n)));`. -/
def nestedCalls : DefinitionLine :=
  ⟨⟨"y", by decide⟩, .call ⟨"fi", by decide⟩ ⟨"lowpass", by decide⟩
    [.literal ⟨"é, (//", List.all_iff_forall_prop.1 (by decide)⟩,
      .call ⟨"fi", by decide⟩ ⟨"lowpass", by decide⟩
        [.whole ⟨"1", by decide, List.all_eq_true.1 (by decide)⟩],
      .call ⟨"xy", by decide⟩ ⟨"z", by decide⟩
        [.operation (.decimal ⟨"2", by decide, List.all_eq_true.1 (by decide)⟩
          ⟨"5", by decide, List.all_eq_true.1 (by decide)⟩) .div (.var ⟨"n", by decide⟩)]]⟩

/-- The theorem at faulty calls in the arguments of a faulty call, behind a string that looks like
code. -/
theorem check_definitions_nested :
    (∀ d ∈ [nestedCalls], ∀ content, d.value ≠ .literal content) ∧
    (∀ d ∈ [nestedCalls], ∀ x ∈ d.value.libraries,
      x ∉ [nestedCalls].map fun d => d.name.text) ∧
    check filterCatalog Rules.standard (Text.unlines ([nestedCalls].map text)) =
      .ok ((sites [] [nestedCalls]).filterMap
        (CallSite.diagnostic? filterCatalog Rules.standard)) ∧
    ((sites [] [nestedCalls]).filterMap
      (CallSite.diagnostic? filterCatalog Rules.standard)).map
        (fun d => (d.column, d.message)) =
      [(5, "`fi.lowpass` expects 2 argument(s) (N, fc) but got 3".toList),
        (26, "`fi.lowpass` expects 2 argument(s) (N, fc) but got 1".toList),
        (41, "unknown library prefix `xy`".toList)] := by
  have hvalue : ∀ d ∈ [nestedCalls], ∀ content, d.value ≠ .literal content := by
    rw [List.forall_mem_singleton]
    rintro content ⟨⟩
  have hlocal : ∀ d ∈ [nestedCalls], ∀ x ∈ d.value.libraries,
      x ∉ [nestedCalls].map fun d => d.name.text := by
    rw [List.forall_mem_singleton]
    decide +kernel
  exact ⟨hvalue, hlocal, (check_definitions filterCatalog Rules.standard hvalue hlocal).2.1,
    by decide +kernel⟩

end DefinitionLine
end DspCheck
