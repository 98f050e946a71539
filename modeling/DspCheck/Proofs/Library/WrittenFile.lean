import DspCheck.Proofs.Library.WrittenUsage

/-!
# A written library is read back

Under each heading the reader gathers what has been written there, and an empty comment says nothing
(`DocDraft.read_nil`).  So the documentation of a written function is read back
(`block?_section`), and each function has a section of its own (`forall₂_cut`).

So a library in the documented form is read as the functions that have been written, in their order
and without warnings (`read_unlines_libraryLines`).
-/

namespace DspCheck
namespace DocDraft

/-- The documentation with some more comments. -/
def readTexts (d : DocDraft) (ts : List Text) : DocDraft :=
  ts.foldl (fun d t => d.read t) d

theorem readTexts_append (d : DocDraft) (ts us : List Text) :
    d.readTexts (ts ++ us) = (d.readTexts ts).readTexts us :=
  List.foldl_append

theorem readAll_map_comment (ts : List Text) (d : DocDraft) (rest : List DocLine) :
    d.readAll (ts.map .comment ++ rest) = (d.readTexts ts).readAll rest := by
  induction ts generalizing d with
  | nil =>
      rfl
  | cons t ts ih =>
      exact ih (d.read t)

/-- An empty comment says nothing, except in a sample. -/
theorem read_nil {d : DocDraft} (h : d.topic ≠ .sample) : d.read [] = d := by
  obtain ⟨topic, fenced, described, description, usage, paramDocs, sample⟩ := d
  cases topic with
  | description =>
      cases fenced <;> cases described <;> rfl
  | usage =>
      cases fenced <;> rfl
  | parameters =>
      cases fenced <;> rfl
  | sample =>
      exact absurd rfl h

/-- A line that starts with a star announces nothing. -/
theorem announced?_star (t : Text) : announced? ('*' :: t) = none := rfl

end DocDraft

namespace WrittenFunction

variable (f : WrittenFunction)

/-- The lines of usage. -/
def usageLines : List Text :=
  (f.signals?.map f.usage).toList

theorem readTexts_gap {d : DocDraft} (h : d.topic ≠ .sample) : d.readTexts f.gap = d := by
  rw [gap]
  induction f.layout.gap with
  | zero =>
      rfl
  | succ n ih =>
      rw [List.replicate_succ, DocDraft.readTexts, List.foldl_cons, DocDraft.read_nil h]
      exact ih

/-- The usage is gathered between its fences. -/
theorem read_usage (s : SignalCounts) {described : Bool} {description usage sample : List Text}
    {paramDocs : OrderedMap Text Text} :
    DocDraft.read (f.usage s) ⟨.usage, true, described, description, usage, paramDocs, sample⟩ =
      ⟨.usage, true, described, description, usage ++ [f.usage s], paramDocs, sample⟩ := by
  obtain ⟨c, t, hu, hc⟩ := f.exists_usage_eq_cons s
  have hfence : Text.startsWith "```" (f.usage s) = false := by
    apply Text.startsWith_of_head? (c := '`') (s := "``")
    rw [hu, List.head?_cons]
    rintro ⟨rfl⟩
    cases hc
  have hne : f.usage s ≠ [] := by
    rw [hu]
    exact List.cons_ne_nil c t
  unfold DocDraft.read DocDraft.readUnderTopic
  simp only [(f.isTrimmedLine_usage s).trimmed, hfence, hne, if_true, if_false,
    Bool.false_eq_true]

/-- Behind the comments of the usage, its lines have been gathered. -/
theorem exists_readTexts_usageComments : ∃ topic described, topic ≠ .sample ∧
    DocDraft.start.readTexts f.usageComments =
      ⟨topic, false, described, [], f.usageLines, OrderedMap.empty, []⟩ := by
  unfold usageComments usageLines
  cases f.signals? with
  | none =>
      exact ⟨.description, false, by decide, rfl⟩
  | some s =>
      refine ⟨.usage, true, by decide, ?_⟩
      have hheading : DocDraft.start.readTexts ["#### Usage".toList] =
          ⟨.usage, false, true, [], [], OrderedMap.empty, []⟩ := rfl
      have hopen : DocDraft.read "```" ⟨.usage, false, true, [], [], OrderedMap.empty, []⟩ =
          ⟨.usage, true, true, [], [], OrderedMap.empty, []⟩ := rfl
      rw [DocDraft.readTexts_append, DocDraft.readTexts_append, DocDraft.readTexts_append,
        f.readTexts_gap (d := .start) (by decide), hheading, f.readTexts_gap (by decide)]
      show ((DocDraft.read "```" _).read (f.usage s)).read "```" = _
      rw [hopen, f.read_usage]
      rfl

/-! ## The parameters -/

theorem bullet?_bullet {entry : Text × Text} (hkey : Ident.isIdent entry.1 = true)
    (hmeaning : IsMeaning entry.2) : DocDraft.bullet? (bullet entry) = some entry := by
  have hquote : '`' ∉ entry.1 := Ident.notMem_of_not_isPart hkey rfl
  have hparts : DocDraft.bulletParts? ("`" ++ (entry.1 ++ ['`'] ++ (": " ++ entry.2))) =
      some (entry.1, ": " ++ entry.2) := by
    rw [DocDraft.bulletParts?, Text.after?_append]
    exact Text.breakAt?_append hquote [] _
  have hkeyTrim := (isTrimmedLine_identifier ⟨entry.1, hkey⟩).trimmed
  have hdoc : Text.trim ((Text.trimStart (": " ++ entry.2)).dropWhile (· = ':')) = entry.2 :=
    Text.trim_blank_cons (by decide) hmeaning.trimmed
  have hrest : (Text.after? "*" (bullet entry)).or (Text.after? "-" (bullet entry)) =
      some (" `" ++ entry.1 ++ "`: " ++ entry.2) := rfl
  have hsplit : Text.trimStart (" `" ++ entry.1 ++ "`: " ++ entry.2) =
      "`" ++ (entry.1 ++ ['`'] ++ (": " ++ entry.2)) := by
    have hassoc : " `" ++ entry.1 ++ "`: " ++ entry.2 =
        " `" ++ (entry.1 ++ ['`'] ++ (": " ++ entry.2)) := by simp
    rw [hassoc]
    rfl
  rw [DocDraft.bullet?, hrest]
  simp only [Option.bind_eq_bind, Option.bind_some, hsplit, hparts, hkeyTrim, hdoc,
    Ident.ne_nil hkey, if_false]

theorem read_bullet {entry : Text × Text} (hkey : Ident.isIdent entry.1 = true)
    (hmeaning : IsMeaning entry.2) {described : Bool} {description usage sample : List Text}
    {paramDocs : OrderedMap Text Text} :
    DocDraft.read (bullet entry)
        ⟨.parameters, false, described, description, usage, paramDocs, sample⟩ =
      ⟨.parameters, false, described, description, usage, paramDocs.insert entry.1 entry.2,
        sample⟩ := by
  have hfirst : (bullet entry).head? = some '*' := rfl
  have hfence : Text.startsWith "```" (bullet entry) = false :=
    Text.startsWith_of_head? (c := '`') (s := "``") (by rw [hfirst]; decide)
  have hannounced : DocDraft.announced? (bullet entry) = none := DocDraft.announced?_star _
  unfold DocDraft.read DocDraft.readUnderTopic DocDraft.readParameter
  simp only [(isTrimmedLine_bullet hkey hmeaning).trimmed, hfence, hannounced,
    bullet?_bullet hkey hmeaning, if_false, Bool.false_eq_true]

theorem readTexts_bullets {entries : List (Text × Text)}
    (hentries : ∀ e ∈ entries, Ident.isIdent e.1 = true ∧ IsMeaning e.2) {described : Bool}
    {description usage sample : List Text} (paramDocs : OrderedMap Text Text) :
    DocDraft.readTexts ⟨.parameters, false, described, description, usage, paramDocs, sample⟩
        (entries.map bullet) =
      ⟨.parameters, false, described, description, usage,
        entries.foldl (fun m e => m.insert e.1 e.2) paramDocs, sample⟩ := by
  induction entries generalizing paramDocs with
  | nil =>
      rfl
  | cons e entries ih =>
      rw [List.forall_mem_cons] at hentries
      rw [List.map_cons, DocDraft.readTexts, List.foldl_cons,
        read_bullet hentries.1.1 hentries.1.2]
      exact ih hentries.2 _

/-- All comments of the block are gathered where they belong. -/
theorem readTexts_comments :
    DocDraft.start.readTexts (f.usageComments ++ f.paramComments) =
      ⟨.parameters, false, true, [], f.usageLines, f.paramDocs, []⟩ := by
  obtain ⟨topic, described, htopic, husage⟩ := f.exists_readTexts_usageComments
  have hheading : DocDraft.readTexts
      ⟨topic, false, described, [], f.usageLines, OrderedMap.empty, []⟩ ["Where:".toList] =
        ⟨.parameters, false, true, [], f.usageLines, OrderedMap.empty, []⟩ := rfl
  have hentries : ∀ e ∈ f.paramDocs.entries, Ident.isIdent e.1 = true ∧ IsMeaning e.2 :=
    fun e he => ⟨f.isIdent_of_mem_keys _ (List.mem_map_of_mem he),
      f.isMeaning_of_mem_values _ (List.mem_map_of_mem he)⟩
  have hentriesAll : f.paramDocs.entries.foldl (fun m e => m.insert e.1 e.2) OrderedMap.empty =
      f.paramDocs := OrderedMap.ofList_entries f.paramDocs
  have hgap : ∀ paramDocs, DocDraft.readTexts
      ⟨.parameters, false, true, [], f.usageLines, paramDocs, []⟩ f.gap =
        ⟨.parameters, false, true, [], f.usageLines, paramDocs, []⟩ :=
    fun _ => f.readTexts_gap (show Topic.parameters ≠ .sample by decide)
  have hfirst : DocDraft.readTexts
      ⟨topic, false, described, [], f.usageLines, OrderedMap.empty, []⟩ f.gap = _ :=
    f.readTexts_gap htopic
  rw [DocDraft.readTexts_append, husage, paramComments, DocDraft.readTexts_append,
    DocDraft.readTexts_append, DocDraft.readTexts_append, DocDraft.readTexts_append, hfirst,
    hheading, hgap, readTexts_bullets hentries, hentriesAll, hgap]

/-! ## The block -/

/-- What the block of the function is read as. -/
def block (line : Nat) : DocBlock :=
  ⟨f.name.text, line, [], f.usageLines, f.paramDocs, [], some f.definition⟩

/-- The section of a written function is read as its block. -/
theorem block?_section (line : Nat) :
    DocSection.block? ⟨line, .header f.name.text, f.bodyLines⟩ = some (f.block line) := by
  have hdraft : DocDraft.start.readAll f.bodyLines =
      ⟨.parameters, false, true, [], f.usageLines, f.paramDocs, []⟩ := by
    rw [bodyLines, DocDraft.readAll_map_comment, f.readTexts_comments]
    rfl
  have hcode : f.bodyLines.findSome? DocLine.code? = some f.definition := by
    have hcomments : ((f.usageComments ++ f.paramComments).map DocLine.comment).findSome?
        DocLine.code? = none := by
      rw [List.findSome?_map]
      exact List.findSome?_eq_none_iff.2 fun _ _ => rfl
    rw [bodyLines, List.findSome?_append, hcomments]
    rfl
  rw [DocSection.block?]
  dsimp only
  rw [hdraft, hcode, Option.filter_some, if_pos f.defines_definition]
  rfl

/-- The usage, or else the definition, shows what has been written. -/
theorem shape?_block (line : Nat) :
    (f.block line).shape? = some ⟨f.args.map Identifier.text,
      (f.signals?.map SignalCounts.inputs).getD 0,
      (f.signals?.map SignalCounts.outputs).getD 1⟩ := by
  cases hsignals : f.signals? with
  | none =>
      have husage : f.usageLines = [] := by
        rw [usageLines, hsignals]
        rfl
      rw [DocBlock.shape?, block, if_pos husage]
      dsimp only
      rw [Option.map_some, f.argsOfDefinition_definition hsignals]
      rfl
  | some s =>
      have husage : f.usageLines = [f.usage s] := by
        rw [usageLines, hsignals]
        rfl
      rw [DocBlock.shape?, block, husage, if_neg (List.cons_ne_nil _ _), Shape.ofUsage?,
        List.findSome?_cons, f.ofLine?_usage]
      rfl

theorem signature_block (limits : DocLimits) (library : Identifier) (line : Nat) :
    (f.block line).signature limits library.text = f.signature library := by
  have hempty : ∀ limit, Text.truncate limit [] = [] := by
    intro limit
    exact if_neg (Nat.not_lt_zero limit)
  rw [DocBlock.signature, f.shape?_block]
  simp only [block, Text.join, hempty]
  rfl

theorem warning?_block (file : Text) (line : Nat) : (f.block line).warning? file = none := by
  rw [DocBlock.warning?, f.shape?_block]
  rfl

end WrittenFunction

/-! ## The sections -/

namespace DocSection

/-- Lines that are no headers belong to no section of their own. -/
theorem cut_append {body : List DocLine} (h : ∀ l ∈ body, l.isHeader = false) (n : Nat)
    (rest : List DocLine) : cut n (body ++ rest) = cut (n + body.length) rest := by
  induction body generalizing n with
  | nil =>
      rfl
  | cons l body ih =>
      rw [List.forall_mem_cons] at h
      rw [List.cons_append, cut, h.1, List.length_cons, ih h.2, Nat.add_assoc, Nat.add_comm 1]
      rfl

/-- A header and the lines up to the next header are a section. -/
theorem cut_cons_append (header : DocLine) {body : List DocLine}
    (hheader : header.isHeader = true) (hbody : ∀ l ∈ body, l.isHeader = false) (n : Nat)
    {rest : List DocLine} (hrest : ∀ l, rest.head? = some l → l.isHeader = true) :
    cut n (header :: (body ++ rest)) =
      ⟨n, header, body⟩ :: cut (n + 1 + body.length) rest := by
  have htake : (body ++ rest).takeWhile (!·.isHeader) = body := by
    have hstop : rest.takeWhile (!·.isHeader) = [] := by
      cases rest with
      | nil =>
          rfl
      | cons l rest =>
          exact List.takeWhile_cons_of_neg (by simp [hrest l rfl])
    rw [List.takeWhile_append_of_pos fun l hl => by rw [hbody l hl]; rfl, hstop, List.append_nil]
  rw [cut, if_pos hheader, htake, cut_append hbody]

end DocSection

namespace WrittenFunction

theorem not_isHeader_of_mem_bodyLines (f : WrittenFunction) :
    ∀ l ∈ f.bodyLines, l.isHeader = false := by
  rw [bodyLines, List.forall_mem_append, List.forall_mem_map]
  exact ⟨fun _ _ => rfl, by simp [DocLine.isHeader]⟩

/-- Each function has a section of its own. -/
theorem forall₂_cut (fs : List WrittenFunction) (n : Nat) :
    List.Forall₂ (fun f s => ∃ line, s = ⟨line, .header f.name.text, f.bodyLines⟩) fs
      (DocSection.cut n (fs.flatMap docLines)) := by
  induction fs generalizing n with
  | nil =>
      exact List.Forall₂.nil
  | cons f fs ih =>
      have hrest : ∀ l, (fs.flatMap docLines).head? = some l → l.isHeader = true := by
        cases fs with
        | nil =>
            intro l hl
            cases hl
        | cons g fs =>
            rintro l ⟨rfl⟩
            rfl
      have hcut := DocSection.cut_cons_append (.header f.name.text) rfl
        f.not_isHeader_of_mem_bodyLines n hrest
      rw [List.flatMap_cons, docLines, List.cons_append, hcut]
      exact List.Forall₂.cons ⟨n, rfl⟩ (ih _)

/-- The sections of written functions give their signatures, in their order, and no warnings. -/
theorem read_sections (limits : DocLimits) (library : Identifier) (file : Text)
    {fs : List WrittenFunction} {sections : List DocSection}
    (h : List.Forall₂ (fun f s => ∃ line, s = ⟨line, .header f.name.text, f.bodyLines⟩) fs
      sections) :
    (sections.filterMap DocSection.block?).map (DocBlock.signature limits library.text) =
        fs.map (fun f => f.signature library) ∧
      (sections.filterMap DocSection.block?).filterMap (DocBlock.warning? file) = [] ∧
      sections.filterMap DocSection.oddHeader? = [] := by
  induction h with
  | nil =>
      exact ⟨rfl, rfl, rfl⟩
  | @cons f _ fs sections hsection _ ih =>
      obtain ⟨line, rfl⟩ := hsection
      obtain ⟨hsignatures, hwarnings, hodd⟩ := ih
      rw [List.filterMap_cons_some (f.block?_section line)]
      refine ⟨?_, ?_, ?_⟩
      · rw [List.map_cons, List.map_cons, f.signature_block, hsignatures]
      · rw [List.filterMap_cons_none (f.warning?_block file line), hwarnings]
      · rw [List.filterMap_cons_none rfl, hodd]

end WrittenFunction

namespace Library

/-- The short name of the library is announced. -/
theorem announcedName?_announcement (library : Identifier) :
    announcedName? (" " ++ WrittenFunction.announcement library) = some library.text := by
  have hlower : Text.toLower (" " ++ WrittenFunction.announcement library) =
      " prefix: " ++ Text.toLower library.text := rfl
  have hblank : ' ' ∉ Text.toLower library.text := by
    intro hmem
    obtain ⟨c, hc, heq⟩ := List.mem_map.1 hmem
    have hpart := Ident.isPart_of_mem library.isIdent hc
    have hall := Text.forall_ascii (p := fun c => !Ident.isPart c || c.toLower ≠ ' ') (by decide)
      (Ident.isAscii_of_isPart hpart)
    simp [hpart, heq] at hall
  have hname : Text.breakAt? "prefix is" (Text.toLower library.text) = none :=
    Text.breakAt?_eq_none (c := ' ') (by decide) hblank
  -- the announcement as a sentence has a blank in it, and no name has one
  have hsentence : afterFolded? "prefix is" (" " ++ WrittenFunction.announcement library) =
      none := by
    have hnone : Text.breakAt? "prefix is" (" prefix: " ++ Text.toLower library.text) = none := by
      simpa [Text.breakAt?, Text.after?] using hname
    rw [afterFolded?, hlower, hnone]
    rfl
  have hlabel : afterFolded? "prefix:" (" " ++ WrittenFunction.announcement library) =
      some (' ' :: library.text) := rfl
  have hkeep : ∀ q : Char → Bool, (∀ c, Ident.isPart c = true → q c = false) →
      library.text.dropWhile q = library.text := fun q hq =>
    Text.dropWhile_eq_self_iff.2 fun c hc =>
      hq c (Ident.isPart_of_mem library.isIdent (List.mem_of_mem_head? hc))
  have hstart : Text.trimStart (' ' :: library.text) = library.text := by
    rw [Text.trimStart, List.dropWhile_cons_of_pos (by decide)]
    exact hkeep Text.isBlank fun _ => Ident.not_isBlank_of_isPart
  have hquote : library.text.dropWhile isQuote = library.text := by
    refine hkeep isQuote fun c hc => ?_
    have hall := Text.forall_ascii (p := fun c => !Ident.isPart c || !isQuote c) (by decide)
      (Ident.isAscii_of_isPart hc)
    simpa [hc] using hall
  have hparts : library.text.takeWhile Ident.isPart = library.text :=
    List.takeWhile_eq_self_iff.2 fun _ => Ident.isPart_of_mem library.isIdent
  rw [announcedName?, announcement?, hsentence, Option.none_or, hlabel]
  simp only [Option.bind_eq_bind, Option.bind_some, hstart, hquote, hparts, library.isIdent,
    if_true]

theorem declaredName?_libraryLines (library : Identifier) (fs : List WrittenFunction) :
    declaredName? (Text.unlines (libraryLines library fs)) = some library.text := by
  have htrim := (WrittenFunction.isTrimmedLine_commentLine
    (WrittenFunction.isPlainComment_announcement library).toIsTrimmedLine).trimmed
  have hline : WrittenFunction.commentLine (WrittenFunction.announcement library) =
      "//" ++ (" " ++ WrittenFunction.announcement library) := rfl
  rw [declaredName?, lines_unlines_libraryLines, libraryLines, List.findSome?_cons, htrim, hline,
    Text.after?_append, Option.bind_some, announcedName?_announcement]

end Library

/-- A library in the documented form is read as what has been written: its short name and the
signatures of its functions, in their order and without warnings. -/
theorem LibraryFile.read_unlines_libraryLines (limits : DocLimits) (file : Text)
    (aliases : OrderedMap Text Text) (library : Identifier) (fs : List WrittenFunction) :
    LibraryFile.read limits file (Text.unlines (libraryLines library fs)) aliases =
      .ok ⟨library.text, fs.map fun f => f.signature library, []⟩ := by
  have hsections : DocSection.ofSource (Text.unlines (libraryLines library fs)) =
      DocSection.cut 2 (fs.flatMap WrittenFunction.docLines) := by
    rw [DocSection.ofSource, lines_unlines_libraryLines, map_classify_libraryLines]
    rfl
  obtain ⟨hsignatures, hwarnings, hodd⟩ :=
    WrittenFunction.read_sections limits library file (WrittenFunction.forall₂_cut fs 2)
  have hname : nameOf? file (Text.unlines (libraryLines library fs)) aliases =
      some library.text := by
    rw [nameOf?, Library.declaredName?_libraryLines]
    rfl
  unfold LibraryFile.read
  dsimp only
  rw [hname, hsections]
  dsimp only
  rw [ofParts, hsignatures, hwarnings, hodd]
  rfl

end DspCheck
