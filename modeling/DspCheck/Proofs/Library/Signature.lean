import DspCheck.Library.File
import DspCheck.Proofs.OrderedMap
import DspCheck.Proofs.Text.Lines
import DspCheck.Proofs.Text.Trim
import DspCheck.Proofs.Text.Word

/-!
# What library files document

The texts in a documentation block come from the lines of the library, so none of them has a line
feed in it, and the name of the block is an identifier (`DocBlock.isRead_of_mem`).

So every signature that a library file documents is *documented*: its names are identifiers, its
counts fit, its texts keep to the limits, and its arguments are those of an argument list that
stands on one line (`LibraryFile.isDocumented_of_read`).
-/

namespace DspCheck
namespace DocLine

theorem isIdent_of_functionName? {t name : Text} (h : functionName? t = some name) :
    Ident.isIdent name = true := by
  simp only [functionName?, Option.bind_eq_bind, Option.bind_eq_some_iff] at h
  obtain ⟨quoted, -, group, -, h⟩ := h
  split at h
  · next hident =>
      cases h
      exact hident
  · cases h

/-- A line is blank, or a comment, or code. -/
theorem classify_cases (line : Text) :
    classify line = .blank ∨
      (∃ body, Text.trim line = "//" ++ body ∧ classify line = ofComment body) ∨
      classify line = .code (Text.trim line) := by
  unfold classify
  dsimp only
  split
  · exact Or.inl rfl
  split
  · exact Or.inr (Or.inr rfl)
  · next body hbody =>
      exact Or.inr (Or.inl ⟨body, Text.after?_eq_some_iff.1 hbody, rfl⟩)

/-- A comment is a rule, or a header, or its text. -/
theorem ofComment_cases (body : Text) :
    ofComment body = .rule ∨
      (∃ t name, functionName? t = some name ∧ ofComment body = .header name) ∨
      (∃ inner, ofComment body = .oddHeader inner) ∨
      ∃ text, text <:+ body ∧ ofComment body = .comment text := by
  unfold ofComment
  dsimp only
  split
  · exact Or.inl rfl
  split
  · split
    · exact Or.inl rfl
    split
    · next name hname =>
        exact Or.inr (Or.inl ⟨_, name, hname, rfl⟩)
    · exact Or.inr (Or.inr (Or.inl ⟨_, rfl⟩))
  · refine Or.inr (Or.inr (Or.inr ⟨_, ?_, rfl⟩))
    cases hafter : Text.after? " " body with
    | none =>
        exact List.suffix_refl body
    | some rest =>
        rw [Text.after?_eq_some_iff.1 hafter]
        exact List.suffix_append ..

/-- The name in a header is an identifier. -/
theorem isIdent_of_classify {line name : Text} (h : classify line = .header name) :
    Ident.isIdent name = true := by
  rcases classify_cases line with hline | ⟨body, -, hline⟩ | hline <;> rw [hline] at h
  · cases h
  · rcases ofComment_cases body with hbody | ⟨t, found, hfound, hbody⟩ | ⟨inner, hbody⟩ |
        ⟨text, -, hbody⟩ <;> rw [hbody] at h <;> cases h
    exact isIdent_of_functionName? hfound
  · cases h

/-- The text of a comment stands in its line. -/
theorem isInfix_of_comment {line text : Text} (h : classify line = .comment text) :
    text <:+: line := by
  rcases classify_cases line with hline | ⟨body, htrim, hline⟩ | hline <;> rw [hline] at h
  · cases h
  · rcases ofComment_cases body with hbody | ⟨t, found, -, hbody⟩ | ⟨inner, hbody⟩ |
        ⟨text, hsuffix, hbody⟩ <;> rw [hbody] at h <;> cases h
    have hbehind : text <:+ Text.trim line := by
      rw [htrim]
      exact hsuffix.trans (List.suffix_append ..)
    exact hbehind.isInfix.trans (Text.isInfix_trim line)
  · cases h

/-- The code of a line stands in it. -/
theorem isInfix_of_code {line text : Text} (h : classify line = .code text) : text <:+: line := by
  rcases classify_cases line with hline | ⟨body, -, hline⟩ | hline <;> rw [hline] at h
  · cases h
  · rcases ofComment_cases body with hbody | ⟨t, found, -, hbody⟩ | ⟨inner, hbody⟩ |
        ⟨text, -, hbody⟩ <;> rw [hbody] at h <;> cases h
  · cases h
    exact Text.isInfix_trim line

end DocLine

namespace DocSection

/-- The header and the body of a section are lines that have been cut. -/
theorem mem_of_mem_cut {n : Nat} {ls : List DocLine} {s : DocSection} (h : s ∈ cut n ls) :
    s.header ∈ ls ∧ ∀ l ∈ s.body, l ∈ ls := by
  induction ls generalizing n with
  | nil =>
      cases h
  | cons l ls ih =>
      have later : s ∈ cut (n + 1) ls → s.header ∈ l :: ls ∧ ∀ l' ∈ s.body, l' ∈ l :: ls := by
        intro h
        obtain ⟨hheader, hbody⟩ := ih h
        exact ⟨List.mem_cons_of_mem l hheader, fun l' hl' => List.mem_cons_of_mem l (hbody l' hl')⟩
      rw [cut] at h
      split at h
      · rcases List.mem_cons.1 h with rfl | h
        · exact ⟨List.mem_cons_self,
            fun l' hl' => List.mem_cons_of_mem l ((List.takeWhile_prefix _).subset hl')⟩
        · exact later h
      · exact later h

/-- The lines of a section are those of its library. -/
theorem exists_of_mem_ofSource {source : Text} {s : DocSection} (h : s ∈ ofSource source) :
    (∃ line ∈ Text.lines source, s.header = DocLine.classify line) ∧
      ∀ l ∈ s.body, ∃ line ∈ Text.lines source, l = DocLine.classify line := by
  obtain ⟨hheader, hbody⟩ := mem_of_mem_cut h
  have hline : ∀ l ∈ (Text.lines source).map DocLine.classify,
      ∃ line ∈ Text.lines source, l = DocLine.classify line := by
    intro l hl
    obtain ⟨line, hmem, rfl⟩ := List.mem_map.1 hl
    exact ⟨line, hmem, rfl⟩
  exact ⟨hline _ hheader, fun l hl => hline l (hbody l hl)⟩

end DocSection

namespace DocDraft

theorem mem_usage_read {text u : Text} {d : DocDraft} (h : u ∈ (d.read text).usage) :
    u ∈ d.usage ∨ u = Text.trim text := by
  have under : u ∈ (d.readUnderTopic text).usage → u ∈ d.usage ∨ u = Text.trim text := by
    intro h
    unfold readUnderTopic at h
    dsimp only at h
    split at h
    · split at h <;> exact Or.inl h
    · split at h
      · exact Or.inl h
      · rcases List.mem_append.1 h with h | h
        · exact Or.inl h
        · exact Or.inr (List.mem_singleton.1 h)
    · exact Or.inl h
    · split at h <;> exact Or.inl h
  unfold read at h
  dsimp only at h
  split at h
  · exact Or.inl h
  split at h
  · exact under h
  split at h
  · exact Or.inl h
  · exact under h

/-- The usage of a function is made of comments, without the blanks around them. -/
theorem mem_usage_readAll {u : Text} {d : DocDraft} {ls : List DocLine}
    (h : u ∈ (d.readAll ls).usage) :
    u ∈ d.usage ∨ ∃ text, .comment text ∈ ls ∧ u = Text.trim text := by
  induction ls generalizing d with
  | nil =>
      exact Or.inl h
  | cons l ls ih =>
      have later : ∀ {d' : DocDraft}, u ∈ (d'.readAll ls).usage →
          u ∈ d'.usage ∨ ∃ text, .comment text ∈ l :: ls ∧ u = Text.trim text := by
        intro d' h
        rcases ih h with h | ⟨text, htext, rfl⟩
        · exact Or.inl h
        · exact Or.inr ⟨text, List.mem_cons_of_mem l htext, rfl⟩
      cases l with
      | comment text =>
          rcases later h with h | h
          · rcases mem_usage_read h with h | rfl
            · exact Or.inl h
            · exact Or.inr ⟨text, List.mem_cons_self, rfl⟩
          · exact Or.inr h
      | blank =>
          rw [readAll] at h
          split at h
          · exact later h
          · exact Or.inl h
      | rule =>
          rw [readAll] at h
          split at h
          · exact later h
          · exact Or.inl h
      | code _ =>
          exact Or.inl h
      | header _ =>
          exact Or.inl h
      | oddHeader _ =>
          exact Or.inl h

end DocDraft

namespace DocBlock

/-- What holds of the blocks that are read from a library. -/
structure IsRead (b : DocBlock) : Prop where
  name : Ident.isIdent b.name = true
  usage : ∀ u ∈ b.usage, '\n' ∉ u
  definition : ∀ code ∈ b.definition?, '\n' ∉ code

section Read

variable {source : Text} {b : DocBlock}

/-- The texts of a block stand in the lines of its library. -/
theorem exists_line_of_mem (h : b ∈ (DocSection.ofSource source).filterMap DocSection.block?) :
    (∀ u ∈ b.usage, ∃ line ∈ Text.lines source, u <:+: line) ∧
      ∀ code ∈ b.definition?, ∃ line ∈ Text.lines source, code <:+: line := by
  obtain ⟨s, hs, hb⟩ := List.mem_filterMap.1 h
  obtain ⟨-, hbody⟩ := DocSection.exists_of_mem_ofSource hs
  unfold DocSection.block? at hb
  split at hb
  · cases hb
    constructor
    · intro u hu
      rcases DocDraft.mem_usage_readAll hu with hu | ⟨text, htext, rfl⟩
      · cases hu
      · obtain ⟨line, hline, hclass⟩ := hbody _ htext
        exact ⟨line, hline,
          (Text.isInfix_trim text).trans (DocLine.isInfix_of_comment hclass.symm)⟩
    · intro code hcode
      obtain ⟨l, hl, hcode⟩ := List.exists_of_findSome?_eq_some (Option.mem_filter_iff.1 hcode).1
      obtain ⟨line, hline, hclass⟩ := hbody l hl
      have hl : l = .code code := by
        cases l <;> cases hcode
        rfl
      exact ⟨line, hline, DocLine.isInfix_of_code (hclass.symm.trans hl)⟩
  · cases hb

theorem isIdent_of_mem (h : b ∈ (DocSection.ofSource source).filterMap DocSection.block?) :
    Ident.isIdent b.name = true := by
  obtain ⟨s, hs, hb⟩ := List.mem_filterMap.1 h
  obtain ⟨⟨line, -, hheader⟩, -⟩ := DocSection.exists_of_mem_ofSource hs
  unfold DocSection.block? at hb
  split at hb
  · next name hname =>
      cases hb
      exact DocLine.isIdent_of_classify (hheader.symm.trans hname)
  · cases hb

theorem isRead_of_mem (h : b ∈ (DocSection.ofSource source).filterMap DocSection.block?) :
    b.IsRead := by
  obtain ⟨husage, hdefinition⟩ := exists_line_of_mem h
  have hbreak : ∀ t, (∃ line ∈ Text.lines source, t <:+: line) → '\n' ∉ t := by
    rintro t ⟨line, hline, ht⟩ hmem
    exact Text.newline_notMem_of_mem_lines hline (ht.subset hmem)
  exact ⟨isIdent_of_mem h, fun u hu => hbreak u (husage u hu),
    fun code hcode => hbreak code (hdefinition code hcode)⟩

end Read

end DocBlock

/-! ## Shapes -/

/-- Arguments of an argument list that stands on one line. -/
def ArgumentList.AreRead (args : List Text) : Prop :=
  ∃ t l, '\n' ∉ t ∧ ArgumentList.read? t = some l ∧ l.args = args

theorem ArgumentList.areRead_nil : ArgumentList.AreRead [] :=
  ⟨"()", _, by decide, rfl, rfl⟩

namespace Shape

/-- What holds of the shapes that are read from documentation. -/
structure IsRead (s : Shape) : Prop where
  args : ArgumentList.AreRead s.args
  outputs : 1 ≤ s.outputs

theorem isRead_ofArgs {args : List Text} (h : ArgumentList.AreRead args) : (ofArgs args).IsRead :=
  ⟨h, Nat.le_refl 1⟩

theorem areRead_argsOfDefinition {name definition : Text} (h : '\n' ∉ definition) :
    ArgumentList.AreRead (argsOfDefinition name definition) := by
  unfold argsOfDefinition
  split
  · exact ArgumentList.areRead_nil
  · next rest hrest =>
      split
      · exact ArgumentList.areRead_nil
      · next l hl =>
          refine ⟨_, l, fun hmem => h ?_, hl, rfl⟩
          rw [Text.after?_eq_some_iff.1 hrest]
          exact List.mem_append_right _ ((List.dropWhile_suffix _).subset hmem)

theorem isRead_of_ofLine? {name line : Text} {s : Shape} (h : ofLine? name line = some s)
    (hline : '\n' ∉ line) : s.IsRead := by
  simp only [ofLine?, Option.bind_eq_bind, Option.bind_eq_some_iff, Option.pure_def,
    Option.some.injEq] at h
  obtain ⟨⟨beforeName, afterName⟩, hbreak, ⟨args, rest⟩, hargs, rfl⟩ := h
  refine ⟨?_, Nat.le_max_left ..⟩
  have hafter : '\n' ∉ afterName := by
    intro hmem
    apply hline
    rw [Text.append_of_breakAtWord? hbreak]
    exact List.mem_append_right _ hmem
  unfold argsAfter? at hargs
  dsimp only at hargs
  split at hargs
  · obtain ⟨l, hl, hpair⟩ := Option.map_eq_some_iff.1 hargs
    cases hpair
    exact ⟨_, l, fun hmem => hafter ((List.dropWhile_suffix _).subset hmem), hl, rfl⟩
  · cases hargs
    exact ArgumentList.areRead_nil

theorem isRead_of_ofUsage? {name : Text} {usage : List Text} {s : Shape}
    (h : ofUsage? name usage = some s) (husage : ∀ u ∈ usage, '\n' ∉ u) : s.IsRead := by
  obtain ⟨line, hline, hs⟩ := List.exists_of_findSome?_eq_some h
  exact isRead_of_ofLine? hs (husage line hline)

end Shape

/-! ## Signatures -/

theorem Text.length_truncate_le (limit : Nat) (t : Text) : (truncate limit t).length ≤ limit := by
  rw [truncate]
  split
  · exact ((isPrefix_trimEnd _).length_le).trans (List.length_take_le limit t)
  · omega

/-- What holds of the signatures that documentation gives: their names are identifiers, their
arguments can be read, their counts fit, and their texts keep to the limits. -/
structure Signature.IsDocumented (limits : DocLimits) (s : Signature) : Prop where
  library : Ident.isIdent s.library = true
  name : Ident.isIdent s.name = true
  fullName : s.fullName = Ident.qualified s.library s.name
  args : ArgumentList.AreRead s.args
  argCount : s.argCount = s.args.length
  outputs : 1 ≤ s.outputs
  description : s.description.length ≤ limits.description
  sample : s.sample.length ≤ limits.sample

namespace DocBlock

theorem IsRead.isRead_shape {b : DocBlock} (h : b.IsRead) :
    (b.shape?.getD (.ofArgs [])).IsRead := by
  cases hshape : b.shape? with
  | none =>
      exact Shape.isRead_ofArgs ArgumentList.areRead_nil
  | some shape =>
      unfold shape? at hshape
      split at hshape
      · cases hshape
        apply Shape.isRead_ofArgs
        cases hdefinition : b.definition? with
        | none =>
            exact ArgumentList.areRead_nil
        | some definition =>
            exact Shape.areRead_argsOfDefinition (h.definition definition hdefinition)
      · exact Shape.isRead_of_ofUsage? hshape h.usage

theorem IsRead.isDocumented_signature {b : DocBlock} (h : b.IsRead) (limits : DocLimits)
    {library : Text} (hlibrary : Ident.isIdent library = true) :
    (b.signature limits library).IsDocumented limits where
  library := hlibrary
  name := h.name
  fullName := rfl
  args := h.isRead_shape.args
  argCount := rfl
  outputs := h.isRead_shape.outputs
  description := Text.length_truncate_le _ _
  sample := Text.length_truncate_le _ _

end DocBlock

/-! ## Library files -/

namespace Library

theorem isIdent_of_announcedName? {comment name : Text} (h : announcedName? comment = some name) :
    Ident.isIdent name = true := by
  simp only [announcedName?, Option.bind_eq_bind, Option.bind_eq_some_iff] at h
  obtain ⟨rest, -, h⟩ := h
  split at h
  · next hident =>
      cases h
      exact hident
  · cases h

theorem isIdent_of_declaredName? {source name : Text} (h : declaredName? source = some name) :
    Ident.isIdent name = true := by
  obtain ⟨line, -, hline⟩ := List.exists_of_findSome?_eq_some h
  obtain ⟨comment, -, hname⟩ := Option.bind_eq_some_iff.1 hline
  exact isIdent_of_announcedName? hname

theorem isIdent_of_mem_aliases {source : Text} {e : Text × Text} (h : e ∈ aliases source) :
    Ident.isIdent e.2 = true := by
  obtain ⟨line, -, hline⟩ := List.mem_filterMap.1 h
  simp only [alias?, Option.bind_eq_bind, Option.bind_eq_some_iff] at hline
  obtain ⟨⟨left, right⟩, -, _, -, _, -, _, -, ⟨file, rest⟩, -, hline⟩ := hline
  dsimp only at hline
  split at hline
  · next hident =>
      cases hline
      exact hident
  · cases hline

end Library

namespace LibraryFile

variable {limits : DocLimits} {file source : Text} {aliases : OrderedMap Text Text}

/-- What a file is read as: all of its blocks and headers, under its short name if it has one.
Without one it must not document anything. -/
theorem exists_of_read_eq_ok {l : LibraryFile} (h : read limits file source aliases = .ok l) :
    ∃ library, l = ofParts limits file library
        ((DocSection.ofSource source).filterMap DocSection.block?)
        ((DocSection.ofSource source).filterMap DocSection.oddHeader?) ∧
      (nameOf? file source aliases = some library ∨ nameOf? file source aliases = none ∧
        (DocSection.ofSource source).filterMap DocSection.block? = []) := by
  unfold read at h
  dsimp only at h
  split at h
  · next library hname =>
      cases h
      exact ⟨library, rfl, Or.inl hname⟩
  · next hname =>
      split at h
      · next hblocks =>
          cases h
          exact ⟨[], rfl, Or.inr ⟨hname, hblocks⟩⟩
      · cases h

/-- A file is left out if it documents functions and has no short name, and for no other reason. -/
theorem read_eq_error_iff {w : BuildWarning} : read limits file source aliases = .error w ↔
    nameOf? file source aliases = none ∧
      (DocSection.ofSource source).filterMap DocSection.block? ≠ [] ∧ w = unnamed file := by
  unfold read
  dsimp only
  split
  · next hname =>
      simp [hname]
  · next hname =>
      split
      · next hblocks =>
          simp [hblocks]
      · next hblocks =>
          simp [hname, hblocks, eq_comm]

/-- The signatures of a library file are documented under the short name of the file. -/
theorem isDocumented_of_read {l : LibraryFile}
    (haliases : ∀ name ∈ aliases.values, Ident.isIdent name = true)
    (h : read limits file source aliases = .ok l) {s : Signature} (hs : s ∈ l.functions) :
    s.IsDocumented limits ∧ s.library = l.library := by
  obtain ⟨library, rfl, hname⟩ := exists_of_read_eq_ok h
  obtain ⟨b, hb, rfl⟩ := List.mem_map.1 hs
  rcases hname with hname | ⟨-, hblocks⟩
  · have hident : Ident.isIdent library = true := by
      rcases Option.or_eq_some_iff.1 hname with hdeclared | ⟨-, halias⟩
      · exact Library.isIdent_of_declaredName? hdeclared
      · exact haliases library (OrderedMap.mem_values_of_get? halias)
    exact ⟨(DocBlock.isRead_of_mem hb).isDocumented_signature limits hident, rfl⟩
  · rw [hblocks] at hb
    cases hb

end LibraryFile
end DspCheck
