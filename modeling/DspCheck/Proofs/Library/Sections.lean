import DspCheck.Proofs.Library.Reader
import DspCheck.Proofs.Text.Lines
import Mathlib.Data.List.TakeWhile

/-!
# Documentation in one pass and in sections

A reader that takes the lines one after the other finds what the sections of a library document
(`DocReader.readSource_eq`).  So every header has its block, with the first line of code before the
next header as its definition if that defines its name, whatever else stands between the headers.

Main statements: `DocReader.reads_afresh` and `DocReader.documents_headers`.
-/

namespace DspCheck
namespace DocLine

/-- The function that a header names. -/
def name? : DocLine → Option Text
  | header name => some name
  | _ => none

/-- The text of a header that names no function. -/
def oddText? : DocLine → Option Text
  | oddHeader text => some text
  | _ => none

/-- The first line of code, if it stands before any header. -/
def IsFirstCode (code : Text) (ls : List DocLine) : Prop :=
  ∃ front rest, ls = front ++ .code code :: rest ∧
    ∀ l ∈ front, l.isHeader = false ∧ l.code? = none

theorem code?_eq_some_iff {l : DocLine} {code : Text} :
    l.code? = some code ↔ l = .code code := by
  cases l <;> simp [code?]

theorem isFirstCode_cons_iff {l : DocLine} {ls : List DocLine} {code : Text} :
    IsFirstCode code (l :: ls) ↔
      l = .code code ∨ l.isHeader = false ∧ l.code? = none ∧ IsFirstCode code ls := by
  constructor
  · rintro ⟨front, rest, hsplit, hfront⟩
    cases front with
    | nil =>
        exact Or.inl (List.cons.inj hsplit).1
    | cons f front =>
        obtain ⟨rfl, rfl⟩ := List.cons.inj hsplit
        rw [List.forall_mem_cons] at hfront
        exact Or.inr ⟨hfront.1.1, hfront.1.2, front, rest, rfl, hfront.2⟩
  · rintro (rfl | ⟨hheader, hcode, front, rest, rfl, hfront⟩)
    · exact ⟨[], ls, rfl, fun _ h => absurd h List.not_mem_nil⟩
    · exact ⟨l :: front, rest, rfl, List.forall_mem_cons.2 ⟨⟨hheader, hcode⟩, hfront⟩⟩

/-- The first line of code in a section is the first one behind its header, if it stands before the
next header. -/
theorem findSome?_code?_iff {ls : List DocLine} {code : Text} :
    (ls.takeWhile (!·.isHeader)).findSome? code? = some code ↔ IsFirstCode code ls := by
  induction ls with
  | nil =>
      simp [IsFirstCode]
  | cons l ls ih =>
      rw [isFirstCode_cons_iff, ← ih]
      cases hheader : l.isHeader with
      | true =>
          have hne : l ≠ .code code := by
            rintro rfl
            cases hheader
          rw [List.takeWhile_cons_of_neg (by simp [hheader])]
          simp [hne]
      | false =>
          rw [List.takeWhile_cons_of_pos (by simp [hheader]), List.findSome?_cons,
            ← code?_eq_some_iff]
          cases l.code? <;> simp

end DocLine

namespace DocBlock

/-- The block when its section is over. -/
def settle (body : List DocLine) (b : DocBlock) : DocBlock :=
  match body.findSome? DocLine.code? with
  | none => b
  | some code => b.define code

/-- A block without a definition gets the first line of code, if that defines its name. -/
theorem settle_of_none (body : List DocLine) {b : DocBlock} (hb : b.definition? = none) :
    b.settle body =
      { b with definition? :=
          (body.findSome? DocLine.code?).filter (DocSection.defines b.name) } := by
  obtain ⟨name, line, description, usage, paramDocs, sample, definition?⟩ := b
  obtain rfl : definition? = none := hb
  unfold settle define
  cases body.findSome? DocLine.code? with
  | none =>
      rfl
  | some code =>
      rw [Option.filter_some]
      dsimp only
      split <;> rfl

end DocBlock

namespace DocSection

/-- What sections document. -/
def documentation (sections : List DocSection) : Documentation :=
  ⟨sections.filterMap block?, sections.filterMap oddHeader?⟩

theorem documentation_cons (s : DocSection) (sections : List DocSection) :
    documentation (s :: sections) = (documentation [s]).append (documentation sections) := by
  rw [documentation, documentation, documentation, Documentation.append, ← List.filterMap_append,
    ← List.filterMap_append, List.singleton_append]

end DocSection

namespace DocReader

/-- Between blocks only a line of code matters, to a block that waits for it. -/
theorem finish_feedAll_idle (d : Documentation) (pending? : Option DocBlock) (number : Nat)
    {body : List DocLine} (h : ∀ l ∈ body, l.isHeader = false) :
    ((idle d pending?).feedAll number body).finish =
      d.append ⟨(pending?.map (DocBlock.settle body)).toList, []⟩ := by
  induction body generalizing d pending? number with
  | nil =>
      have hsettle : DocBlock.settle [] = id := rfl
      simp [feedAll, idle, finish, closeCurrent, flushPending, Documentation.append, hsettle]
  | cons l body ih =>
      rw [List.forall_mem_cons] at h
      rw [feedAll]
      cases l with
      | code code =>
          rw [feed_code_idle, ih _ _ _ h.2]
          simp [Documentation.append]
          rfl
      | header name =>
          cases h.1
      | oddHeader text =>
          cases h.1
      | _ =>
          exact ih d pending? _ h.2

/-- In a block the comments are read as its draft reads them, and the first line of code settles
it. -/
theorem finish_feedAll_reading (d : Documentation) (topic : Topic) (fenced : Bool) (b : OpenBlock)
    (number : Nat) {body : List DocLine} (h : ∀ l ∈ body, l.isHeader = false) :
    ((reading d topic fenced b).feedAll number body).finish =
      d.append ⟨[(b.withDraft ((b.draft topic fenced).readAll body)).toDocBlock.settle body],
        []⟩ := by
  induction body generalizing topic fenced b number with
  | nil =>
      simp [feedAll, reading, finish, closeCurrent, flushPending, Documentation.append]
      rfl
  | cons l body ih =>
      rw [List.forall_mem_cons] at h
      rw [feedAll]
      cases l with
      | comment text =>
          rw [feed_comment_reading, ih _ _ _ _ h.2]
          rfl
      | code code =>
          rw [feed_code_reading, finish_feedAll_idle _ _ _ h.2]
          simp [Documentation.append]
          rfl
      | blank =>
          rw [feed_gap_reading d topic fenced b number (Or.inl rfl)]
          cases fenced with
          | true =>
              exact ih topic true b _ h.2
          | false =>
              exact finish_feedAll_idle d _ _ h.2
      | rule =>
          rw [feed_gap_reading d topic fenced b number (Or.inr rfl)]
          cases fenced with
          | true =>
              exact ih topic true b _ h.2
          | false =>
              exact finish_feedAll_idle d _ _ h.2
      | header name =>
          cases h.1
      | oddHeader text =>
          cases h.1

theorem isHeader_of_mem_takeWhile {ls : List DocLine} {l : DocLine}
    (h : l ∈ ls.takeWhile (!·.isHeader)) : l.isHeader = false := by
  simpa using List.mem_takeWhile_imp h

/-- A section documents what a reader finds in it. -/
theorem finish_section (d : Documentation) (number : Nat) {l : DocLine} (hl : l.isHeader = true)
    (body : List DocLine) (hbody : ∀ l ∈ body, l.isHeader = false) :
    (((idle d none).feed number l).feedAll (number + 1) body).finish =
      d.append (DocSection.documentation [⟨number, l, body⟩]) := by
  cases l with
  | header name =>
      have hopen : (idle d none).feed number (.header name) =
          reading d .description false (OpenBlock.start number name) := by
        simp [idle, reading, feed, closeCurrent, flushPending, openBlock]
      rw [hopen, finish_feedAll_reading _ _ _ _ _ hbody]
      rw [DocBlock.settle_of_none _ rfl]
      rfl
  | oddHeader text =>
      have hclosed : (idle d none).feed number (.oddHeader text) =
          idle { d with oddHeaders := d.oddHeaders ++ [⟨number, text⟩] } none := by
        simp [idle, feed, closeCurrent, flushPending]
      rw [hclosed, finish_feedAll_idle _ _ _ hbody]
      simp [Documentation.append, DocSection.documentation, DocSection.block?,
        DocSection.oddHeader?]
  | _ =>
      cases hl

/-- A reader finds what is left of the block that it is in, and then what the sections document. -/
theorem finish_feedAll {r : DocReader} (hr : r.IsSound) (number : Nat) (ls : List DocLine) :
    (r.feedAll number ls).finish =
      ((r.feedAll number (ls.takeWhile (!·.isHeader))).finish).append
        (DocSection.documentation (DocSection.cut number ls)) := by
  induction ls generalizing r number with
  | nil =>
      exact (Documentation.append_empty _).symm
  | cons l ls ih =>
      cases hl : l.isHeader with
      | false =>
          rw [List.takeWhile_cons_of_pos (by simp [hl]), DocSection.cut, hl, feedAll, feedAll,
            ih (hr.feed number l)]
          rfl
      | true =>
          have hsection := finish_section r.finish number hl
            (ls.takeWhile (!·.isHeader)) fun _ => isHeader_of_mem_takeWhile
          rw [List.takeWhile_cons_of_neg (by simp [hl]), DocSection.cut, if_pos hl,
            DocSection.documentation_cons]
          show ((r.feed number l).feedAll (number + 1) ls).finish = _
          rw [ih (hr.feed number l), feed_of_isHeader hr hl, hsection, Documentation.append_assoc]
          rfl

/-- A reader of all lines finds what the sections of the library document. -/
theorem readSource_eq (source : Text) :
    readSource source = DocSection.documentation (DocSection.ofSource source) := by
  have hfront : ∀ ls : List DocLine,
      (start.feedAll 1 (ls.takeWhile (!·.isHeader))).finish = Documentation.empty :=
    fun ls => finish_feedAll_idle Documentation.empty none 1 fun _ => isHeader_of_mem_takeWhile
  rw [readSource, readLines, finish_feedAll isSound_start, hfront, Documentation.empty_append,
    DocSection.ofSource]

end DocReader

/-! ## What sections document -/

namespace DocLine

/-- What is read in some lines, with their numbers from a given one on. -/
def numbered {α : Type} (f : DocLine → Option α) (number : Nat) (ls : List DocLine) :
    List (Nat × α) :=
  (ls.zipIdx number).filterMap fun p => (f p.1).map fun a => (p.2, a)

theorem numbered_cons {α : Type} (f : DocLine → Option α) (number : Nat) (l : DocLine)
    (ls : List DocLine) :
    numbered f number (l :: ls) =
      ((f l).map fun a => (number, a)).toList ++ numbered f (number + 1) ls := by
  unfold numbered
  rw [List.zipIdx_cons, List.filterMap_cons]
  cases f l <;> rfl

theorem map_snd_numbered {α : Type} (f : DocLine → Option α) (number : Nat)
    (ls : List DocLine) : (numbered f number ls).map Prod.snd = ls.filterMap f := by
  induction ls generalizing number with
  | nil =>
      rfl
  | cons l ls ih =>
      rw [numbered_cons, List.map_append, ih, List.filterMap_cons]
      cases f l <;> rfl

end DocLine

namespace DocSection

/-- There is one block for each header with a function name, in their order. -/
theorem blocks_cut (number : Nat) (ls : List DocLine) :
    ((documentation (cut number ls)).blocks.map fun b => (b.line, b.name)) =
      DocLine.numbered DocLine.name? number ls := by
  induction ls generalizing number with
  | nil =>
      rfl
  | cons l ls ih =>
      rw [DocLine.numbered_cons, ← ih (number + 1)]
      cases l <;> rfl

/-- There is one odd header for each header without a function name, in their order. -/
theorem oddHeaders_cut (number : Nat) (ls : List DocLine) :
    ((documentation (cut number ls)).oddHeaders.map fun h => (h.line, h.text)) =
      DocLine.numbered DocLine.oddText? number ls := by
  induction ls generalizing number with
  | nil =>
      rfl
  | cons l ls ih =>
      rw [DocLine.numbered_cons, ← ih (number + 1)]
      cases l <;> rfl

/-- The definition of a block is the first line of code behind its header, if it stands before the
next header and defines the name of the block. -/
theorem definition?_of_mem_cut {number : Nat} {ls : List DocLine} {b : DocBlock}
    (hb : b ∈ (documentation (cut number ls)).blocks) :
    number ≤ b.line ∧ b.definition? =
      (((ls.drop (b.line + 1 - number)).takeWhile (!·.isHeader)).findSome? DocLine.code?).filter
        (defines b.name) := by
  induction ls generalizing number with
  | nil =>
      cases hb
  | cons l ls ih =>
      have later : b ∈ (documentation (cut (number + 1) ls)).blocks →
          number ≤ b.line ∧ b.definition? =
            ((((l :: ls).drop (b.line + 1 - number)).takeWhile (!·.isHeader)).findSome?
              DocLine.code?).filter (defines b.name) := by
        intro hb
        obtain ⟨hle, hdefinition⟩ := ih hb
        refine ⟨by omega, ?_⟩
        rw [show b.line + 1 - number = (b.line + 1 - (number + 1)) + 1 by omega,
          List.drop_succ_cons]
        exact hdefinition
      cases l with
      | header name =>
          rcases List.mem_cons.1 hb with rfl | hb
          · refine ⟨Nat.le_refl number, ?_⟩
            dsimp only
            rw [Nat.add_sub_cancel_left]
            rfl
          · exact later hb
      | _ =>
          exact later hb

theorem defines_iff {name code : Text} : defines name code = true ↔
    ∃ c rest, code = name ++ c :: rest ∧ (c = '(' ∨ c = '=' ∨ Text.isBlank c = true) := by
  unfold defines
  constructor
  · intro h
    split at h
    · next c rest hafter =>
        refine ⟨c, rest, Text.after?_eq_some_iff.1 hafter, ?_⟩
        simpa [or_assoc] using h
    · cases h
  · rintro ⟨c, rest, rfl, hc⟩
    rw [Text.after?_append]
    simpa [or_assoc] using hc

end DocSection

namespace LibraryFile

/-- A library file that is not left out has a signature for each block of its documentation. -/
theorem map_name_functions {limits : DocLimits} {file source : Text}
    {aliases : OrderedMap Text Text} {l : LibraryFile}
    (h : read limits file source aliases = .ok l) :
    l.functions.map Signature.name =
      (DocSection.documentation (DocSection.ofSource source)).blocks.map DocBlock.name := by
  have hparts : ∀ library blocks oddHeaders,
      (ofParts limits file library blocks oddHeaders).functions.map Signature.name =
        blocks.map DocBlock.name := by
    intro library blocks oddHeaders
    rw [ofParts, List.map_map]
    rfl
  unfold read at h
  dsimp only at h
  split at h
  · cases h
    exact hparts ..
  · split at h
    · cases h
      exact hparts ..
    · cases h

end LibraryFile

namespace DocReader

/-- Reading starts afresh at a header, whatever is open before it: lines before it document what
they would without it, and so do the lines from it on, some lines later. -/
theorem reads_afresh :
    (∀ before behind : List Text,
      (∃ l, behind.head? = some l ∧ (DocLine.classify l).isHeader = true) →
      readLines (before ++ behind) =
        (readLines before).append ((readLines behind).later before.length)) ∧
    (∀ before behind : Text, (before = [] ∨ before.getLast? = some '\n') →
      (∃ l, (Text.lines behind).head? = some l ∧ (DocLine.classify l).isHeader = true) →
      readSource (before ++ behind) =
        (readSource before).append ((readSource behind).later (Text.lines before).length)) := by
  have hlines : ∀ before behind : List Text,
      (∃ l, behind.head? = some l ∧ (DocLine.classify l).isHeader = true) →
      readLines (before ++ behind) =
        (readLines before).append ((readLines behind).later before.length) := by
    rintro before (_ | ⟨l, ls⟩) ⟨l', ⟨rfl⟩, hl⟩
    rw [readLines, List.map_append, List.map_cons, finish_feedAll_append hl, List.length_map]
    rfl
  refine ⟨hlines, fun before behind hbefore hbehind => ?_⟩
  rw [readSource, Text.lines_append hbefore, hlines _ _ hbehind]
  rfl

/-- A block that leaves its fence open. -/
def unclosedBlock : Text :=
  "//---`a`---\n// ```\n"

/-- A block with its definition. -/
def definedBlock : Text :=
  "//---`b`---\nb = 1;"

/-- The theorem at a block that leaves its fence open. -/
theorem reads_afresh_openFence :
    (∃ l, (Text.lines definedBlock).head? = some l ∧ (DocLine.classify l).isHeader = true) ∧
    readLines (Text.lines unclosedBlock ++ Text.lines definedBlock) =
      (readLines (Text.lines unclosedBlock)).append
        ((readLines (Text.lines definedBlock)).later 2) ∧
    readSource (unclosedBlock ++ definedBlock) =
      (readSource unclosedBlock).append ((readSource definedBlock).later 2) := by
  have hheader : ∃ l, (Text.lines definedBlock).head? = some l ∧
      (DocLine.classify l).isHeader = true :=
    ⟨"//---`b`---", by decide +kernel, by decide +kernel⟩
  have hend : unclosedBlock.getLast? = some '\n' := by decide +kernel
  exact ⟨hheader, reads_afresh.1 _ _ hheader, reads_afresh.2 _ _ (Or.inr hend) hheader⟩

/-- Every header with a function name has one block, and every other one is noted, each in its
order.  The definition of a block is the first line of code behind its header, if it stands before
the next header and begins with the name.  So a library file has one signature for each header with
a function name. -/
theorem documents_headers (source : Text) :
    readSource source = DocSection.documentation (DocSection.ofSource source) ∧
    ((readSource source).blocks.map fun b => (b.line, b.name)) =
      DocLine.numbered DocLine.name? 1 ((Text.lines source).map DocLine.classify) ∧
    ((readSource source).oddHeaders.map fun h => (h.line, h.text)) =
      DocLine.numbered DocLine.oddText? 1 ((Text.lines source).map DocLine.classify) ∧
    (∀ b ∈ (readSource source).blocks, ∀ code, b.definition? = some code ↔
      DocLine.IsFirstCode code (((Text.lines source).map DocLine.classify).drop b.line) ∧
        ∃ c rest, code = b.name ++ c :: rest ∧ (c = '(' ∨ c = '=' ∨ Text.isBlank c = true)) ∧
    (∀ limits file aliases l, LibraryFile.read limits file source aliases = .ok l →
      l.functions.map Signature.name =
        ((Text.lines source).map DocLine.classify).filterMap DocLine.name?) := by
  have heq := readSource_eq source
  refine ⟨heq, ?_, ?_, ?_, ?_⟩
  · rw [heq, DocSection.ofSource, DocSection.blocks_cut]
  · rw [heq, DocSection.ofSource, DocSection.oddHeaders_cut]
  · intro b hb code
    rw [heq, DocSection.ofSource] at hb
    obtain ⟨-, hdefinition⟩ := DocSection.definition?_of_mem_cut hb
    rw [hdefinition, Nat.add_sub_cancel, Option.filter_eq_some_iff, DocLine.findSome?_code?_iff,
      DocSection.defines_iff]
  · intro limits file aliases l hl
    rw [LibraryFile.map_name_functions hl, DocSection.ofSource,
      ← DocLine.map_snd_numbered DocLine.name? 1, ← DocSection.blocks_cut, List.map_map]
    rfl

/-- The theorem at a block that leaves its fence open and one with a definition. -/
theorem documents_headers_openFence :
    (∃ b ∈ (readSource (unclosedBlock ++ definedBlock)).blocks,
      b.definition? = some "b = 1;".toList ∧ DocLine.IsFirstCode "b = 1;"
        (((Text.lines (unclosedBlock ++ definedBlock)).map DocLine.classify).drop b.line)) ∧
    ∃ l, LibraryFile.read DocLimits.standard "b.lib" (unclosedBlock ++ definedBlock)
        (OrderedMap.ofList [("b.lib", "fi")]) = .ok l ∧
      l.functions.map Signature.name = ["a".toList, "b".toList] := by
  have hblock : (⟨"b", 3, [], [], OrderedMap.empty, [], some "b = 1;"⟩ : DocBlock) ∈
      (readSource (unclosedBlock ++ definedBlock)).blocks := by decide +kernel
  obtain ⟨l, hl⟩ : ∃ l, LibraryFile.read DocLimits.standard "b.lib" (unclosedBlock ++ definedBlock)
      (OrderedMap.ofList [("b.lib", "fi")]) = .ok l := ⟨_, rfl⟩
  refine ⟨⟨_, hblock, rfl, ?_⟩, l, hl, ?_⟩
  · exact (((documents_headers _).2.2.2.1 _ hblock _).1 rfl).1
  · rw [(documents_headers _).2.2.2.2 _ _ _ _ hl]
    decide +kernel

end DocReader
end DspCheck
