import DspCheck.Library.File

/-!
# Reading documentation in one pass

`DocReader` reads the lines of a library one after the other.  It knows the topic that it is in, if
it is in the documentation of a function at all, whether a fence is open, the block that it is
reading, the block that waits for its definition, and what it has read before.

At most one of the two blocks is there (`DocReader.IsSound`): this is what a line preserves, and by
it a header closes whatever is open as the end of the library would (`feed_of_isHeader`).  Hence
reading starts afresh at every header.

Main statement: `finish_feedAll_append`.
-/

namespace DspCheck

/-- What some lines document. -/
structure Documentation where
  blocks : List DocBlock
  oddHeaders : List OddHeader
  deriving DecidableEq

/-- A block that is being read. -/
structure OpenBlock extends DocBlock where
  /-- Whether some topic was announced, which ends the description for good. -/
  described : Bool

/-- What is known behind a line of a library. -/
structure DocReader extends Documentation where
  /-- The topic of the documentation that the line is in. -/
  topic? : Option Topic
  /-- Whether a fence of backquotes is open. -/
  fenced : Bool
  /-- The block that is being read. -/
  current? : Option OpenBlock
  /-- The block that waits for its definition. -/
  pending? : Option DocBlock

namespace Documentation

/-- Nothing is documented. -/
def empty : Documentation :=
  ⟨[], []⟩

/-- What two runs of lines document, one behind the other. -/
def append (d e : Documentation) : Documentation :=
  ⟨d.blocks ++ e.blocks, d.oddHeaders ++ e.oddHeaders⟩

@[simp] theorem empty_append (d : Documentation) : empty.append d = d := rfl

@[simp] theorem append_empty (d : Documentation) : d.append empty = d := by
  simp [append, empty]

theorem append_assoc (d e f : Documentation) :
    (d.append e).append f = d.append (e.append f) := by
  simp [append]

end Documentation

namespace DocBlock

/-- The block with its header some lines later. -/
def later (lines : Nat) (b : DocBlock) : DocBlock :=
  { b with line := b.line + lines }

/-- The block with a line of code as its definition, if that begins the definition of its name. -/
def define (code : Text) (b : DocBlock) : DocBlock :=
  if DocSection.defines b.name code then { b with definition? := some code } else b

@[simp] theorem later_define (lines : Nat) (code : Text) (b : DocBlock) :
    (b.define code).later lines = (b.later lines).define code := by
  unfold define
  have hname : (b.later lines).name = b.name := rfl
  rw [hname]
  split <;> rfl

end DocBlock

namespace OddHeader

/-- The header some lines later. -/
def later (lines : Nat) (h : OddHeader) : OddHeader :=
  { h with line := h.line + lines }

end OddHeader

namespace Documentation

/-- What the lines document if they stand some lines later. -/
def later (lines : Nat) (d : Documentation) : Documentation :=
  ⟨d.blocks.map (DocBlock.later lines), d.oddHeaders.map (OddHeader.later lines)⟩

end Documentation

namespace DocDraft

theorem topic_readUnderTopic (text : Text) (d : DocDraft) :
    (d.readUnderTopic text).topic = d.topic := by
  unfold readUnderTopic
  dsimp only
  split
  · split <;> rfl
  · split <;> rfl
  · rfl
  · split <;> rfl

theorem fenced_readUnderTopic (text : Text) (d : DocDraft) :
    (d.readUnderTopic text).fenced = d.fenced := by
  unfold readUnderTopic
  dsimp only
  split
  · split <;> rfl
  · split <;> rfl
  · rfl
  · split <;> rfl

end DocDraft

namespace OpenBlock

/-- The block of a header. -/
def start (line : Nat) (name : Text) : OpenBlock :=
  ⟨⟨name, line, [], [], OrderedMap.empty, [], none⟩, false⟩

/-- The block with its header some lines later. -/
def later (lines : Nat) (b : OpenBlock) : OpenBlock :=
  { b with toDocBlock := b.toDocBlock.later lines }

/-- What has been read of the documentation. -/
def draft (topic : Topic) (fenced : Bool) (b : OpenBlock) : DocDraft :=
  ⟨topic, fenced, b.described, b.description, b.usage, b.paramDocs, b.sample⟩

/-- The block with what has been read of its documentation by now. -/
def withDraft (d : DocDraft) (b : OpenBlock) : OpenBlock :=
  { b with
    described := d.described
    description := d.description
    usage := d.usage
    paramDocs := d.paramDocs
    sample := d.sample }

/-- The block when a topic is announced. -/
def announce (b : OpenBlock) : OpenBlock :=
  { b with described := true }

/-- The block with another comment under a topic. -/
def gather (topic : Topic) (fenced : Bool) (text : Text) (b : OpenBlock) : OpenBlock :=
  b.withDraft ((b.draft topic fenced).readUnderTopic text)

end OpenBlock

namespace DocReader

/-- Before the first line. -/
def start : DocReader :=
  ⟨Documentation.empty, none, false, none, none⟩

/-- The block that waits is finished without a definition. -/
def flushPending (r : DocReader) : DocReader :=
  { r with pending? := none, blocks := r.blocks ++ r.pending?.toList }

/-- The block that is being read is closed.  It waits for its definition or is finished without. -/
def closeCurrent (awaits : Bool) (r : DocReader) : DocReader :=
  let closed := { r with topic? := none, fenced := false, current? := none }
  match r.current? with
  | none => closed
  | some b =>
      if awaits then { closed.flushPending with pending? := some b.toDocBlock }
      else { closed with blocks := r.blocks ++ [b.toDocBlock] }

/-- The block that waits is finished at a line of code. -/
def attachDefinition (code : Text) (r : DocReader) : DocReader :=
  match r.pending? with
  | none => r
  | some b => { r with pending? := none, blocks := r.blocks ++ [b.define code] }

/-- A block is opened at its header. -/
def openBlock (number : Nat) (name : Text) (r : DocReader) : DocReader :=
  { r with current? := some (OpenBlock.start number name), topic? := some .description }

/-- Behind a comment in the documentation of a function. -/
def comment (text : Text) (r : DocReader) : DocReader :=
  let line := Text.trim text
  if Text.startsWith "```" line then { r with fenced := !r.fenced }
  else
    match if r.fenced then none else DocDraft.announced? line with
    | some topic => { r with topic? := some topic, current? := r.current?.map OpenBlock.announce }
    | none =>
        match r.topic? with
        | none => r
        | some topic =>
            { r with current? := r.current?.map (OpenBlock.gather topic r.fenced text) }

/-- Behind a line with a given number. -/
def feed (number : Nat) (l : DocLine) (r : DocReader) : DocReader :=
  match l with
  | .header name => ((r.closeCurrent false).flushPending).openBlock number name
  | .oddHeader text =>
      let closed := (r.closeCurrent false).flushPending
      { closed with oddHeaders := closed.oddHeaders ++ [⟨number, text⟩] }
  | .rule | .blank => if r.topic?.isSome && !r.fenced then r.closeCurrent true else r
  | .code text => (if r.topic?.isSome then r.closeCurrent true else r).attachDefinition text
  | .comment text => if r.topic?.isSome then r.comment text else r

/-- Behind some lines, of which the first has a given number. -/
def feedAll (number : Nat) (r : DocReader) : List DocLine → DocReader
  | [] => r
  | l :: ls => feedAll (number + 1) (r.feed number l) ls

/-- What has been read when the lines end. -/
def finish (r : DocReader) : Documentation :=
  ((r.closeCurrent true).flushPending).toDocumentation

/-- What lines document. -/
def readLines (lines : List Text) : Documentation :=
  (start.feedAll 1 (lines.map DocLine.classify)).finish

/-- What a library documents. -/
def readSource (source : Text) : Documentation :=
  readLines (Text.lines source)

/-! ## What lines preserve -/

/-- Between blocks: what has been read, and the block that waits for its definition. -/
def idle (d : Documentation) (pending? : Option DocBlock) : DocReader :=
  ⟨d, none, false, none, pending?⟩

/-- In the documentation of a function. -/
def reading (d : Documentation) (topic : Topic) (fenced : Bool) (b : OpenBlock) : DocReader :=
  ⟨d, some topic, fenced, some b, none⟩

/-- A block is being read or a block waits for its definition, never both. -/
inductive IsSound : DocReader → Prop
  | idle (d : Documentation) (pending? : Option DocBlock) : IsSound (idle d pending?)
  | reading (d : Documentation) (topic : Topic) (fenced : Bool) (b : OpenBlock) :
      IsSound (reading d topic fenced b)

theorem isSound_start : start.IsSound :=
  .idle Documentation.empty none

section Steps

variable (d : Documentation) (topic : Topic) (fenced : Bool) (b : OpenBlock) (number : Nat)

theorem feed_code_idle (pending? : Option DocBlock) (code : Text) :
    (idle d pending?).feed number (.code code) =
      idle { d with blocks := d.blocks ++ (pending?.map (DocBlock.define code)).toList } none := by
  cases pending? with
  | none =>
      simp [idle, feed, attachDefinition]
  | some p =>
      rfl

theorem feed_code_reading (code : Text) :
    (reading d topic fenced b).feed number (.code code) =
      idle { d with blocks := d.blocks ++ [b.toDocBlock.define code] } none := by
  simp [reading, idle, feed, closeCurrent, flushPending, attachDefinition]

/-- A comment is read as the draft of the block reads it. -/
theorem feed_comment_reading (text : Text) :
    (reading d topic fenced b).feed number (.comment text) =
      reading d ((b.draft topic fenced).read text).topic ((b.draft topic fenced).read text).fenced
        (b.withDraft ((b.draft topic fenced).read text)) := by
  have hgather : reading d topic fenced (b.gather topic fenced text) =
      reading d ((b.draft topic fenced).readUnderTopic text).topic
        ((b.draft topic fenced).readUnderTopic text).fenced (b.gather topic fenced text) := by
    rw [DocDraft.topic_readUnderTopic, DocDraft.fenced_readUnderTopic]
    rfl
  have hfeed : (reading d topic fenced b).feed number (.comment text) =
      (reading d topic fenced b).comment text := rfl
  rw [hfeed, comment, DocDraft.read]
  split
  · rfl
  · cases fenced with
    | true =>
        exact hgather
    | false =>
        cases ha : DocDraft.announced? (Text.trim text) with
        | some next =>
            simp [reading, OpenBlock.draft, OpenBlock.withDraft, OpenBlock.announce]
        | none =>
            simpa [reading, OpenBlock.draft, OpenBlock.gather, ha] using hgather

/-- A blank line or a rule ends the documentation, unless a fence is open. -/
theorem feed_gap_reading {l : DocLine} (hl : l = .blank ∨ l = .rule) :
    (reading d topic fenced b).feed number l =
      if fenced then reading d topic fenced b else idle d (some b.toDocBlock) := by
  rcases hl with rfl | rfl <;> cases fenced <;>
    simp [reading, idle, feed, closeCurrent, flushPending]

end Steps

/-- A header closes what is open as the end of the lines would. -/
theorem feed_of_isHeader {r : DocReader} (hr : r.IsSound) {l : DocLine} (hl : l.isHeader = true)
    (number : Nat) : r.feed number l = (idle r.finish none).feed number l := by
  cases hr with
  | idle d pending? =>
      cases l with
      | header name =>
          simp [idle, feed, finish, closeCurrent, flushPending]
      | oddHeader text =>
          simp [idle, feed, finish, closeCurrent, flushPending]
      | _ =>
          cases hl
  | reading d topic fenced b =>
      cases l with
      | header name =>
          simp [idle, reading, feed, finish, closeCurrent, flushPending]
      | oddHeader text =>
          simp [idle, reading, feed, finish, closeCurrent, flushPending]
      | _ =>
          cases hl

/-- No line breaks the soundness of a reader. -/
theorem IsSound.feed {r : DocReader} (hr : r.IsSound) (number : Nat) (l : DocLine) :
    (r.feed number l).IsSound := by
  by_cases hl : l.isHeader = true
  · rw [feed_of_isHeader hr hl]
    cases l with
    | header name =>
        exact .reading ⟨r.finish.blocks ++ [], r.finish.oddHeaders⟩ _ _ _
    | oddHeader text =>
        exact .idle ⟨r.finish.blocks ++ [], r.finish.oddHeaders ++ [⟨number, text⟩]⟩ none
    | _ =>
        cases hl
  · cases hr with
    | idle d pending? =>
        cases l with
        | code code =>
            rw [feed_code_idle]
            exact .idle _ none
        | header name =>
            exact absurd rfl hl
        | oddHeader text =>
            exact absurd rfl hl
        | _ =>
            exact .idle d pending?
    | reading d topic fenced b =>
        have gap : ∀ {l : DocLine}, l = .blank ∨ l = .rule →
            ((DocReader.reading d topic fenced b).feed number l).IsSound := by
          intro l hl
          rw [feed_gap_reading d topic fenced b number hl]
          split
          · exact .reading d topic fenced b
          · exact .idle d _
        cases l with
        | blank =>
            exact gap (Or.inl rfl)
        | rule =>
            exact gap (Or.inr rfl)
        | code code =>
            rw [feed_code_reading]
            exact .idle _ none
        | comment text =>
            rw [feed_comment_reading]
            exact .reading d _ _ _
        | header name =>
            exact absurd rfl hl
        | oddHeader text =>
            exact absurd rfl hl

/-- No run of lines breaks the soundness of a reader. -/
theorem IsSound.feedAll {r : DocReader} (hr : r.IsSound) (number : Nat) (ls : List DocLine) :
    (r.feedAll number ls).IsSound := by
  induction ls generalizing r number with
  | nil =>
      exact hr
  | cons l ls ih =>
      exact ih (hr.feed number l) (number + 1)

theorem feedAll_append (r : DocReader) (number : Nat) (ls ms : List DocLine) :
    r.feedAll number (ls ++ ms) = (r.feedAll number ls).feedAll (number + ls.length) ms := by
  induction ls generalizing r number with
  | nil =>
      rfl
  | cons l ls ih =>
      rw [List.cons_append, feedAll, ih, feedAll, List.length_cons, Nat.add_assoc,
        Nat.add_comm 1]

/-! ## Reading afresh -/

/-- The reader some lines later, behind what other lines document. -/
def behind (d : Documentation) (lines : Nat) (r : DocReader) : DocReader :=
  { r with
    toDocumentation := d.append (r.toDocumentation.later lines)
    current? := r.current?.map (OpenBlock.later lines)
    pending? := r.pending?.map (DocBlock.later lines) }

section Behind

variable (d : Documentation) (lines : Nat) (r : DocReader)

theorem flushPending_behind :
    (r.behind d lines).flushPending = (r.flushPending).behind d lines := by
  cases hr : r.pending? <;>
    simp [flushPending, behind, hr, Documentation.append, Documentation.later]

theorem closeCurrent_behind (awaits : Bool) :
    (r.behind d lines).closeCurrent awaits = (r.closeCurrent awaits).behind d lines := by
  cases hr : r.current? with
  | none =>
      simp [closeCurrent, behind, hr]
  | some b =>
      cases awaits <;> cases hp : r.pending? <;>
        simp [closeCurrent, flushPending, behind, hr, hp, Documentation.append,
          Documentation.later, OpenBlock.later]

theorem attachDefinition_behind (code : Text) :
    (r.behind d lines).attachDefinition code = (r.attachDefinition code).behind d lines := by
  cases hr : r.pending? with
  | none =>
      simp [attachDefinition, behind, hr]
  | some b =>
      simp [attachDefinition, behind, hr, Documentation.append, Documentation.later]

theorem comment_behind (text : Text) :
    (r.behind d lines).comment text = (r.comment text).behind d lines := by
  unfold comment
  dsimp only
  split
  · rfl
  have hfenced : (r.behind d lines).fenced = r.fenced := rfl
  have htopic : (r.behind d lines).topic? = r.topic? := rfl
  rw [hfenced, htopic]
  split
  · cases hr : r.current? <;> simp [behind, hr, OpenBlock.later, OpenBlock.announce]
  · split
    · rfl
    · cases hr : r.current? <;> simp [behind, hr]
      rfl

/-- Reading a line goes on in the same way some lines later and behind other documentation. -/
theorem feed_behind (number : Nat) (l : DocLine) :
    (r.behind d lines).feed (number + lines) l = (r.feed number l).behind d lines := by
  have htopic : (r.behind d lines).topic? = r.topic? := rfl
  have hfenced : (r.behind d lines).fenced = r.fenced := rfl
  cases l with
  | header name =>
      rw [feed, feed, closeCurrent_behind, flushPending_behind]
      rfl
  | oddHeader text =>
      rw [feed, feed, closeCurrent_behind, flushPending_behind]
      simp [behind, Documentation.append, Documentation.later, OddHeader.later]
  | blank =>
      simp only [feed, htopic, hfenced, closeCurrent_behind]
      split <;> rfl
  | rule =>
      simp only [feed, htopic, hfenced, closeCurrent_behind]
      split <;> rfl
  | code text =>
      simp only [feed, htopic, closeCurrent_behind]
      split <;> rw [attachDefinition_behind]
  | comment text =>
      simp only [feed, htopic, comment_behind]
      split <;> rfl

theorem feedAll_behind (number : Nat) (ls : List DocLine) :
    (r.behind d lines).feedAll (number + lines) ls = (r.feedAll number ls).behind d lines := by
  induction ls generalizing r number with
  | nil =>
      rfl
  | cons l ls ih =>
      rw [feedAll, feed_behind, feedAll, ← ih, Nat.add_right_comm]

theorem finish_behind : (r.behind d lines).finish = d.append (r.finish.later lines) := by
  rw [finish, closeCurrent_behind, flushPending_behind]
  rfl

end Behind

theorem isSound_feedAll_start (ls : List DocLine) : (start.feedAll 1 ls).IsSound :=
  isSound_start.feedAll 1 ls

/-- From a header on, lines document what they do at the start of a library. -/
theorem finish_feedAll_append {l : DocLine} (hl : l.isHeader = true) (before ls : List DocLine) :
    (start.feedAll 1 (before ++ l :: ls)).finish =
      (start.feedAll 1 before).finish.append
        ((start.feedAll 1 (l :: ls)).finish.later before.length) := by
  have hidle : ∀ d : Documentation, idle d none = start.behind d before.length := by
    intro d
    simp [idle, start, DocReader.behind, Documentation.append, Documentation.later,
      Documentation.empty]
  rw [feedAll_append, feedAll, feed_of_isHeader (isSound_feedAll_start before) hl, hidle,
    ← feedAll, feedAll_behind, finish_behind]

end DocReader
end DspCheck
