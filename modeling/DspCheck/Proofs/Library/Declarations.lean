import DspCheck.Check.Bindings
import DspCheck.Proofs.Bytewise.Text
import DspCheck.Proofs.Library.Alias
import DspCheck.Proofs.Source.Masking
import DspCheck.Proofs.Source.Pieces

/-!
# Declarations of libraries

A binding such as `fi = library("filters.lib");` declares a short name of a library.  It is read in
two ways.  `Library.aliases` reads each line as it is written.  `Line.bindings` reads the statements
of masked lines, and `Library.declarations` are those of them whose value loads a file.

In programs without comments and backslashes both read the first statement of a line alike
(`Line.IsPlain.alias?_text`).  But the first way sees no other statement: it finds the declarations
that lead their lines, and no others.

Main statements: `aliases_eq`, and `not_forall_aliases_eq` for a declaration behind another
statement.
-/

namespace DspCheck

namespace Text

/-- No line of a text has a comment. -/
def IsUncommented (source : Text) : Prop :=
  ∀ raw ∈ rawLines source, Mode.code.meetsComment (dropReturn raw) = false

instance (source : Text) : Decidable (IsUncommented source) :=
  List.decidableBAll _ _

end Text

/-- A binding that declares a library, with its line and its file. -/
structure Declaration where
  line : Line
  binding : Binding
  file : Text

namespace Declaration

/-- The file and the short name that it has. -/
def entry (d : Declaration) : Text × Text :=
  (d.file, d.binding.name)

/-- Whether only blanks stand before the name on the line. -/
def leadsLine (d : Declaration) : Bool :=
  (Text.upTo? d.binding.nameStart d.line.text).any Text.isAllBlank

end Declaration

namespace Line

/-- The file that the value of a binding loads.  The masked line shows the form of the value, and
the line itself the name of the file. -/
def loadedFile? (l : Line) (b : Binding) : Option Text := do
  let _ ← Library.loadedFile? b.value
  let value ← Text.from? b.valueStart l.text
  Library.loadedFile? value

/-- The declaration that a binding of a line is. -/
def declaration? (l : Line) (b : Binding) : Option Declaration :=
  (l.loadedFile? b).map fun file => ⟨l, b, file⟩

/-- The bindings of a line that declare libraries. -/
def declarations (l : Line) : List Declaration :=
  l.bindings.filterMap l.declaration?

/-- A line that starts in code and has neither comments nor backslashes. -/
structure IsPlain (l : Line) : Prop where
  code_eq : l.code = Text.mask .code l.text
  uncommented : Mode.code.meetsComment l.text = false
  backslash_notMem : '\\' ∉ l.text

end Line

/-- In code a declaration is left alone up to the quotes, and the name of the file is hidden. -/
theorem Library.IsFront.masksAs {front file : Text} {depth : Nat} {b : Binding}
    (h : IsFront front depth b) (hclosed : '"' ∉ file) (hbackslash : '\\' ∉ file) :
    Text.MasksAs (front ++ '"' :: (file ++ ['"']))
      (front ++ '"' :: (List.replicate (Text.byteSize file) ' ' ++ ['"'])) := by
  have hchars : ∀ c ∈ front, c ≠ '"' ∧ c ≠ '/' := fun c hc =>
    ⟨fun hquote => h.notMem (by decide) (hquote ▸ hc),
      fun hslash => h.notMem (by decide) (hslash ▸ hc)⟩
  have hcontent : ∀ c ∈ file, c ≠ '"' ∧ c ≠ '\\' := fun c hc =>
    ⟨fun hquote => hclosed (hquote ▸ hc), fun hslash => hbackslash (hslash ▸ hc)⟩
  exact (Text.masksAs_self hchars).append (Text.masksAs_literal hcontent)

/-- The value of a binding stands in its statement at its position. -/
theorem Statement.from?_valueStart {t : Text} {depth : Nat} {b : Binding}
    (h : binding? ⟨0, depth, t⟩ = some b) : Text.from? b.valueStart t = some b.value := by
  obtain ⟨indent, gap, pad, htext, -, -, hstart⟩ := exists_of_binding? h
  have hsplit : t = indent ++ b.name ++ gap ++ '=' :: pad ++ b.value := by
    rw [List.append_assoc, List.cons_append]
    exact htext
  rw [Nat.zero_add] at hstart
  rw [hstart, hsplit]
  exact Text.from?_append _ _

namespace Line

variable {l : Line} {s : Statement} {ss : List Statement}

/-- A declaration that is read off the line as it is written is the first piece of the masked
line. -/
theorem IsPlain.exists_binding? (hl : l.IsPlain) (hcut : Statement.Cut [] l.depth (s :: ss) l.code)
    {b : Binding} {file : Text} (hb : Statement.binding? ⟨0, l.depth, l.text⟩ = some b)
    (hfile : Library.loadedFile? b.value = some file) :
    ∃ value, s.binding? = some { b with value } ∧ l.loadedFile? { b with value } = some file := by
  obtain ⟨front, rest, htext, hclosed, hfront⟩ := Library.exists_isFront hb hfile
  have hbackslash : '\\' ∉ file := fun h => hl.backslash_notMem (by simp [htext, h])
  have hcode : l.code = front ++ '"' :: (List.replicate (Text.byteSize file) ' ' ++ ['"']) ++
      Text.mask .code rest := by
    rw [hl.code_eq, htext]
    simpa using (hfront.masksAs hclosed hbackslash rest).1
  have hends : ∀ c ∈ front ++ '"' :: (List.replicate (Text.byteSize file) ' ' ++ ['"']),
      Statement.isEnd c = false := by
    intro c hc
    rw [List.mem_append, List.mem_cons, List.mem_append, List.mem_singleton] at hc
    rcases hc with hc | rfl | hc | rfl
    · exact hfront.not_isEnd hc
    · rfl
    · rw [List.eq_of_mem_replicate hc]
      rfl
    · rfl
  obtain ⟨u, hu⟩ := hcut.exists_first hcode hends
  obtain ⟨value, hbind, hload⟩ := hfront.binding (List.replicate (Text.byteSize file) ' ') u
    (fun h => absurd (List.eq_of_mem_replicate h) (by decide))
  refine ⟨value, ?_, ?_⟩
  · rw [hcut.head_eq, hu]
    simpa using hbind
  · simp only [loadedFile?, hload, Option.bind_eq_bind, Option.bind_some]
    rw [Statement.from?_valueStart hb, Option.bind_some, hfile]

/-- The first piece of the masked line, if it is a binding, stands in the line itself up to its
value. -/
theorem IsPlain.exists_text_eq (hl : l.IsPlain)
    (hcut : Statement.Cut [] l.depth (s :: ss) l.code) {b : Binding} {indent gap pad : Text}
    (hbinds : s.Binds b indent gap pad) :
    ∃ value, l.text = indent ++ b.name ++ gap ++ '=' :: (pad ++ value) := by
  obtain ⟨rest, hrest⟩ := hcut.exists_append
  have hcode : Text.mask .code l.text =
      indent ++ b.name ++ gap ++ '=' :: pad ++ (b.value ++ rest) := by
    rw [← hl.code_eq, hrest, hbinds.text]
    simp
  have hquote : '"' ∉ indent ++ b.name ++ gap ++ '=' :: pad := by
    rw [List.mem_append, List.mem_cons]
    rintro (h | h | h)
    · exact hbinds.notMem rfl rfl h
    · cases h
    · exact absurd (hbinds.blank_pad _ h) (by decide)
  obtain ⟨value, htext, -⟩ := Text.exists_append_of_mask_eq hcode hquote hl.uncommented
  refine ⟨value, ?_⟩
  rw [htext]
  simp

/-- The first piece of the masked line, if it declares a library, is read off the line as it is
written. -/
theorem IsPlain.exists_binding?_text (hl : l.IsPlain)
    (hcut : Statement.Cut [] l.depth (s :: ss) l.code) {b : Binding} {file : Text}
    (hb : s.binding? = some b) (hfile : l.loadedFile? b = some file) :
    ∃ value, Statement.binding? ⟨0, l.depth, l.text⟩ = some { b with value } ∧
      Library.loadedFile? value = some file := by
  obtain ⟨indent, gap, pad, hbinds⟩ := Statement.exists_binds_of_binding? hb
  obtain ⟨value, htext⟩ := hl.exists_text_eq hcut hbinds
  have hstart : s.start = 0 := hcut.isPiece.start
  have hload : Library.loadedFile? value = some file := by
    simp only [loadedFile?, Option.bind_eq_bind, Option.bind_eq_some_iff] at hfile
    obtain ⟨_, -, value', hfrom, hload⟩ := hfile
    have hline : l.text = indent ++ b.name ++ gap ++ '=' :: pad ++ value := by
      rw [htext]
      simp
    rw [hbinds.valueStart, hstart, Nat.zero_add, hline, Text.from?_append] at hfrom
    obtain rfl := Option.some.inj hfrom
    exact hload
  obtain ⟨_, _, _, hloads⟩ := Library.loadedFile?_eq_some_iff.1 hload
  have hb' := (hbinds.withValue htext hloads.endsAt hloads.head?_ne).binding?_eq
  rw [hstart, hcut.isPiece.depth] at hb'
  exact ⟨value, hb', hload⟩

/-- Only blanks stand before the name in the first piece. -/
theorem IsPlain.leadsLine_eq_true (hl : l.IsPlain)
    (hcut : Statement.Cut [] l.depth (s :: ss) l.code) {b : Binding} (hb : s.binding? = some b)
    (file : Text) : Declaration.leadsLine ⟨l, b, file⟩ = true := by
  obtain ⟨indent, gap, pad, hbinds⟩ := Statement.exists_binds_of_binding? hb
  obtain ⟨value, htext⟩ := hl.exists_text_eq hcut hbinds
  have hstart : s.start = 0 := hcut.isPiece.start
  have hline : l.text = indent ++ (b.name ++ gap ++ '=' :: (pad ++ value)) := by
    rw [htext]
    simp
  have hbefore : Text.upTo? b.nameStart l.text = some indent := by
    rw [hbinds.nameStart, hstart, Nat.zero_add, hline, Text.upTo?_append]
  rw [Declaration.leadsLine, hbefore]
  exact List.all_eq_true.2 hbinds.blank_indent

/-- The names in all other pieces stand behind a character that is no blank. -/
theorem IsPlain.leadsLine_eq_false (hl : l.IsPlain)
    (hcut : Statement.Cut [] l.depth (s :: ss) l.code) {s' : Statement} (hs : s' ∈ ss)
    {b : Binding} (hb : s'.binding? = some b) (file : Text) :
    Declaration.leadsLine ⟨l, b, file⟩ = false := by
  obtain ⟨front, c, rest, hcode, hend, hle⟩ := hcut.exists_end hs
  have hblank : Text.isBlank c = false ∧ c ≠ ' ' := by
    rcases Statement.cases_of_isEnd hend with rfl | rfl | rfl <;> decide
  rw [hl.code_eq] at hcode
  obtain ⟨front', rest', -, htext, hsize, -⟩ := Text.exists_of_mask_eq_cons hcode hblank.2
  obtain ⟨indent, _, _, -, -, hstart, -⟩ := Statement.exists_of_binding? hb
  obtain ⟨k, hk⟩ : ∃ k, b.nameStart = Text.byteSize (front' ++ [c]) + k := by
    refine Nat.exists_eq_add_of_le ?_
    rw [List.nil_append, Text.byteSize_append, ← hsize, ← Text.byteSize_append] at hle
    omega
  have hline : l.text = front' ++ [c] ++ rest' := by
    rw [htext]
    simp
  rw [Declaration.leadsLine]
  dsimp only
  rw [hk, hline, Text.upTo?_append_add]
  cases Text.upTo? k rest' with
  | none =>
      rfl
  | some before =>
      simp [Text.isAllBlank, hblank.1]

/-- What is read off a line as it is written is the declaration that its first piece is. -/
theorem IsPlain.alias?_text (hl : l.IsPlain)
    (hcut : Statement.Cut [] l.depth (s :: ss) l.code) :
    Library.alias? l.text = (s.binding?.bind l.declaration?).map Declaration.entry := by
  refine Option.ext fun e => ?_
  rw [Option.map_eq_some_iff]
  constructor
  · intro h
    obtain ⟨file, name⟩ := e
    obtain ⟨b, hb, rfl, hfile⟩ := Library.exists_binding?_of_alias? h l.depth
    obtain ⟨value, hb', hfile'⟩ := hl.exists_binding? hcut hb hfile
    refine ⟨⟨l, { b with value }, file⟩, ?_, rfl⟩
    rw [hb', Option.bind_some, declaration?, hfile']
    rfl
  · rintro ⟨d, hd, rfl⟩
    obtain ⟨b, hb, hload⟩ := Option.bind_eq_some_iff.1 hd
    obtain ⟨file, hfile, rfl⟩ := Option.map_eq_some_iff.1 hload
    obtain ⟨value, hb', hfile'⟩ := hl.exists_binding?_text hcut hb hfile
    have halias := Library.alias?_of_binding? hb' hfile'
    exact halias

/-- What is read off a line as it is written is the declaration that leads it. -/
theorem IsPlain.map_entry_declarations (hl : l.IsPlain) :
    (l.declarations.filter Declaration.leadsLine).map Declaration.entry =
      (Library.alias? l.text).toList := by
  obtain ⟨s, ss, hpieces⟩ := List.exists_cons_of_ne_nil
    (Statement.piecesFrom_ne_nil 0 l.depth 0 l.code)
  have hcut : Statement.Cut [] l.depth (s :: ss) l.code := by
    rw [← hpieces]
    exact Statement.cut_piecesFrom [] l.depth l.code
  have hlater : (ss.filterMap fun s' => s'.binding?.bind l.declaration?).filter
      Declaration.leadsLine = [] := by
    rw [List.filter_eq_nil_iff]
    intro d hd
    obtain ⟨s', hs', hbind⟩ := List.mem_filterMap.1 hd
    obtain ⟨b, hb, hload⟩ := Option.bind_eq_some_iff.1 hbind
    obtain ⟨file, -, rfl⟩ := Option.map_eq_some_iff.1 hload
    simp [hl.leadsLine_eq_false hcut hs' hb file]
  rw [hl.alias?_text hcut, declarations, bindings_eq, hpieces, List.filterMap_filterMap]
  cases hfirst : s.binding?.bind l.declaration? with
  | none =>
      rw [List.filterMap_cons, hfirst]
      dsimp only
      rw [hlater]
      rfl
  | some d =>
      obtain ⟨b, hb, hload⟩ := Option.bind_eq_some_iff.1 hfirst
      obtain ⟨file, -, rfl⟩ := Option.map_eq_some_iff.1 hload
      have hleads := hl.leadsLine_eq_true hcut hb file
      rw [List.filterMap_cons, hfirst]
      dsimp only
      rw [List.filter_cons_of_pos hleads, hlater]
      rfl

/-- Lines without comments and backslashes are read one by one. -/
theorem flatMap_linesFrom {raws : List Text}
    (hcomment : ∀ raw ∈ raws, Mode.code.meetsComment (Text.dropReturn raw) = false)
    (hbackslash : ∀ raw ∈ raws, '\\' ∉ raw) (number offset depth : Nat) :
    (linesFrom number offset depth .code raws).flatMap
        (fun l => (l.declarations.filter Declaration.leadsLine).map Declaration.entry) =
      raws.filterMap fun raw => Library.alias? (Text.dropReturn raw) := by
  induction raws generalizing number offset depth with
  | nil =>
      rfl
  | cons raw raws ih =>
      rw [List.forall_mem_cons] at hcomment hbackslash
      rw [linesFrom, Mode.nextLine_after_of_not_meetsComment hcomment.1, List.flatMap_cons,
        ih hcomment.2 hbackslash.2, IsPlain.map_entry_declarations
          ⟨rfl, hcomment.1, Text.notMem_dropReturn hbackslash.1⟩, List.filterMap_cons]
      cases Library.alias? (Text.dropReturn raw) <;> rfl

end Line

namespace Library

/-- The bindings of a program that declare libraries. -/
def declarations (source : Text) : List Declaration :=
  (Line.ofSource source).flatMap Line.declarations

/-- A declaration makes its name a local library. -/
theorem isLibrary_of_mem_declarations {source : Text} {d : Declaration}
    (h : d ∈ declarations source) : d.binding.isLibrary = true := by
  obtain ⟨l, -, hd⟩ := List.mem_flatMap.1 h
  obtain ⟨b, -, hload⟩ := List.mem_filterMap.1 hd
  obtain ⟨file, hfile, rfl⟩ := Option.map_eq_some_iff.1 hload
  simp only [Line.loadedFile?, Option.bind_eq_bind, Option.bind_eq_some_iff] at hfile
  obtain ⟨shown, hshown, -⟩ := hfile
  obtain ⟨pad, _, _, hloads⟩ := loadedFile?_eq_some_iff.1 hshown
  have hvalue := hloads.text
  rw [List.append_assoc] at hvalue
  rw [Binding.isLibrary, Text.startsWithWord, hvalue, Text.after?_append, Bool.or_eq_true]
  refine Or.inl ?_
  cases pad with
  | nil =>
      rfl
  | cons c pad =>
      have hpart := Ident.not_isPart_of_isBlank (hloads.blank_pad c List.mem_cons_self)
      simp [hpart]

/-- In a program without comments and backslashes, the files that are given short names are those of
the declarations that lead their lines, in their order.  These are all declarations if and only if
each of them leads its line. -/
theorem aliases_eq {source : Text} (hcomment : Text.IsUncommented source)
    (hbackslash : '\\' ∉ source) :
    aliases source =
        ((declarations source).filter Declaration.leadsLine).map Declaration.entry ∧
      (∀ d ∈ declarations source, d.binding.isLibrary = true) ∧
      (aliases source = (declarations source).map Declaration.entry ↔
        ∀ d ∈ declarations source, d.leadsLine = true) := by
  have hleading : aliases source =
      ((declarations source).filter Declaration.leadsLine).map Declaration.entry := by
    have hraws : ∀ raw ∈ Text.rawLines source, '\\' ∉ raw := by
      intro raw hraw hmem
      have hpart := Text.isInfix_join_of_mem "\n" hraw
      rw [Text.join_rawLines] at hpart
      exact hbackslash (hpart.subset hmem)
    rw [aliases, Text.lines, filterMap_alias?_linesOf, declarations, List.filter_flatMap,
      List.map_flatMap]
    exact (Line.flatMap_linesFrom hcomment hraws 1 0 0).symm
  refine ⟨hleading, fun _ => isLibrary_of_mem_declarations, ?_⟩
  rw [hleading]
  constructor
  · intro h
    have hlength := congrArg List.length h
    rw [List.length_map, List.length_map] at hlength
    exact List.length_filter_eq_length_iff.1 hlength
  · intro h
    rw [List.filter_eq_self.2 h]

/-- A program with two declarations on one line. -/
def twoDeclarations : Text :=
  "fi = library(\"filters.lib\"); ma = library(\"maths.lib\");\n"

theorem aliases_twoDeclarations :
    aliases twoDeclarations = ([("filters.lib", "fi")] : List (Text × Text)) := by
  decide

theorem map_entry_twoDeclarations :
    (declarations twoDeclarations).map Declaration.entry =
      ([("filters.lib", "fi"), ("maths.lib", "ma")] : List (Text × Text)) := by
  decide

/-- Where lines are read as they are written, only the first declaration of a line is seen. -/
theorem not_forall_leadsLine_twoDeclarations :
    ¬ ∀ d ∈ declarations twoDeclarations, d.leadsLine = true := by
  rw [← (@aliases_eq twoDeclarations (by decide) (by decide)).2.2, aliases_twoDeclarations,
    map_entry_twoDeclarations]
  decide

/-- So not every declaration of a program is seen there. -/
theorem not_forall_aliases_eq :
    ¬ ∀ source : Text, Text.IsUncommented source → '\\' ∉ source →
      aliases source = (declarations source).map Declaration.entry := by
  intro h
  have heq := h "x = 1; fi = library(\"filters.lib\");" (by decide) (by decide)
  exact absurd heq (by decide)

end Library

end DspCheck
