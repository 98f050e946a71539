import DspCheck.Proofs.Check.Verdict
import DspCheck.Proofs.Source.Blanking
import DspCheck.Proofs.Source.Pieces
import DspCheck.Proofs.Source.Program

/-!
# What stands at the top level

Depths are counted twice: over the lines of a program, all braces of a line at once, and over the
pieces of a line, where braces inside parentheses do not count.  `Text.depthBefore` counts once,
over the whole blanked program.  Where no line has a brace inside parentheses, all of them agree:
each statement and each binding has the depth of its place in the program.

So the diagnostic about the entry point says of such a program exactly that nothing binds its name
outside of all braces.

Main statement: `depth_statements_eq_depthBefore`.
-/

namespace DspCheck

/-- The depth of the place before a byte of a program: that of counting the braces of the blanked
program. -/
def Text.depthBefore (source : Text) (position : Nat) : Nat :=
  ((blank source).take (scalarsBefore (blank source) position)).foldl depthAfter 0

namespace Text

theorem depthBefore_of_blank_eq {source front behind : Text} (h : blank source = front ++ behind) :
    depthBefore source (byteSize front) = front.foldl depthAfter 0 := by
  rw [depthBefore, h, scalarsBefore_append, List.take_left]

theorem foldl_depthAfter_lineEnd (raw : Text) (depth : Nat) :
    (lineEnd raw).foldl depthAfter depth = depth := by
  unfold lineEnd
  split <;> rfl

end Text

namespace Line

open Text

/-- A line stands in the blanked program behind as many bytes as its offset says, at the depth of
counting the braces before it. -/
theorem exists_of_mem_linesFrom {number offset depth : Nat} {mode : Mode} {raws : List Text}
    {l : Line} (hl : l ∈ linesFrom number offset depth mode raws) :
    ∃ front behind,
      join "\n" (blankedParts number offset depth mode raws) = front ++ l.code ++ behind ∧
        l.offset = offset + byteSize front ∧ l.depth = front.foldl depthAfter depth := by
  induction raws generalizing number offset depth mode with
  | nil =>
      cases hl
  | cons raw raws ih =>
      rw [blankedParts_cons]
      rcases List.mem_cons.1 hl with rfl | hl
      · refine ⟨[], lineEnd raw ++ (blankedParts (number + 1) (offset + byteSize raw + 1)
          ((mask mode (dropReturn raw)).foldl depthAfter depth)
          (mode.after (dropReturn raw)).nextLine raws).flatMap (("\n" : Text) ++ ·), ?_, rfl, rfl⟩
        rw [join_cons, List.append_assoc]
        rfl
      · obtain ⟨front, behind, hjoin, hoffset, hdepth⟩ := ih hl
        obtain ⟨next, raws, rfl⟩ := List.exists_cons_of_ne_nil (l := raws) (by rintro rfl; cases hl)
        rw [blankedParts_cons] at hjoin ⊢
        refine ⟨mask mode (dropReturn raw) ++ lineEnd raw ++ '\n' :: front, behind, ?_, ?_, ?_⟩
        · rw [join_cons_cons, hjoin]
          simp
        · rw [hoffset, byteSize_append, byteSize_blanked, byteSize_cons]
          have hnewline : Char.utf8Size '\n' = 1 := by decide
          omega
        · rw [hdepth, List.foldl_append, List.foldl_append, foldl_depthAfter_lineEnd,
            List.foldl_cons]
          rfl

/-- A place of a line behind a part of it has the depth of counting on from the start of the
line. -/
theorem depthBefore_of_mem_ofSource {source : Text} {l : Line} (hl : l ∈ ofSource source)
    {front rest : Text} (hcode : l.code = front ++ rest) :
    depthBefore source (l.offset + byteSize front) = front.foldl depthAfter l.depth := by
  obtain ⟨before, behind, hjoin, hoffset, hdepth⟩ := exists_of_mem_linesFrom hl
  have hblank : blank source = (before ++ front) ++ (rest ++ behind) := by
    rw [blank, ← List.append_assoc, List.append_assoc before, ← hcode]
    exact hjoin
  rw [hoffset, Nat.zero_add, ← byteSize_append, depthBefore_of_blank_eq hblank, List.foldl_append,
    hdepth]

/-- No brace of a line stands inside parentheses. -/
def BracesOutside (l : Line) : Prop :=
  Statement.BracesOutside [] l.code

instance : DecidablePred BracesOutside := fun l =>
  inferInstanceAs (Decidable (Statement.BracesOutside [] l.code))

/-- The statements of a line are the pieces of its cut that are not blank. -/
theorem exists_cut (l : Line) :
    ∃ pieces, Statement.Cut [] l.depth pieces l.code ∧
      l.statements = pieces.filter fun s => !isAllBlank s.text :=
  ⟨_, Statement.cut_piecesFrom [] l.depth l.code, rfl⟩

theorem pairwise_statements (l : Line) :
    l.statements.Pairwise fun s s' => s.start + byteSize s.text < s'.start :=
  (Statement.cut_piecesFrom [] l.depth l.code).pairwise.filter _

/-- Where no brace stands inside parentheses, a statement has no braces and the depth of its
place. -/
theorem depth_of_mem_statements {source : Text} {l : Line} (hl : l ∈ ofSource source)
    (hbraces : l.BracesOutside) {s : Statement} (hs : s ∈ l.statements) {front rest : Text}
    (htext : s.text = front ++ rest) :
    depthBefore source (l.offset + (s.start + byteSize front)) = s.depth := by
  obtain ⟨before, behind, hcode, hstart, hdepth, hne⟩ :=
    (Statement.cut_piecesFrom [] l.depth l.code).exists_of_mem hbraces (List.mem_filter.1 hs).1
  have hsplit : l.code = (before ++ front) ++ (rest ++ behind) := by
    rw [hcode, htext]
    simp
  have hfront : ∀ c ∈ front, c ≠ '{' ∧ c ≠ '}' := fun c hc =>
    hne c (htext ▸ List.mem_append_left rest hc)
  rw [hstart, List.nil_append, ← byteSize_append, depthBefore_of_mem_ofSource hl hsplit,
    List.foldl_append, ← hdepth, foldl_depthAfter_of_forall hfront]

/-- Where no brace stands inside parentheses, a binding has the depth of its name. -/
theorem depth_of_mem_bindings {source : Text} {l : Line} (hl : l ∈ ofSource source)
    (hbraces : l.BracesOutside) {b : Binding} (hb : b ∈ l.bindings) :
    depthBefore source (l.offset + b.nameStart) = b.depth := by
  obtain ⟨s, hs, hbinding⟩ := List.mem_filterMap.1 hb
  obtain ⟨indent, gap, pad, htext, -, hnameStart, -⟩ := Statement.exists_of_binding? hbinding
  rw [List.append_assoc, List.append_assoc] at htext
  rw [hnameStart, Statement.depth_of_binding? hbinding]
  exact depth_of_mem_statements hl hbraces hs htext

end Line

namespace Program

/-- A program binds a name at its top level if some binding of a line does. -/
theorem definesAtTop_iff {source name : Text} {p : Program} (hp : ofSource source = .ok p) :
    p.definesAtTop name = true ↔
      ∃ l ∈ Line.ofSource source, ∃ b ∈ l.bindings, b.name = name ∧ b.depth = 0 := by
  rw [definesAtTop, List.any_eq_true, ← map_toLine_of_ofSource hp]
  constructor
  · rintro ⟨b, hb, hok⟩
    obtain ⟨l, hl, hb⟩ := List.mem_flatMap.1 hb
    rw [Bool.and_eq_true, decide_eq_true_eq, decide_eq_true_eq] at hok
    exact ⟨l.toLine, List.mem_map_of_mem hl, b, hb, hok.2, hok.1⟩
  · rintro ⟨line, hline, b, hb, hname, hdepth⟩
    obtain ⟨l, hl, rfl⟩ := List.mem_map.1 hline
    exact ⟨b, List.mem_flatMap.2 ⟨l, hl, hb⟩, by simp [hname, hdepth]⟩

end Program

/-- There is a diagnostic about the entry point if and only if no line binds it at depth 0. -/
theorem exists_missingEntryPoint_of_validate {c : Catalog} {rules : Rules} {source : Text}
    {v : Verdict} (hv : validate c rules source = .ok v) :
    (∃ d ∈ v.errors ++ v.warnings, d.code? = some .missingEntryPoint) ↔
      ¬ ∃ l ∈ Line.ofSource source, ∃ b ∈ l.bindings,
        b.name = rules.entryPoint ∧ b.depth = 0 := by
  obtain ⟨p, hp, rfl⟩ := exists_verdict_of_validate hv
  rw [← Program.definesAtTop_iff hp, Bool.not_eq_true,
    ← Program.exists_missingEntryPoint_iff (c := c)]
  simp only [Program.mem_verdict_iff]

/-- The statements of a line are the pieces of its cut that are not blank, and so they stand one
behind the other.  In a program where no brace stands inside parentheses, each of them and each
binding has the depth of its place in the whole program, and there is a diagnostic about the entry
point if and only if no binding of it starts at depth 0. -/
theorem depth_statements_eq_depthBefore (source : Text) :
    (∀ l ∈ Line.ofSource source,
      (∃ pieces, Statement.Cut [] l.depth pieces l.code ∧
        l.statements = pieces.filter fun s => !Text.isAllBlank s.text) ∧
      l.statements.Pairwise fun s s' => s.start + Text.byteSize s.text < s'.start) ∧
    ((∀ l ∈ Line.ofSource source, l.BracesOutside) →
      (∀ l ∈ Line.ofSource source,
        (∀ s ∈ l.statements, s.depth = source.depthBefore (l.offset + s.start)) ∧
        ∀ b ∈ l.bindings, b.depth = source.depthBefore (l.offset + b.nameStart)) ∧
      ∀ (c : Catalog) (rules : Rules) (v : Verdict), validate c rules source = .ok v →
        ((∃ d ∈ v.errors ++ v.warnings, d.code? = some .missingEntryPoint) ↔
          ¬ ∃ l ∈ Line.ofSource source, ∃ b ∈ l.bindings, b.name = rules.entryPoint ∧
            source.depthBefore (l.offset + b.nameStart) = 0)) := by
  refine ⟨fun l _ => ⟨l.exists_cut, l.pairwise_statements⟩, fun hbraces => ⟨fun l hl => ⟨?_, ?_⟩,
    fun c rules v hv => ?_⟩⟩
  · intro s hs
    exact (Line.depth_of_mem_statements hl (hbraces l hl) hs (List.nil_append _).symm).symm
  · intro b hb
    exact (Line.depth_of_mem_bindings hl (hbraces l hl) hb).symm
  · rw [exists_missingEntryPoint_of_validate hv]
    refine not_congr ⟨?_, ?_⟩
    · rintro ⟨l, hl, b, hb, hname, hdepth⟩
      exact ⟨l, hl, b, hb, hname, (Line.depth_of_mem_bindings hl (hbraces l hl) hb).trans hdepth⟩
    · rintro ⟨l, hl, b, hb, hname, hdepth⟩
      exact ⟨l, hl, b, hb, hname,
        (Line.depth_of_mem_bindings hl (hbraces l hl) hb).symm.trans hdepth⟩

/-- A program with braces in a string and in a comment, and with a semicolon inside parentheses. -/
def enclosed : Text :=
  "f = g(1; \"\x7d\") with \x7b // \x7d\n  /* \x7d */ g = _; process = g;\n\x7d;"

/-- The entry point of that program is bound inside braces. -/
theorem depth_statements_enclosed :
    (∀ l ∈ Line.ofSource enclosed, l.BracesOutside) ∧
    (Line.ofSource enclosed).map (fun l => l.bindings.map fun b =>
      (b.depth, enclosed.depthBefore (l.offset + b.nameStart))) = [[(0, 0)], [(1, 1), (1, 1)], []] ∧
    ∃ v, validate Catalog.empty Rules.standard enclosed = .ok v ∧
      ∃ d ∈ v.errors ++ v.warnings, d.code? = some .missingEntryPoint := by
  have hbraces : ∀ l ∈ Line.ofSource enclosed, l.BracesOutside := by
    decide
  have hv : validate Catalog.empty Rules.standard enclosed =
      .ok ⟨[(Finding.missingEntryPoint "process").diagnostic], [], []⟩ := by
    decide +kernel
  have hnone : ¬ ∃ l ∈ Line.ofSource enclosed, ∃ b ∈ l.bindings,
      b.name = Rules.standard.entryPoint ∧
        enclosed.depthBefore (l.offset + b.nameStart) = 0 := by
    decide
  obtain ⟨-, hentry⟩ := (depth_statements_eq_depthBefore enclosed).2 hbraces
  exact ⟨hbraces, by decide, _, hv, (hentry _ _ _ hv).2 hnone⟩

end DspCheck
