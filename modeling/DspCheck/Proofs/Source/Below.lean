import DspCheck.Proofs.Source.Program
import DspCheck.Proofs.Text.Lines
import Mathlib.Data.List.Induction

/-!
# Programs below other texts

Where one text stands below another one in a program, three things go from the lines of the first
one to those of the second: their number, their bytes, and the mode of the scanner with the braces
that are open (`linesFrom_append_raws`).  The number and the bytes move the lines below
(`linesFrom_below`), and the open braces change nothing but their depths
(`map_atTop_linesFrom`).

Main statement: `Program.exists_ofSource_append`, the program of a text below another one that does
not end in a block comment.
-/

namespace DspCheck

namespace Mode

/-- The mode of the scanner behind some parts between line feeds. -/
def afterLines (m : Mode) (raws : List Text) : Mode :=
  raws.foldl (fun m raw => (m.after (Text.dropReturn raw)).nextLine) m

/-- A line starts in code or in a block comment. -/
theorem nextLine_cases (m : Mode) : m.nextLine = code ∨ m.nextLine = block := by
  cases m <;> decide

theorem afterLines_code_cases (raws : List Text) :
    code.afterLines raws = code ∨ code.afterLines raws = block := by
  induction raws using List.reverseRecOn with
  | nil =>
      exact Or.inl rfl
  | append_singleton raws raw _ =>
      rw [afterLines, List.foldl_append]
      exact nextLine_cases _

end Mode

/-- Whether a block comment is open at the end of a text. -/
def Text.EndsInBlock (t : Text) : Prop :=
  Mode.code.afterLines (rawLines t) = .block

instance : DecidablePred Text.EndsInBlock := fun t =>
  inferInstanceAs (Decidable (Mode.code.afterLines (Text.rawLines t) = .block))

namespace Span

/-- A span that stands as many bytes further behind. -/
def shift (k : Nat) (s : Span) : Span :=
  ⟨k + s.start, k + s.stop, Nat.add_le_add_left s.le k⟩

theorem shift_between (k m n : Nat) : (between m n).shift k = between (k + m) (k + n) := by
  simp only [shift, between, Nat.add_max_add_left]

end Span

/-- A diagnostic of a program that stands below as many lines, behind as many bytes. -/
def Diagnostic.below (lines bytes : Nat) (d : Diagnostic) : Diagnostic :=
  { d with line := lines + d.line, span? := d.span?.map (Span.shift bytes) }

namespace Line

/-- A line that stands below as many others, behind as many bytes. -/
def below (lines bytes : Nat) (l : Line) : Line :=
  { l with number := lines + l.number, offset := bytes + l.offset }

/-- A line without the braces that are open before it. -/
def atTop (l : Line) : Line :=
  { l with depth := 0 }

theorem place_below (lines bytes : Nat) (l : Line) (d : Diagnostic) (start stop : Nat) :
    (l.below lines bytes).place d start stop = (l.place d start stop).below lines bytes := by
  simp only [place, Diagnostic.below, below, Option.map_some, Span.shift_between, Nat.add_assoc]
  rfl

theorem linesFrom_below (lines bytes number offset depth : Nat) (mode : Mode) (raws : List Text) :
    linesFrom (lines + number) (bytes + offset) depth mode raws =
      (linesFrom number offset depth mode raws).map (below lines bytes) := by
  induction raws generalizing number offset depth mode with
  | nil =>
      rfl
  | cons raw raws ih =>
      simp only [linesFrom, Nat.add_assoc, ih, List.map_cons]
      rfl

/-- Braces that are open before some lines change nothing but the depths of these lines. -/
theorem map_atTop_linesFrom (number offset depth depth' : Nat) (mode : Mode) (raws : List Text) :
    (linesFrom number offset depth mode raws).map atTop =
      (linesFrom number offset depth' mode raws).map atTop := by
  induction raws generalizing number offset depth depth' mode with
  | nil =>
      rfl
  | cons raw raws ih =>
      -- the depths behind the first line differ, too, and the hypothesis is about any two
      rw [linesFrom, linesFrom, List.map_cons, List.map_cons, ih]
      rfl

/-- The depth behind some parts between line feeds. -/
def depthBehind (depth : Nat) (mode : Mode) : List Text → Nat
  | [] => depth
  | raw :: raws =>
      depthBehind ((Text.mask mode (Text.dropReturn raw)).foldl depthAfter depth)
        (mode.after (Text.dropReturn raw)).nextLine raws

/-- What goes from some lines to those below them. -/
theorem linesFrom_append_raws (number offset depth : Nat) (mode : Mode) (raws raws' : List Text) :
    linesFrom number offset depth mode (raws ++ raws') =
      linesFrom number offset depth mode raws ++
        linesFrom (raws.length + number) (Text.byteSize (Text.unlines raws) + offset)
          (depthBehind depth mode raws) (mode.afterLines raws) raws' := by
  induction raws generalizing number offset depth mode with
  | nil =>
      rw [List.length_nil, Nat.zero_add, show Text.byteSize (Text.unlines []) = 0 from rfl,
        Nat.zero_add]
      rfl
  | cons raw raws ih =>
      have hnumber : (raw :: raws).length + number = raws.length + (number + 1) := by
        rw [List.length_cons]
        omega
      have hbytes : Text.byteSize (Text.unlines (raw :: raws)) + offset =
          Text.byteSize (Text.unlines raws) + (offset + Text.byteSize raw + 1) := by
        rw [Text.byteSize_unlines_cons]
        omega
      rw [List.cons_append, linesFrom, ih, hnumber, hbytes]
      rfl

/-- The lines of a text below another one that does not end in a block comment. -/
theorem ofSource_append_newline {a : Text} (ha : ¬ Text.EndsInBlock a) (b : Text) :
    ofSource (a ++ '\n' :: b) =
      ofSource a ++ linesFrom (a.count '\n' + 1 + 1) (Text.byteSize a + 1)
        (depthBehind 0 .code (Text.rawLines a)) .code (Text.rawLines b) := by
  have hcode := (Mode.afterLines_code_cases (Text.rawLines a)).resolve_right ha
  have hbytes : Text.byteSize (Text.unlines (Text.rawLines a)) = Text.byteSize a + 1 := by
    rw [Text.unlines_rawLines, Text.byteSize_append]
    rfl
  rw [ofSource, Text.rawLines_append_newline, linesFrom_append_raws, Text.length_rawLines, hbytes,
    hcode, Nat.add_zero, ofSource]

end Line

namespace Program

/-- A program that stands below as many lines, behind as many bytes. -/
def below (lines bytes : Nat) (p : Program) : Program :=
  p.map (ProgramLine.mapLine (Line.below lines bytes))

/-- A program without the braces that are open before its lines. -/
def atTop (p : Program) : Program :=
  p.map (ProgramLine.mapLine Line.atTop)

/-- Lines that differ in their depths only have the same references. -/
theorem exists_mapM_ofLine_of_atTop {ls ls' : List Line} {p : Program}
    (hls : ls'.map Line.atTop = ls.map Line.atTop) (hp : ls.mapM ProgramLine.ofLine = .ok p) :
    ∃ p' : Program, ls'.mapM ProgramLine.ofLine = .ok p' ∧ p'.atTop = p.atTop := by
  have hread : ∀ ls : List Line, (ls.map Line.atTop).mapM ProgramLine.ofLine =
      (ls.mapM ProgramLine.ofLine).map atTop :=
    mapM_ofLine_map (g := Line.atTop) fun _ => rfl
  have hsame := hread ls'
  rw [hls, hread, hp] at hsame
  exact exists_of_map_eq_ok hsame.symm

theorem mapM_ofLine_below {ls : List Line} {p : Program} (hp : ls.mapM ProgramLine.ofLine = .ok p)
    (lines bytes : Nat) :
    (ls.map (Line.below lines bytes)).mapM ProgramLine.ofLine = .ok (p.below lines bytes) := by
  rw [mapM_ofLine_map (g := Line.below lines bytes) fun _ => rfl, hp]
  rfl

/-- The program of a text below another one that does not end in a block comment: but for the
depths of its lines it is the program of the text alone, below as many lines as the other one
has. -/
theorem exists_ofSource_append {a b : Text} (ha : ¬ Text.EndsInBlock a) {p q : Program}
    (hp : ofSource a = .ok p) (hq : ofSource b = .ok q) :
    ∃ q' : Program, ofSource (a ++ '\n' :: b) = .ok (p ++ q') ∧
      q'.atTop = (q.below (a.count '\n' + 1) (Text.byteSize a + 1)).atTop := by
  -- at the depth where the first text ends, the lines are those at depth 0 but for their depths
  have hbelow := mapM_ofLine_below hq (a.count '\n' + 1) (Text.byteSize a + 1)
  rw [Line.ofSource, ← Line.linesFrom_below, Nat.add_zero] at hbelow
  obtain ⟨q', hq', htop⟩ := exists_mapM_ofLine_of_atTop (Line.map_atTop_linesFrom _ _
    (Line.depthBehind 0 .code (Text.rawLines a)) 0 _ _) hbelow
  refine ⟨q', ?_, htop⟩
  rw [ofSource] at hp
  rw [ofSource, Line.ofSource_append_newline ha, List.mapM_append, hp, hq']
  rfl

end Program
end DspCheck
