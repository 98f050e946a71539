import DspCheck.Check.Validation
import DspCheck.Proofs.Check.Calls
import DspCheck.Proofs.Source.Below
import DspCheck.Proofs.Text.Place

/-!
# Checking a program part by part

The bindings and the calls of a line are judged by its masked form, and where the line stands
matters for the places of the diagnostics only (`Line.IsMove`).  In particular the braces that are
open before a line do not matter at all.

So the diagnostics of a text below another one are those of the text alone, moved, if nothing but
the position goes from one to the other: the upper text does not end in a block comment, and no
library is bound in either of them (`check_append_newline`).
-/

namespace DspCheck

/-! ## Bindings without their depths -/

/-- A binding without the braces that are open before it. -/
def Binding.atTop (b : Binding) : Binding :=
  { b with depth := 0 }

namespace Statement

/-- A statement without the braces that are open before it. -/
def atTop (s : Statement) : Statement :=
  { s with depth := 0 }

theorem binding?_atTop (s : Statement) : s.atTop.binding? = s.binding?.map Binding.atTop := by
  unfold binding?
  dsimp only [atTop]
  split
  · split <;> rfl
  · rfl

/-- Text is cut into the same statements however many braces are open before it. -/
theorem map_atTop_piecesFrom (start depth depth' parens : Nat) (t : Text) :
    (piecesFrom start depth parens t).map atTop = (piecesFrom start depth' parens t).map atTop := by
  induction t generalizing start depth depth' parens with
  | nil =>
      rfl
  | cons c t ih =>
      have hextend : ∀ ss : List Statement, (ss.modifyHead (extend c start)).map atTop =
          (ss.map atTop).modifyHead (extend c start) := by
        intro ss
        cases ss <;> rfl
      rw [piecesFrom, piecesFrom]
      split
      · rw [List.map_cons, List.map_cons, ih _ _ (depthAfter depth' c)]
        rfl
      · rw [hextend, hextend, ih _ _ depth']

end Statement

namespace Line

theorem map_atTop_bindings (l : Line) :
    l.bindings.map Binding.atTop =
      (((Statement.piecesFrom 0 l.depth 0 l.code).map Statement.atTop).filter
        fun s => !Text.isAllBlank s.text).filterMap Statement.binding? := by
  rw [List.filter_map, List.filterMap_map, bindings, List.map_filterMap]
  exact List.filterMap_congr fun s _ => (Statement.binding?_atTop s).symm

variable {l l' : Line}

/-- But for their depths, the bindings of a line are those of its masked form. -/
theorem map_atTop_bindings_of_code (h : l'.code = l.code) :
    l'.bindings.map Binding.atTop = l.bindings.map Binding.atTop := by
  rw [map_atTop_bindings, map_atTop_bindings, h, Statement.map_atTop_piecesFrom _ _ l.depth]

theorem bindingRemarks_of_code (h : l'.code = l.code) : l'.bindingRemarks = l.bindingRemarks := by
  have hremarks : ∀ l : Line,
      l.bindingRemarks = (l.bindings.map Binding.atTop).flatMap Binding.remarks := by
    intro l
    rw [List.flatMap_map]
    rfl
  rw [hremarks, hremarks, map_atTop_bindings_of_code h]

/-- The names of bindings that are told without the depth. -/
theorem map_name_filter_of_code {p : Binding → Bool} (hp : ∀ b, p b.atTop = p b)
    (h : l'.code = l.code) :
    (l'.bindings.filter p).map Binding.name = (l.bindings.filter p).map Binding.name := by
  have hnames : ∀ l : Line, (l.bindings.filter p).map Binding.name =
      ((l.bindings.map Binding.atTop).filter p).map Binding.name := by
    intro l
    rw [List.filter_map, List.map_map, show p ∘ Binding.atTop = p from funext hp]
    rfl
  rw [hnames, hnames, map_atTop_bindings_of_code h]

/-! ## Lines that are moved -/

/-- A change of lines that keeps their masked forms and moves the diagnostics that they put. -/
structure IsMove (g : Line → Line) (move : Diagnostic → Diagnostic) : Prop where
  code : ∀ l, (g l).code = l.code
  place : ∀ l d start stop, (g l).place d start stop = move (l.place d start stop)

theorem isMove_atTop : IsMove atTop id :=
  ⟨fun _ => rfl, fun _ _ _ _ => rfl⟩

theorem isMove_below (lines bytes : Nat) :
    IsMove (below lines bytes) (Diagnostic.below lines bytes) :=
  ⟨fun _ => rfl, place_below lines bytes⟩

theorem IsMove.map_diagnostic {g : Line → Line} {move : Diagnostic → Diagnostic} (h : IsMove g move)
    (l : Line) (remarks : List Remark) :
    remarks.map (Remark.diagnostic (g l)) = (remarks.map (Remark.diagnostic l)).map move := by
  rw [List.map_map]
  exact List.map_congr_left fun r _ => h.place l _ _ _

end Line

section Moves

variable {c : Catalog} {rules : Rules} {g : Line → Line} {move : Diagnostic → Diagnostic}

theorem ProgramLine.check_mapLine (h : Line.IsMove g move) (locals : List Text) (l : ProgramLine) :
    (l.mapLine g).check c rules locals = (l.check c rules locals).map move := by
  have hremarks : (l.mapLine g).bindingRemarks = l.bindingRemarks :=
    Line.bindingRemarks_of_code (h.code l.toLine)
  have hnames : (l.mapLine g).recursiveNames = l.recursiveNames :=
    Line.map_name_filter_of_code (fun _ => rfl) (h.code l.toLine)
  rw [check, callRemarks, hnames, hremarks]
  exact h.map_diagnostic l.toLine _

theorem Program.localLibraries_mapLine (h : Line.IsMove g move) (p : Program) :
    localLibraries (p.map (ProgramLine.mapLine g)) = p.localLibraries := by
  rw [localLibraries_eq_flatMap, localLibraries_eq_flatMap, List.flatMap_map]
  exact List.flatMap_congr fun l _ =>
    Line.map_name_filter_of_code (fun _ => rfl) (h.code l.toLine)

theorem Program.check_mapLine (h : Line.IsMove g move) (p : Program) :
    check c rules (p.map (ProgramLine.mapLine g)) = (check c rules p).map move := by
  rw [check, check, localLibraries_mapLine h, List.flatMap_map, List.map_flatMap]
  exact List.flatMap_congr fun l _ => l.check_mapLine h _

theorem Program.localLibraries_atTop (p : Program) : p.atTop.localLibraries = p.localLibraries :=
  localLibraries_mapLine Line.isMove_atTop p

theorem Program.localLibraries_below (lines bytes : Nat) (p : Program) :
    (p.below lines bytes).localLibraries = p.localLibraries :=
  localLibraries_mapLine (Line.isMove_below lines bytes) p

/-- The braces that are open before the lines of a program do not matter. -/
theorem Program.check_atTop (p : Program) : check c rules p.atTop = check c rules p :=
  (check_mapLine Line.isMove_atTop p).trans (List.map_id _)

theorem Program.check_below (lines bytes : Nat) (p : Program) :
    check c rules (p.below lines bytes) = (check c rules p).map (Diagnostic.below lines bytes) :=
  check_mapLine (Line.isMove_below lines bytes) p

/-- Parts of a program without libraries are checked each for itself. -/
theorem Program.check_append {p q : Program} (hp : p.localLibraries = [])
    (hq : q.localLibraries = []) : check c rules (p ++ q) = check c rules p ++ check c rules q := by
  have hpq : localLibraries (p ++ q) = [] := by
    rw [localLibraries_eq_flatMap, List.flatMap_append, ← localLibraries_eq_flatMap,
      ← localLibraries_eq_flatMap, hp, hq, List.append_nil]
  rw [check, check, check, hpq, hp, hq, List.flatMap_append]

end Moves

/-! ## Texts below other texts -/

/-- Whether some binding of a text makes its name a library. -/
def Text.BindsLibrary (t : Text) : Prop :=
  ∃ l ∈ Line.ofSource t, ∃ b ∈ l.bindings, b.isLibrary = true

instance : DecidablePred Text.BindsLibrary := fun t =>
  inferInstanceAs (Decidable (∃ l ∈ Line.ofSource t, ∃ b ∈ l.bindings, b.isLibrary = true))

theorem Program.localLibraries_eq_nil {t : Text} (h : ¬ t.BindsLibrary) {p : Program}
    (hp : ofSource t = .ok p) : p.localLibraries = [] := by
  rw [localLibraries, List.map_eq_nil_iff, List.filter_eq_nil_iff]
  intro b hb hlibrary
  obtain ⟨l, hl, hb⟩ := List.mem_flatMap.1 hb
  exact h ⟨l.toLine, (line_of_mem_ofSource hp hl).1, b, hb, hlibrary⟩

/-- The diagnostics about two texts with a line feed between them are those about the first one and
those about the second one, below the lines of the first one: whatever is left open on a line of
the first one, be it a string, a parenthesis or a brace, nothing else changes. -/
theorem check_append_newline {c : Catalog} {rules : Rules} {a b : Text} {da db : List Diagnostic}
    (hblock : ¬ a.EndsInBlock) (hlibraries : ¬ a.BindsLibrary ∧ ¬ b.BindsLibrary)
    (ha : check c rules a = .ok da) (hb : check c rules b = .ok db) :
    check c rules (a ++ '\n' :: b) =
      .ok (da ++ db.map (Diagnostic.below (a.count '\n' + 1) (Text.byteSize a + 1))) := by
  obtain ⟨p, hp, rfl⟩ := exists_of_map_eq_ok ha
  obtain ⟨q, hq, rfl⟩ := exists_of_map_eq_ok hb
  obtain ⟨q', hprogram, htop⟩ := Program.exists_ofSource_append hblock hp hq
  have hlocal : Program.localLibraries q' = [] := by
    rw [← Program.localLibraries_atTop, htop, Program.localLibraries_atTop,
      Program.localLibraries_below, Program.localLibraries_eq_nil hlibraries.2 hq]
  have hcheck : Program.check c rules q' = (Program.check c rules q).map
      (Diagnostic.below (a.count '\n' + 1) (Text.byteSize a + 1)) := by
    rw [← Program.check_atTop, htop, Program.check_atTop, Program.check_below]
  rw [check, hprogram]
  show Except.ok (Program.check c rules (p ++ q')) = _
  rw [Program.check_append (Program.localLibraries_eq_nil hlibraries.1 hp) hlocal, hcheck]

/-- A text that leaves a string and two parentheses open, in a binding of a name to a member of
itself. -/
def leftOpen : Text := "s = \"é\";\r\nfi = fi.low(xy.z(\"x \x7b"

/-- A text with an open parenthesis and a closing brace. -/
def openBelow : Text := "t = \"µ\" ; no.pe(\n\x7d r = r.s"

theorem check_append_leftOpen :
    ¬ leftOpen.EndsInBlock ∧ (¬ leftOpen.BindsLibrary ∧ ¬ openBelow.BindsLibrary) ∧
    ∃ da db,
      da.map Diagnostic.code? =
        [some .stringAssignment, some .recursiveDefinition, some .unknownLibrary] ∧
      db.map Diagnostic.code? =
        [some .stringAssignment, some .unknownLibrary, some .recursiveDefinition] ∧
      check .empty .standard leftOpen = .ok da ∧ check .empty .standard openBelow = .ok db ∧
      check .empty .standard (leftOpen ++ '\n' :: openBelow) =
        .ok (da ++ db.map (Diagnostic.below 2 33)) := by
  have hblock : ¬ leftOpen.EndsInBlock := by
    decide +kernel
  have hlibraries : ¬ leftOpen.BindsLibrary ∧ ¬ openBelow.BindsLibrary := by
    decide +kernel
  have ha : check .empty .standard leftOpen = .ok [
      (Finding.stringAssignment "s").diagnostic.putAt "s = " "\"é\"",
      (Finding.recursiveDefinition "fi").diagnostic.putAt "s = \"é\";\r\n" "fi",
      (Finding.unknownLibrary "xy" []).diagnostic.putAt "s = \"é\";\r\nfi = fi.low(" "xy"] := by
    decide +kernel
  have hb : check .empty .standard openBelow = .ok [
      (Finding.stringAssignment "t").diagnostic.putAt "t = " "\"µ\"",
      (Finding.unknownLibrary "no" []).diagnostic.putAt "t = \"µ\" ; " "no",
      (Finding.recursiveDefinition "r").diagnostic.putAt "t = \"µ\" ; no.pe(\n\x7d " "r"] := by
    decide +kernel
  exact ⟨hblock, hlibraries, _, _, rfl, rfl, ha, hb, check_append_newline hblock hlibraries ha hb⟩

end DspCheck
