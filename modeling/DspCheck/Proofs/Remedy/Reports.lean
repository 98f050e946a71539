import DspCheck.Proofs.Text.EndedLines
import DspCheck.Proofs.Text.Word
import DspCheck.Remedy.Explanation

/-!
# The reports in the output of a compiler

The output is cut at the lines that contain the error marker: each part but the first one begins
with such a line, and no part has two of them (`Explanation.IsCut`).  There is one such cut of an
output, and its parts, without the blanks at their ends, are the reports that are explained.

Main statement: `Explanation.ofOutput_eq_map_parts`.
-/

namespace DspCheck
namespace Explanation

/-- Whether the error marker occurs in a line. -/
def HasMarker (line : Text) : Prop :=
  marker <:+: line

instance : DecidablePred HasMarker := fun line =>
  inferInstanceAs (Decidable (marker <:+: line))

theorem isMarked_iff {line : Text} : isMarked line = true ↔ HasMarker line :=
  Text.contains_iff

theorem isMarked_eq_false_iff {line : Text} : isMarked line = false ↔ ¬ HasMarker line := by
  rw [← isMarked_iff, Bool.not_eq_true]

/-- Number of the lines of a text in which the error marker occurs. -/
def markedLines (t : Text) : Nat :=
  (Text.endedLines t).countP (HasMarker ·)

/-- The parts of an output, one for each line with the error marker, or the whole output if there is
no such line. -/
structure IsCut (output : Text) (parts : List Text) : Prop where
  /-- Nothing is lost between the parts. -/
  flatten : parts.flatten = output
  /-- No line is cut. -/
  lines : parts.flatMap Text.endedLines = Text.endedLines output
  length : parts.length = max 1 (markedLines output)
  marked : 1 ≤ markedLines output → ∀ part ∈ parts, markedLines part = 1
  begins : ∀ part ∈ parts.tail, ∃ line rest, Text.endedLines part = line :: rest ∧ HasMarker line

/-! ## Groups of lines -/

/-- Lines of which the first one and no other has the error marker. -/
def IsGroup (ls : List Text) : Prop :=
  ∃ line rest, ls = line :: rest ∧ HasMarker line ∧ ∀ l ∈ rest, ¬ HasMarker l

theorem countP_eq_zero {ls : List Text} (h : ∀ l ∈ ls, ¬ HasMarker l) :
    ls.countP (HasMarker ·) = 0 :=
  List.countP_eq_zero.2 fun l hl => by simpa using h l hl

/-- A list with one line with the marker is cut in two by it. -/
theorem exists_of_countP_eq_one {ls : List Text} (h : ls.countP (HasMarker ·) = 1) :
    ∃ lead group, ls = lead ++ group ∧ (∀ l ∈ lead, ¬ HasMarker l) ∧ IsGroup group := by
  rw [List.countP_eq_length_filter, List.length_eq_one_iff] at h
  obtain ⟨line, hline⟩ := h
  obtain ⟨lead, rest, rfl, hlead, hmarked, hrest⟩ := List.filter_eq_cons_iff.1 hline
  rw [List.filter_eq_nil_iff] at hrest
  simp only [decide_eq_true_eq] at hlead hmarked hrest
  exact ⟨lead, line :: rest, rfl, hlead, line, rest, rfl, hmarked, hrest⟩

theorem IsGroup.countP_eq_one {ls : List Text} (h : IsGroup ls) :
    ls.countP (HasMarker ·) = 1 := by
  obtain ⟨line, rest, rfl, hline, hrest⟩ := h
  rw [List.countP_cons_of_pos (by simpa using hline), countP_eq_zero hrest]

/-- Each group has one line with the marker. -/
theorem countP_flatten_groups {gs : List (List Text)} (h : ∀ g ∈ gs, IsGroup g) :
    gs.flatten.countP (HasMarker ·) = gs.length := by
  induction gs with
  | nil =>
      rfl
  | cons g gs ih =>
      rw [List.forall_mem_cons] at h
      rw [List.flatten_cons, List.countP_append, h.1.countP_eq_one, ih h.2, List.length_cons,
        Nat.add_comm]

/-- Before the first marked line no line is marked, and behind it each marked line starts a
group. -/
theorem isGroup_of_groups (ls : List Text) :
    (∀ l ∈ (groups ls).1, ¬ HasMarker l) ∧ ∀ g ∈ (groups ls).2, IsGroup g := by
  induction ls with
  | nil =>
      exact ⟨List.forall_mem_nil _, List.forall_mem_nil _⟩
  | cons line ls ih =>
      simp only [groups]
      split
      · next hline =>
          refine ⟨List.forall_mem_nil _, List.forall_mem_cons.2 ⟨?_, ih.2⟩⟩
          exact ⟨line, (groups ls).1, rfl, isMarked_iff.1 hline, ih.1⟩
      · next hline =>
          rw [isMarked_iff] at hline
          exact ⟨List.forall_mem_cons.2 ⟨hline, ih.1⟩, ih.2⟩

theorem groups_unmarked {lead : List Text} (h : ∀ l ∈ lead, ¬ HasMarker l) (ls : List Text) :
    groups (lead ++ ls) = (lead ++ (groups ls).1, (groups ls).2) := by
  induction lead with
  | nil =>
      rfl
  | cons line lead ih =>
      rw [List.forall_mem_cons, ← isMarked_eq_false_iff] at h
      simp [groups, ih h.2, h.1]

/-- Groups of lines are told apart by their first lines. -/
theorem groups_flatten {gs : List (List Text)} (h : ∀ g ∈ gs, IsGroup g) :
    groups gs.flatten = ([], gs) := by
  induction gs with
  | nil =>
      rfl
  | cons g gs ih =>
      rw [List.forall_mem_cons] at h
      obtain ⟨⟨line, rest, rfl, hline, hrest⟩, hgs⟩ := h
      rw [List.flatten_cons, List.cons_append, groups, groups_unmarked hrest, ih hgs,
        isMarked_iff.2 hline, List.append_nil]
      rfl

/-! ## The cut of an output -/

/-- The lines of an output are without the marker, or they are groups behind lines without it. -/
theorem unmarked_or_exists_groups (output : Text) :
    (∀ l ∈ Text.endedLines output, ¬ HasMarker l) ∨
      ∃ lead first later, Text.endedLines output = lead ++ List.flatten (first :: later) ∧
        (∀ l ∈ lead, ¬ HasMarker l) ∧ ∀ g ∈ first :: later, IsGroup g := by
  have hflatten := flatten_groups (Text.endedLines output)
  obtain ⟨hlead, hgroups⟩ := isGroup_of_groups (Text.endedLines output)
  generalize groups (Text.endedLines output) = g at hflatten hlead hgroups
  obtain ⟨lead, gs⟩ := g
  cases gs with
  | nil =>
      rw [List.flatten_nil, List.append_nil] at hflatten
      exact Or.inl (hflatten ▸ hlead)
  | cons first later =>
      exact Or.inr ⟨lead, first, later, hflatten.symm, hlead, hgroups⟩

/-- An output without the marker is one piece. -/
theorem pieces_of_unmarked {output : Text} (h : ∀ l ∈ Text.endedLines output, ¬ HasMarker l) :
    pieces output = [output] := by
  have hgroups : groups (Text.endedLines output) = (Text.endedLines output, []) := by
    have happend := groups_unmarked h []
    rwa [List.append_nil, show groups [] = ([], []) from rfl, List.append_nil] at happend
  simp only [pieces, hgroups, Text.flatten_endedLines]

/-- Each group is a piece, and the lines before all groups belong to the first one. -/
theorem pieces_of_groups {output : Text} {lead first : List Text} {later : List (List Text)}
    (hlines : Text.endedLines output = lead ++ List.flatten (first :: later))
    (hlead : ∀ l ∈ lead, ¬ HasMarker l) (hgroups : ∀ g ∈ first :: later, IsGroup g) :
    pieces output = ((lead ++ first) :: later).map List.flatten := by
  rw [pieces, hlines, groups_unmarked hlead, groups_flatten hgroups, List.append_nil]
  rfl

theorem isCut_pieces (output : Text) : IsCut output (pieces output) := by
  rcases unmarked_or_exists_groups output with hnone | ⟨lead, first, later, hlines, hlead, hgroups⟩
  · have hzero : markedLines output = 0 := countP_eq_zero hnone
    rw [pieces_of_unmarked hnone]
    exact {
      flatten := List.flatten_singleton
      lines := List.flatMap_singleton _ _
      length := by rw [hzero]; rfl
      marked := fun h => absurd h (by omega)
      begins := fun _ h => absurd h List.not_mem_nil }
  · have hflatten : ((lead ++ first) :: later).flatten = Text.endedLines output := by
      rw [hlines, List.flatten_cons, List.flatten_cons, List.append_assoc]
    have hended : ∀ g ∈ (lead ++ first) :: later, Text.endedLines g.flatten = g :=
      fun g hg => Text.endedLines_flatten_of_mem hflatten hg
    have hcount : markedLines output = (first :: later).length := by
      rw [markedLines, hlines, List.countP_append, countP_eq_zero hlead,
        countP_flatten_groups hgroups, Nat.zero_add]
    have hpieces := pieces_of_groups hlines hlead hgroups
    rw [List.forall_mem_cons] at hgroups hended
    refine ⟨flatten_pieces output, ?_, ?_, fun _ => ?_, ?_⟩
    · rw [hpieces, List.flatMap_map, List.flatMap_cons, hended.1, ← hflatten, List.flatten_cons,
        List.flatMap_congr hended.2, List.flatMap_id']
    · rw [hpieces, hcount, List.length_map, List.length_cons, List.length_cons]
      omega
    · rw [hpieces, List.map_cons, List.forall_mem_cons, List.forall_mem_map]
      refine ⟨?_, fun g hg => ?_⟩
      · rw [markedLines, hended.1, List.countP_append, countP_eq_zero hlead,
          hgroups.1.countP_eq_one]
      · rw [markedLines, hended.2 g hg, (hgroups.2 g hg).countP_eq_one]
    · rw [hpieces, List.map_cons, List.tail_cons, List.forall_mem_map]
      intro g hg
      obtain ⟨line, rest, hg', hline, -⟩ := hgroups.2 g hg
      exact ⟨line, rest, (hended.2 g hg).trans hg', hline⟩

/-- A part that begins with a line with the marker and has no other one is a group. -/
theorem isGroup_of_begins {part line : Text} {rest : List Text} (hcount : markedLines part = 1)
    (hbegins : Text.endedLines part = line :: rest) (hline : HasMarker line) :
    IsGroup (Text.endedLines part) := by
  rw [markedLines, hbegins, List.countP_cons_of_pos (by simpa using hline)] at hcount
  have hrest := List.countP_eq_zero.1 (Nat.succ_injective hcount)
  exact ⟨line, rest, hbegins, hline, fun l hl => by simpa using hrest l hl⟩

/-- There is one cut of an output. -/
theorem IsCut.eq_pieces {output : Text} {parts : List Text} (h : IsCut output parts) :
    parts = pieces output := by
  obtain ⟨part, parts, rfl⟩ := List.exists_cons_of_length_pos (l := parts) (by
    rw [h.length]
    omega)
  have hlength := h.length
  rw [List.length_cons] at hlength
  rcases Nat.eq_zero_or_pos (markedLines output) with hzero | hpos
  · obtain rfl : parts = [] := List.length_eq_zero_iff.1 (by omega)
    have hpart : part = output := by simpa using h.flatten
    have hnone := List.countP_eq_zero.1 hzero
    rw [hpart, pieces_of_unmarked fun l hl => by simpa using hnone l hl]
  · obtain ⟨hfirst, hlater⟩ := List.forall_mem_cons.1 (h.marked hpos)
    obtain ⟨lead, first, hsplit, hlead, hgroup⟩ := exists_of_countP_eq_one hfirst
    have hgroups : ∀ g ∈ first :: parts.map Text.endedLines, IsGroup g := by
      rw [List.forall_mem_cons, List.forall_mem_map]
      refine ⟨hgroup, fun p hp => ?_⟩
      obtain ⟨line, rest, hbegins, hline⟩ := h.begins p hp
      exact isGroup_of_begins (hlater p hp) hbegins hline
    have hlines : Text.endedLines output =
        lead ++ List.flatten (first :: parts.map Text.endedLines) := by
      rw [← h.lines, List.flatMap_cons, hsplit, List.flatten_cons, List.append_assoc,
        List.flatMap_def]
    rw [pieces_of_groups hlines hlead hgroups, ← hsplit, List.map_cons, List.map_map,
      Text.flatten_endedLines]
    have hid : List.flatten ∘ Text.endedLines = id := funext Text.flatten_endedLines
    rw [hid, List.map_id]

example : pieces "a\r\nERROR 1\r\n\nERROR 2\nERROR 3 ERROR" =
    ["a\r\nERROR 1\r\n\n".toList, "ERROR 2\n".toList, "ERROR 3 ERROR".toList] := by
  decide +kernel

/-- The explanations of an output are those of its parts, each without the blanks at its end: one
part for each line with the error marker, or the whole output.  Nothing is lost between the parts,
each one but the first begins with such a line, and no other cut of the output is like that. -/
theorem ofOutput_eq_map_parts (c : RemedyCatalog) (output : Text) :
    (ofOutput c output).length = max 1 (markedLines output) ∧
    ∃ parts, IsCut output parts ∧ (∀ others, IsCut output others → others = parts) ∧
      ofOutput c output = parts.map fun part => ofReport c (Text.trimEnd part) := by
  have hcut := isCut_pieces output
  have hmap : ofOutput c output = (pieces output).map fun part => ofReport c (Text.trimEnd part) :=
    List.map_map
  refine ⟨?_, pieces output, hcut, fun others h => h.eq_pieces, hmap⟩
  rw [hmap, List.length_map, hcut.length]

end Explanation
end DspCheck
