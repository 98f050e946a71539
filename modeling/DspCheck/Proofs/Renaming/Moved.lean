import DspCheck.Proofs.Check.Pointing
import DspCheck.Proofs.Renaming.Replacement
import DspCheck.Proofs.Renaming.Source

/-!
# Diagnostics after a replacement

A replacement on one line of a program leaves the diagnostics on the lines before it as they are and
moves those on the lines behind it.  On the line itself the diagnostics move if the remarks are
carried over (`Replacement.Carries`).

Main statement: `Program.flatMap_check_replaced`.
-/

namespace DspCheck

open Replacement (ofTexts)

namespace Diagnostic

/-- A diagnostic after a replacement at a place of its program: the ends of its span move, and its
column moves if it is further right on the line of that place. -/
def moved (e : Replacement) (line column : Nat) (d : Diagnostic) : Diagnostic :=
  { d with
    column :=
      if d.line = line ∧ column < d.column then d.column - e.span.length + e.added else d.column
    span? := d.span?.map fun s => Span.between (e.move s.start) (e.move s.stop) }

end Diagnostic

namespace Line

/-- A line `l'` on which `new` stands in the place of `old` on the line `l`: behind the text `left`
in the program, and as far behind the start of the line as `a` is long. -/
structure IsReplaced (l : Line) (left a old new : Text) (l' : Line) : Prop where
  number : l'.number = l.number
  offset : l'.offset = l.offset
  place : Text.byteSize left = l.offset + Text.byteSize a
  split : ∃ front rest, Text.byteSize front = Text.byteSize a ∧ l.text = front ++ (old ++ rest) ∧
    l'.text = front ++ (new ++ rest)
  ne_nil : old ≠ []
  ascii_old : ∀ c ∈ old, Text.isAscii c = true
  ascii_new : ∀ c ∈ new, Text.isAscii c = true

namespace IsReplaced

variable {l l' : Line} {left a old new : Text}

theorem move_offset (h : l.IsReplaced left a old new l') (n : Nat) :
    (ofTexts left old new).move (l.offset + n) = l'.offset + (ofTexts a old new).move n := by
  have hadded : (ofTexts left old new).added = (ofTexts a old new).added := rfl
  simp only [Replacement.move, Replacement.stop_ofTexts, Span.length, Replacement.start_ofTexts,
    h.place, h.offset, hadded]
  split <;> split <;> omega

/-- The text that is replaced and the one in its place start at one column. -/
theorem column_eq (h : l.IsReplaced left a old new l') :
    l'.column (Text.byteSize a) = l.column (Text.byteSize a) := by
  obtain ⟨front, rest, hfront, htext, htext'⟩ := h.split
  rw [← hfront, Line.column, Line.column, htext, htext', Text.scalarsBefore_append,
    Text.scalarsBefore_append]

/-- The columns behind the text that is replaced move by the number of its bytes, since each of them
is one scalar. -/
theorem column_move (h : l.IsReplaced left a old new l') {n : Nat}
    (hn : n ≤ Text.byteSize a ∨ Text.byteSize a + Text.byteSize old ≤ n) :
    (if l.column (Text.byteSize a) < l.column n then
      l.column n - Text.byteSize old + Text.byteSize new else l.column n) =
      l'.column ((ofTexts a old new).move n) := by
  obtain ⟨front, rest, hfront, htext, htext'⟩ := h.split
  have htexts : ofTexts a old new = ofTexts front old new := by
    rw [ofTexts, ofTexts, hfront]
  have hpos := Text.byteSize_pos h.ne_nil
  rw [htexts]
  rw [← hfront] at hn ⊢
  simp only [Line.column, htext, htext', Text.scalarsBefore_append]
  rcases hn with hle | hge
  · obtain ⟨heq, hlt⟩ := Text.scalarsBefore_append_of_le hle (old ++ rest)
    rw [heq, Replacement.move_of_le h.ne_nil hle,
      (Text.scalarsBefore_append_of_le hle (new ++ rest)).1, if_neg (by omega)]
  · obtain ⟨k, hk⟩ := Nat.exists_eq_add_of_le hge
    rw [hk, Replacement.move_add, Nat.add_assoc, Nat.add_assoc,
      Text.scalarsBefore_append_add, Text.scalarsBefore_append_add,
      Text.scalarsBefore_append_add, Text.scalarsBefore_append_add,
      Text.length_eq_byteSize h.ascii_old, Text.length_eq_byteSize h.ascii_new, if_pos (by omega)]
    omega

end IsReplaced

end Line

namespace Remark

theorem IsOn.start_le_stop {m : Remark} {l : ProgramLine} (h : m.IsOn l) : m.start ≤ m.stop := by
  obtain ⟨front, under, rest, h⟩ := h
  rw [h.start, h.stop]
  exact Nat.le_add_right _ _

theorem IsOn.stop_le {m : Remark} {l : ProgramLine} (h : m.IsOn l) :
    m.stop ≤ Text.byteSize l.text := by
  obtain ⟨front, under, rest, h⟩ := h
  rw [h.stop, h.split]
  simp only [Text.byteSize_append]
  omega

variable {m : Remark} {left old new : Text} {line column : Nat}

theorem span?_diagnostic {l : Line} (h : m.start ≤ m.stop) :
    ∃ s, (m.diagnostic l).span? = some s ∧ s.start = l.offset + m.start ∧
      s.stop = l.offset + m.stop :=
  ⟨_, rfl, rfl, Span.stop_between_of_le (Nat.add_le_add_left h l.offset)⟩

/-- Diagnostics on lines before a replacement stay as they are. -/
theorem moved_diagnostic_before {l : Line} (h : m.start ≤ m.stop) (hold : old ≠ [])
    (hline : l.number ≠ line) (hstop : l.offset + m.stop ≤ Text.byteSize left) :
    (m.diagnostic l).moved (ofTexts left old new) line column = m.diagnostic l := by
  obtain ⟨s, hs, hstart, hsstop⟩ := span?_diagnostic (l := l) h
  have hspan : Span.between ((ofTexts left old new).move s.start)
      ((ofTexts left old new).move s.stop) = s := by
    rw [Replacement.move_of_le hold (by omega), Replacement.move_of_le hold (by omega)]
    have hle := s.le
    cases s
    simp only [Span.between, Span.mk.injEq, true_and]
    exact Nat.max_eq_left hle
  rw [Diagnostic.moved, hs, Option.map_some, hspan, ← hs, if_neg fun h => hline h.1]

/-- Diagnostics on the line of a replacement are those of the remarks that are made again. -/
theorem moved_diagnostic {l l' : Line} {a : Text} (hl : l.IsReplaced left a old new l')
    (h : m.start ≤ m.stop)
    (hclear : m.start ≤ Text.byteSize a ∨ Text.byteSize a + Text.byteSize old ≤ m.start) :
    (m.diagnostic l).moved (ofTexts left old new) l.number (l.column (Text.byteSize a)) =
      ((ofTexts a old new).remark m).diagnostic l' := by
  obtain ⟨s, hs, hstart, hsstop⟩ := span?_diagnostic (l := l) h
  have hspan : Span.between ((ofTexts left old new).move s.start)
      ((ofTexts left old new).move s.stop) =
      Span.between (l'.offset + (ofTexts a old new).move m.start)
        (l'.offset + (ofTexts a old new).move m.stop) := by
    rw [hstart, hsstop, hl.move_offset, hl.move_offset]
  have hlength : (ofTexts left old new).span.length = Text.byteSize old := by
    rw [Span.length, Replacement.stop_ofTexts, Replacement.start_ofTexts, Nat.add_sub_cancel_left]
  have hcolumn := hl.column_move hclear
  rw [Diagnostic.moved, hs, Option.map_some, hspan, hlength]
  simp only [diagnostic, Line.place, true_and, hl.number, Replacement.remark]
  rw [← hcolumn]
  rfl

/-- Diagnostics on lines behind a replacement move with their lines. -/
theorem moved_diagnostic_behind {l : Line} (h : m.start ≤ m.stop) (hline : l.number ≠ line) :
    (m.diagnostic (l.shift (Text.byteSize left + Text.byteSize old))).moved
        (ofTexts left old new) line column =
      m.diagnostic (l.shift (Text.byteSize left + Text.byteSize new)) := by
  obtain ⟨s, hs, hstart, hsstop⟩ := span?_diagnostic
    (l := l.shift (Text.byteSize left + Text.byteSize old)) h
  have hspan : Span.between ((ofTexts left old new).move s.start)
      ((ofTexts left old new).move s.stop) =
      Span.between (Text.byteSize left + Text.byteSize new + l.offset + m.start)
        (Text.byteSize left + Text.byteSize new + l.offset + m.stop) := by
    rw [hstart, hsstop, Line.shift, Nat.add_assoc _ l.offset, Nat.add_assoc _ l.offset,
      Replacement.move_add, Replacement.move_add, Nat.add_assoc _ l.offset,
      Nat.add_assoc _ l.offset]
  rw [Diagnostic.moved, hs, Option.map_some, hspan, if_neg fun h => hline h.1]
  rfl

end Remark

section Program

variable {c : Catalog} {rules : Rules} {locals : List Text} {left a old new : Text}
  {line column : Nat} {ahead qs : Program} {l l' : ProgramLine}

/-- Remarks that are made again give the diagnostics that move. -/
theorem Replacement.Carries.map_diagnostic {ms ms' : List Remark}
    (h : (ofTexts a old new).Carries ms ms') (hl : l.IsReplaced left a old new l'.toLine)
    (hon : ∀ m ∈ ms, m.IsOn l) :
    (ms.map (Remark.diagnostic l.toLine)).map
        (Diagnostic.moved (ofTexts left old new) l.number (l.column (Text.byteSize a))) =
      ms'.map (Remark.diagnostic l'.toLine) := by
  rw [h.eq, List.map_map, List.map_map]
  refine List.map_congr_left fun m hm => ?_
  have hclear := h.clear m hm
  rw [start_ofTexts, stop_ofTexts] at hclear
  exact Remark.moved_diagnostic hl (hon m hm).start_le_stop hclear

namespace Program

/-- The diagnostics on lines before a replacement stay as they are. -/
theorem map_moved_ahead (hread : ∀ q ∈ ahead, q.IsRead) (hold : old ≠ [])
    (h : ∀ q ∈ ahead, q.number ≠ line ∧ q.offset + Text.byteSize q.text ≤ Text.byteSize left) :
    (ahead.flatMap (ProgramLine.check c rules locals)).map
        (Diagnostic.moved (ofTexts left old new) line column) =
      ahead.flatMap (ProgramLine.check c rules locals) := by
  conv_rhs => rw [← List.map_id (ahead.flatMap _)]
  refine List.map_congr_left fun d hd => ?_
  obtain ⟨q, hq, hd⟩ := List.mem_flatMap.1 hd
  obtain ⟨n, hn, rfl⟩ := List.mem_map.1 hd
  have hon := isOn_of_mem_remarks (hread q hq) hn
  have hstop := hon.stop_le
  have hline := h q hq
  exact Remark.moved_diagnostic_before hon.start_le_stop hold hline.1 (by omega)

/-- The diagnostics on lines behind a replacement move with their lines. -/
theorem map_moved_behind
    (hread : ∀ q ∈ qs.map (ProgramLine.shift (Text.byteSize left + Text.byteSize old)), q.IsRead)
    (h : ∀ q ∈ qs, q.number ≠ line) :
    ((qs.map (ProgramLine.shift (Text.byteSize left + Text.byteSize old))).flatMap
        (ProgramLine.check c rules locals)).map
        (Diagnostic.moved (ofTexts left old new) line column) =
      (qs.map (ProgramLine.shift (Text.byteSize left + Text.byteSize new))).flatMap
        (ProgramLine.check c rules locals) := by
  rw [List.flatMap_map, List.flatMap_map, List.map_flatMap]
  refine List.flatMap_congr fun q hq => ?_
  rw [ProgramLine.check, ProgramLine.check, List.map_map]
  refine List.map_congr_left fun n hn => ?_
  have hon : n.IsOn (q.shift (Text.byteSize left + Text.byteSize old)) :=
    isOn_of_mem_remarks (hread _ (List.mem_map_of_mem hq)) hn
  exact Remark.moved_diagnostic_behind (l := q.toLine) hon.start_le_stop (h q hq)

/-- If the remarks on the line of a replacement are made again, except for some that give way to
others, then all other diagnostics of the program move. -/
theorem flatMap_check_replaced (hl : l.IsReplaced left a old new l'.toLine)
    (hread : ∀ q ∈ ahead ++
      l :: qs.map (ProgramLine.shift (Text.byteSize left + Text.byteSize old)), q.IsRead)
    (hplaces : (ahead ++ l :: qs.map (ProgramLine.shift (Text.byteSize left +
      Text.byteSize old))).Pairwise fun q q' => q.IsBefore q'.toLine)
    {ms ks ns ms' ks' ns' : List Remark}
    (hremarks : l.bindingRemarks ++ l.callRemarks c rules locals = ms ++ (ks ++ ns))
    (hremarks' : l'.bindingRemarks ++ l'.callRemarks c rules locals = ms' ++ (ks' ++ ns'))
    (hms : (ofTexts a old new).Carries ms ms') (hns : (ofTexts a old new).Carries ns ns') :
    (ahead ++ l' :: qs.map (ProgramLine.shift (Text.byteSize left + Text.byteSize new))).flatMap
        (ProgramLine.check c rules locals) =
      (ahead.flatMap (ProgramLine.check c rules locals) ++
        ms.map (Remark.diagnostic l.toLine)).map
          (Diagnostic.moved (ofTexts left old new) l.number (l.column (Text.byteSize a))) ++
      ks'.map (Remark.diagnostic l'.toLine) ++
      (ns.map (Remark.diagnostic l.toLine) ++
        (qs.map (ProgramLine.shift (Text.byteSize left + Text.byteSize old))).flatMap
          (ProgramLine.check c rules locals)).map
          (Diagnostic.moved (ofTexts left old new) l.number (l.column (Text.byteSize a))) := by
  let move := Diagnostic.moved (ofTexts left old new) l.number (l.column (Text.byteSize a))
  have hplaces := List.pairwise_append.1 hplaces
  have hon : ∀ n ∈ ms ++ (ks ++ ns), n.IsOn l := fun n hn =>
    isOn_of_mem_remarks (hread l (by simp)) (hremarks ▸ hn)
  have hahead : (ahead.flatMap (ProgramLine.check c rules locals)).map move =
      ahead.flatMap (ProgramLine.check c rules locals) :=
    map_moved_ahead (fun q hq => hread q (List.mem_append_left _ hq)) hl.ne_nil fun q hq => by
      have hlt := hplaces.2.2 q hq l List.mem_cons_self
      have hplace := hl.place
      exact ⟨hlt.number.ne, hlt.offset.trans (by omega)⟩
  have hbefore : (ms.map (Remark.diagnostic l.toLine)).map move =
      ms'.map (Remark.diagnostic l'.toLine) :=
    hms.map_diagnostic hl fun n hn => hon n (by simp [hn])
  have hafter : (ns.map (Remark.diagnostic l.toLine)).map move =
      ns'.map (Remark.diagnostic l'.toLine) :=
    hns.map_diagnostic hl fun n hn => hon n (by simp [hn])
  have hbehind : ((qs.map (ProgramLine.shift (Text.byteSize left +
      Text.byteSize old))).flatMap (ProgramLine.check c rules locals)).map move =
      (qs.map (ProgramLine.shift (Text.byteSize left + Text.byteSize new))).flatMap
        (ProgramLine.check c rules locals) :=
    map_moved_behind
      (fun q hq => hread q (List.mem_append_right _ (List.mem_cons_of_mem l hq))) fun q hq =>
        ((List.pairwise_cons.1 hplaces.2.1).1 _ (List.mem_map_of_mem hq)).number.ne'
  have hfirst := List.map_append.trans (congrArg₂ HAppend.hAppend hahead hbefore)
  have hlast := List.map_append.trans (congrArg₂ HAppend.hAppend hafter hbehind)
  rw [hfirst, hlast, List.flatMap_append, List.flatMap_cons, ProgramLine.check, hremarks']
  simp only [List.map_append, List.append_assoc]

end Program

end Program

end DspCheck
