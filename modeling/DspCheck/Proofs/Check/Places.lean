import DspCheck.Check.Validation
import DspCheck.Command.Notice
import DspCheck.Proofs.Source.Masking
import DspCheck.Proofs.Source.Program
import DspCheck.Proofs.Source.Reference
import DspCheck.Proofs.Source.Statement

/-!
# Where diagnostics point

Checks find their remarks in masked lines.  A remark *marks* a text of the line as it is written if
that text stands at the positions of the remark and is what the finding is about
(`Finding.IsAbout`).  Each check yields remarks that mark a text, since the ends of what it finds
are no blanks, and these are the same in a masked line and in the line itself.

From lines this carries over to programs: every diagnostic with a line points at a text of the
program (`exists_pointsAt_of_validate`).
-/

namespace DspCheck

namespace Finding

/-- What a finding is about: the text `under`, with `behind` behind it, at a place where the
references `here` start. -/
def IsAbout (here : Reference → Prop) (under behind : Text) : Finding → Prop
  | unknownFunction library name _ => under = Ident.qualified library name
  | argumentCount fullName _ _ => ∃ t, under = fullName ++ t ++ [')']
  | recursiveDefinition name => under = name
  | stringAssignment _ => ∃ t, under = '"' :: t ++ ['"']
  | missingEntryPoint _ => False
  | unknownLibrary library _ => under = library
  | missingImport library => under = library
  | oversizedDelay _ _ =>
      under = ['@'] ∨
        ∃ r, here r ∧ Text.endsWith "delay" r.name = true ∧ Text.byteSize under = 1 ∧
          r.fullName <+: under ++ behind

theorem IsAbout.mono {here here' : Reference → Prop} {under behind behind' : Text} {f : Finding}
    (h : f.IsAbout here under behind) (hhere : ∀ r, here r → here' r)
    (hbehind : behind <+: behind') : f.IsAbout here' under behind' := by
  cases f with
  | oversizedDelay samples limit =>
      rcases h with h | ⟨r, hr, hdelay, hbyte, hprefix⟩
      · exact Or.inl h
      · exact Or.inr ⟨r, hhere r hr, hdelay, hbyte,
          hprefix.trans ((List.prefix_append_right_inj under).2 hbehind)⟩
  | _ =>
      exact h

end Finding

namespace Line

/-- What stands in a masked line between two ends without blanks stands between them in the line
itself, at the same place. -/
theorem exists_between {l : Line} (hmask : ∃ mode, l.code = Text.mask mode l.text)
    {b x m y a : Text} (hcode : l.code = b ++ x ++ m ++ y ++ a) (hx : ' ' ∉ x) (hx' : x ≠ [])
    (hy : ' ' ∉ y) (hy' : y ≠ []) :
    ∃ b' m' a', l.text = b' ++ (x ++ m' ++ y) ++ a' ∧ Text.byteSize b' = Text.byteSize b ∧
      Text.byteSize m' = Text.byteSize m := by
  obtain ⟨mode, hmode⟩ := hmask
  have hfirst : Text.mask mode l.text = b ++ x ++ (m ++ y ++ a) := by
    rw [← hmode, hcode]
    simp
  obtain ⟨b', rest, mode', htext, hb, hrest⟩ := Text.exists_of_mask_eq hfirst hx hx'
  obtain ⟨m', a', -, hrest', hm, -⟩ := Text.exists_of_mask_eq hrest hy hy'
  exact ⟨b', m', a', by rw [htext, hrest']; simp, hb, hm⟩

/-- What stands in a masked line without blanks stands in the line itself, at the same place. -/
theorem exists_of_code {l : Line} (hmask : ∃ mode, l.code = Text.mask mode l.text)
    {b x a : Text} (hcode : l.code = b ++ x ++ a) (hx : ' ' ∉ x) (hx' : x ≠ []) :
    ∃ b' a', l.text = b' ++ x ++ a' ∧ Text.byteSize b' = Text.byteSize b := by
  obtain ⟨mode, hmode⟩ := hmask
  obtain ⟨b', a', -, htext, hb, -⟩ := Text.exists_of_mask_eq (hmode.symm.trans hcode) hx hx'
  exact ⟨b', a', htext, hb⟩

end Line

namespace Remark

/-- A remark marks a text of a line that its finding is about. -/
structure Marks (m : Remark) (l : ProgramLine) (front under rest : Text) : Prop where
  split : l.text = front ++ under ++ rest
  start : m.start = Text.byteSize front
  stop : m.stop = Text.byteSize front + Text.byteSize under
  about : m.finding.IsAbout (fun r => r ∈ l.references ∧ r.start = Text.byteSize front) under rest

/-- A remark marks some text of a line. -/
def IsOn (m : Remark) (l : ProgramLine) : Prop :=
  ∃ front under rest, m.Marks l front under rest

end Remark

namespace ProgramLine

/-- A line as it is read from a program: masked, and with its references. -/
structure IsRead (l : ProgramLine) : Prop where
  masked : ∃ mode, l.code = Text.mask mode l.text
  scanned : Reference.scan l.code = .ok l.references

section Remarks

variable {l : ProgramLine}

theorem isOn_of_recursion? (hl : l.IsRead) {b : Binding} (hb : b ∈ l.bindings) {m : Remark}
    (hm : b.recursion? = some m) : m.IsOn l := by
  obtain ⟨hname, front, middle, rest, hcode, hstart, -⟩ := Line.exists_of_mem_bindings hb
  have hcode' : l.code = front ++ b.name ++ (middle ++ b.value ++ rest) := by
    rw [hcode]
    simp
  obtain ⟨front', rest', htext, hfront⟩ :=
    Line.exists_of_code hl.masked hcode' (Ident.blank_notMem hname) (Ident.ne_nil hname)
  unfold Binding.recursion? at hm
  split at hm
  · obtain rfl := Option.some.inj hm
    exact ⟨front', b.name, rest', htext, by rw [hfront, hstart], by rw [hfront, hstart], rfl⟩
  · cases hm

theorem isOn_of_stringValue? (hl : l.IsRead) {b : Binding} (hb : b ∈ l.bindings) {m : Remark}
    (hm : b.stringValue? = some m) : m.IsOn l := by
  obtain ⟨-, front, middle, rest, hcode, -, hstart⟩ := Line.exists_of_mem_bindings hb
  obtain ⟨literal, hliteral, rfl⟩ := Option.map_eq_some_iff.1 hm
  unfold Binding.literal? at hliteral
  split at hliteral
  · next value hvalue =>
      split at hliteral
      · cases hliteral
      · next content behind hbreak =>
          dsimp only at hliteral
          split at hliteral
          · obtain rfl := Option.some.inj hliteral
            have hcode' : l.code =
                front ++ b.name ++ middle ++ ['"'] ++ content ++ ['"'] ++ (behind ++ rest) := by
              rw [hcode, hvalue, Text.append_of_breakAt? hbreak]
              simp
            obtain ⟨front', content', rest', htext, hfront, hcontent⟩ :=
              Line.exists_between hl.masked hcode' (by decide) (by decide) (by decide) (by decide)
            refine ⟨front', ['"'] ++ content' ++ ['"'], rest', htext, by rw [hfront, hstart], ?_,
              content', rfl⟩
            simp only [List.cons_append, List.nil_append, Text.byteSize_append, Text.byteSize_cons,
              Text.byteSize_nil, hfront, hcontent, hstart]
            rfl
          · cases hliteral
  · cases hliteral

/-- Where a reference stands, its full name stands in the line as it is written. -/
theorem exists_of_mem_references (hl : l.IsRead) {r : Reference} (hr : r ∈ l.references) :
    ∃ front rest, l.text = front ++ r.fullName ++ rest ∧ r.start = Text.byteSize front ∧
      r.stop = r.start + Text.byteSize r.fullName ∧ Ident.isIdent r.library = true := by
  obtain ⟨front, blanks, h⟩ := Reference.exists_stands_of_scan hl.scanned hr
  have hcode : l.code = front ++ r.fullName ++ (blanks ++ r.follow) := by
    rw [h.split]
    simp
  have hne : r.fullName ≠ [] := by
    rw [Reference.fullName, Ident.qualified]
    simp
  obtain ⟨front', rest', htext, hfront⟩ :=
    Line.exists_of_code hl.masked hcode (Ident.blank_notMem_qualified h.library h.name) hne
  exact ⟨front', rest', htext, by rw [hfront, h.start], h.stop, h.library⟩

/-- A remark about the library of a reference marks its name. -/
theorem isOn_of_library (hl : l.IsRead) {r : Reference} (hr : r ∈ l.references) {f : Finding}
    (hf : ∀ here behind, f.IsAbout here r.library behind) :
    Remark.IsOn ⟨f, r.start, r.start + Text.byteSize r.library⟩ l := by
  obtain ⟨front, rest, htext, hstart, -, -⟩ := exists_of_mem_references hl hr
  refine ⟨front, r.library, '.' :: r.name ++ rest, ?_, hstart, by rw [hstart], hf _ _⟩
  rw [htext, Reference.fullName, Ident.qualified]
  simp

theorem isOn_unknownFunction (hl : l.IsRead) {r : Reference} (hr : r ∈ l.references)
    (c : Catalog) (rules : Rules) : (r.unknownFunction c rules).IsOn l := by
  obtain ⟨front, rest, htext, hstart, hstop, -⟩ := exists_of_mem_references hl hr
  exact ⟨front, r.fullName, rest, htext, hstart, by rw [← hstart]; exact hstop, rfl⟩

theorem isOn_of_argumentRemark? (hl : l.IsRead) {r : Reference} (hr : r ∈ l.references)
    {s : Signature} {m : Remark} (hm : r.argumentRemark? s = some m) : m.IsOn l := by
  obtain ⟨front, blanks, h⟩ := Reference.exists_stands_of_scan hl.scanned hr
  unfold Reference.argumentRemark? at hm
  split at hm
  · cases hm
  · next list hlist =>
      split at hm
      · cases hm
      · obtain rfl := Option.some.inj hm
        -- the list of arguments ends in its closing parenthesis
        obtain ⟨inner, hextent⟩ : ∃ inner, list.extent = inner ++ [')'] := by
          unfold ArgumentList.read? at hlist
          split at hlist
          · obtain ⟨pieces, -, rfl⟩ := Option.map_eq_some_iff.1 hlist
            exact ⟨'(' :: Text.join "," pieces.1, rfl⟩
          · cases hlist
        have hcode : l.code =
            front ++ r.fullName ++ (blanks ++ inner) ++ [')'] ++ list.rest := by
          rw [h.split, ← ArgumentList.extent_append_rest hlist, hextent]
          simp
        have hne : r.fullName ≠ [] := by
          rw [Reference.fullName, Ident.qualified]
          simp
        obtain ⟨front', inner', rest', htext, hfront, hinner⟩ :=
          Line.exists_between hl.masked hcode (Ident.blank_notMem_qualified h.library h.name) hne
            (by decide) (by decide)
        refine ⟨front', r.fullName ++ inner' ++ [')'], rest', htext, by rw [hfront, h.start], ?_,
          inner', rfl⟩
        simp only [ArgumentList.consumed, hextent, h.followStart, h.stop, h.start,
          Text.byteSize_append, hfront, hinner]
        omega

theorem isOn_of_remark? (hl : l.IsRead) {r : Reference} (hr : r ∈ l.references) {c : Catalog}
    {rules : Rules} {recursive : List Text} {m : Remark}
    (hm : r.remark? c rules recursive = some m) : m.IsOn l := by
  unfold Reference.remark? at hm
  split at hm
  · split at hm
    · cases hm
    · obtain rfl := Option.some.inj hm
      exact isOn_of_library hl hr fun _ _ => rfl
  · split at hm
    · obtain rfl := Option.some.inj hm
      exact isOn_unknownFunction hl hr c rules
    · exact isOn_of_argumentRemark? hl hr hm

/-- A constant behind an at sign is recorded at the position of the sign. -/
theorem exists_of_mem_operandsFrom {position : Nat} {t : Text} {d : DelayConstant}
    (h : d ∈ DelayConstant.operandsFrom position t) :
    ∃ front rest, t = front ++ ['@'] ++ rest ∧ d.position = position + Text.byteSize front := by
  induction t generalizing position with
  | nil =>
      cases h
  | cons c t ih =>
      unfold DelayConstant.operandsFrom at h
      rcases List.mem_append.1 h with h | h
      · obtain ⟨value, hvalue, rfl⟩ := List.mem_map.1 h
        split at hvalue
        · next hc =>
            subst hc
            exact ⟨[], t, rfl, rfl⟩
        · cases hvalue
      · obtain ⟨front, rest, ht, hposition⟩ := ih h
        refine ⟨c :: front, rest, by rw [ht]; rfl, ?_⟩
        rw [hposition, Text.byteSize_cons, Nat.add_assoc]

theorem isOn_of_operand (hl : l.IsRead) {d : DelayConstant}
    (hd : d ∈ DelayConstant.operandsFrom 0 l.code) (limit : Nat) :
    Remark.IsOn ⟨.oversizedDelay d.samples limit, d.position, d.position + 1⟩ l := by
  obtain ⟨front, rest, hcode, hposition⟩ := exists_of_mem_operandsFrom hd
  rw [Nat.zero_add] at hposition
  obtain ⟨front', rest', htext, hfront⟩ :=
    Line.exists_of_code hl.masked hcode (by decide) (by decide)
  exact ⟨front', ['@'], rest', htext, by rw [hfront, hposition], by rw [hfront, hposition]; rfl,
    Or.inl rfl⟩

theorem isOn_of_ofCall? (hl : l.IsRead) {r : Reference} (hr : r ∈ l.references)
    {d : DelayConstant} (hd : DelayConstant.ofCall? r = some d) (limit : Nat) :
    Remark.IsOn ⟨.oversizedDelay d.samples limit, d.position, d.position + 1⟩ l := by
  unfold DelayConstant.ofCall? at hd
  split at hd
  · next hdelay =>
      split at hd
      · cases hd
      · obtain ⟨value, -, rfl⟩ := Option.map_eq_some_iff.1 hd
        obtain ⟨front, rest, htext, hstart, -, hlibrary⟩ := exists_of_mem_references hl hr
        obtain ⟨first, others, hcons, hfirst, -⟩ := Ident.isIdent_iff.1 hlibrary
        have hsize : first.utf8Size = 1 :=
          Text.utf8Size_of_isAscii (Ident.isAscii_of_isPart (Ident.isPart_of_isStart hfirst))
        have hname : r.fullName = [first] ++ (others ++ '.' :: r.name) := by
          rw [Reference.fullName, Ident.qualified, hcons]
          simp
        refine ⟨front, [first], others ++ '.' :: r.name ++ rest, ?_, hstart, ?_,
          Or.inr ⟨r, ⟨hr, hstart⟩, hdelay, ?_, ?_⟩⟩
        · rw [htext, hname]
          simp
        · simp [hstart, hsize]
        · simp [hsize]
        · rw [hname]
          exact ⟨rest, by simp⟩
  · cases hd

theorem isOn_of_delay (hl : l.IsRead) {d : DelayConstant} (hd : d ∈ DelayConstant.ofLine l)
    {limit : Nat} {m : Remark} (hm : d.remark? limit = some m) : m.IsOn l := by
  unfold DelayConstant.remark? at hm
  split at hm
  · obtain rfl := Option.some.inj hm
    rw [DelayConstant.ofLine, List.mem_mergeSort] at hd
    rcases List.mem_append.1 hd with hd | hd
    · exact isOn_of_operand hl hd limit
    · obtain ⟨r, hr, hd⟩ := List.mem_filterMap.1 hd
      exact isOn_of_ofCall? hl hr hd limit
  · cases hm

end Remarks
end ProgramLine
end DspCheck
