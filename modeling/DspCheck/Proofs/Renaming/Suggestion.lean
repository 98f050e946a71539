import DspCheck.Check.Validation
import DspCheck.Proofs.OrderedMap
import DspCheck.Proofs.Renaming.Calls
import DspCheck.Proofs.Renaming.Moved

/-!
# Suggested names repair what they are suggested for

A call of an unknown function is reported with the names of similar functions.  If one of them is
put in the place of the unknown one, the report goes away or becomes one about the number of
arguments, and all other diagnostics are made again: as they are before the name, and moved behind
it.

Main statement: `repairs_unknownFunction`.
-/

namespace DspCheck

namespace Catalog

/-- Every function of a catalog is listed under its full name, which is made of two identifiers. -/
def IsKeyed (c : Catalog) : Prop :=
  ∀ e ∈ c.functions.entries, e.1 = e.2.fullName ∧
    e.2.fullName = Ident.qualified e.2.library e.2.name ∧
    Ident.isIdent e.2.library = true ∧ Ident.isIdent e.2.name = true

/-- A suggested name is the key of a function of the library. -/
theorem IsKeyed.exists_of_mem_suggestions {c : Catalog} (hc : c.IsKeyed)
    {library name target : Text} {limit : Nat} (h : target ∈ c.suggestions library name limit) :
    ∃ s : Signature, c.get? target = some s ∧ target = Ident.qualified library s.name ∧
      Ident.isIdent s.name = true := by
  have hcandidate : target ∈ c.candidates library name := by
    rw [suggestions] at h
    exact List.mem_mergeSort.1 (List.mem_of_mem_take h)
  obtain ⟨s, hs, rfl⟩ := List.mem_map.1 hcandidate
  obtain ⟨hs, hlibrary⟩ := List.mem_filter.1 (List.mem_filter.1 hs).1
  obtain ⟨e, he, rfl⟩ := List.mem_map.1 hs
  obtain ⟨hkey, hfull, -, hname⟩ := hc e he
  rw [decide_eq_true_eq] at hlibrary
  refine ⟨e.2, OrderedMap.get?_eq_some_iff.2 ?_, by rw [hfull, hlibrary], hname⟩
  rw [← hkey]
  exact he

end Catalog

section Unknown

variable {c : Catalog} {rules : Rules} {locals recursive : List Text}

namespace Reference

/-- With the name of a function of the library the call can only have a wrong number of
arguments. -/
theorem remarkIn?_standing {position : Nat} {library name name' b : Text} {s : Signature}
    (hcall : ((standing position library name b).isCall && !locals.contains library) = true)
    (hlibrary : c.hasLibrary library = true)
    (hs : c.get? (Ident.qualified library name') = some s) :
    (standing position library name' b).remarkIn? c rules locals recursive =
      (standing position library name' b).argumentRemark? s := by
  have hget : c.get? (standing position library name' b).fullName = some s := hs
  have hcall' : ((standing position library name' b).isCall &&
      !locals.contains (standing position library name' b).library) = true := hcall
  have hlibrary' : c.hasLibrary (standing position library name' b).library = true := hlibrary
  rw [remarkIn?, if_pos hcall', remark?, hlibrary', hget]
  rfl

end Reference

end Unknown

namespace Ident

/-- A full name of two texts without dots is the full name of no other texts. -/
theorem qualified_inj {library name library' name' : Text} (hl : '.' ∉ library')
    (hn : '.' ∉ name') (h : qualified library name = qualified library' name') :
    library = library' ∧ name = name' := by
  rw [qualified, qualified] at h
  rcases List.append_eq_append_iff.1 h with ⟨t, ht, hrest⟩ | ⟨t, ht, hrest⟩
  · cases t with
    | nil =>
        exact ⟨(ht.trans (List.append_nil library)).symm, (List.cons.inj hrest).2⟩
    | cons d t =>
        obtain ⟨rfl, -⟩ := List.cons.inj hrest
        exact absurd (ht ▸ List.mem_append_right library List.mem_cons_self) hl
  · cases t with
    | nil =>
        exact ⟨ht.trans (List.append_nil library'), (List.cons.inj hrest).2.symm⟩
    | cons d t =>
        obtain ⟨-, hname⟩ := List.cons.inj hrest
        exact absurd (hname ▸ List.mem_append_right t List.mem_cons_self) hn

end Ident

open Replacement (ofTexts)

/-- A reference on a line of a program stands in the source text, between `left` and `right`. -/
structure Reference.IsWritten (r : Reference) (l : Line) (source left right : Text) : Prop where
  library : Ident.isIdent r.library = true
  name : Ident.isIdent r.name = true
  stop : r.stop = r.start + Text.byteSize r.fullName
  split : source = left ++ (r.fullName ++ right)
  place : Text.byteSize left = l.offset + r.start

/-- A line with another text in the place of a reference on it. -/
theorem Reference.IsRun.isReplaced {l : ProgramLine} {r : Reference} {a b left front rest : Text}
    (hrun : r.IsRun l.code a b) (hplace : Text.byteSize left = l.offset + Text.byteSize a)
    (hfront : Text.byteSize front = Text.byteSize a)
    (htext : l.text = front ++ (r.fullName ++ rest)) {name' : Text}
    (hn' : Ident.isIdent name' = true) (references : List Reference) :
    l.IsReplaced left a r.fullName (Ident.qualified r.library name')
      (l.withText front rest a b (Ident.qualified r.library name') references).toLine := by
  have hascii : ∀ {n : Text}, Ident.isIdent n = true →
      ∀ c ∈ Ident.qualified r.library n, Text.isAscii c = true := fun hn c hc =>
    Reference.isAscii_of_isRunChar (Reference.isRunChar_of_mem_qualified hrun.library hn hc)
  exact {
    number := rfl
    offset := rfl
    place := hplace
    split := ⟨front, rest, hfront, htext, rfl⟩
    ne_nil := by simp [Reference.fullName, Ident.qualified]
    ascii_old := hascii hrun.name
    ascii_new := hascii hn' }

/-- The diagnostics of a program in which a function with a signature is called, on the line `l'`,
in the place of an unknown one on the line `l` of another program: those that the other program has
before the call and behind it, moved, and what is found about the number of arguments. -/
structure Program.IsRepaired (c : Catalog) (rules : Rules) (l : ProgramLine) (r : Reference)
    (left new : Text) (s : Signature) (front back : List Diagnostic) (p : Program)
    (l' : ProgramLine) (found? : Option Remark) : Prop where
  number : l'.number = l.number
  offset : l'.offset = l.offset
  column : l'.column r.start = l.column r.start
  found : ∀ m ∈ found?, m.start = r.start ∧ ∃ given, m.finding = .argumentCount new s given
  check : p.check c rules =
    front.map (Diagnostic.moved (ofTexts left r.fullName new) l.number (l.column r.start)) ++
      found?.toList.map (Remark.diagnostic l'.toLine) ++
      back.map (Diagnostic.moved (ofTexts left r.fullName new) l.number (l.column r.start))

/-- A program in which an unknown function is called under the name of another one of its library
is repaired. -/
theorem Program.exists_check_renamed {c : Catalog} {rules : Rules} {source : Text}
    {ahead others : Program} {l : ProgramLine} (hp : ofSource source = .ok (ahead ++ l :: others))
    {locals : List Text} (hlocals : locals = localLibraries (ahead ++ l :: others))
    {ms ns : List Remark} {m : Remark}
    (hcalls : l.callRemarks c rules locals = ms ++ m :: ns)
    (hm : m.finding.code = .unknownFunction) :
    ∃ (r : Reference) (left right : Text), m = r.unknownFunction c rules ∧
      r.IsWritten l.toLine source left right ∧
      ∀ (name' : Text) (s : Signature), Ident.isIdent name' = true →
        c.get? (Ident.qualified r.library name') = some s →
        ∃ (p : Program) (l' : ProgramLine) (found? : Option Remark),
          ofSource (left ++ (Ident.qualified r.library name' ++ right)) = .ok p ∧
          IsRepaired c rules l r left (Ident.qualified r.library name') s
            (ahead.flatMap (ProgramLine.check c rules locals) ++
              (l.bindingRemarks ++ ms).map (Remark.diagnostic l.toLine))
            (ns.map (Remark.diagnostic l.toLine) ++
              others.flatMap (ProgramLine.check c rules locals)) p l' found? := by
  have hread : ∀ q ∈ ahead ++ l :: others, q.IsRead := fun q hq => isRead_of_mem hp hq
  obtain ⟨r, a, b, hrun, hstanding, hr, hrenamedCalls⟩ :=
    ProgramLine.exists_callRemarks (hread l (by simp)).scanned hcalls
  obtain ⟨hcall, hlibrary, rfl⟩ := Reference.of_remarkIn?_unknownFunction hr hm
  rw [hstanding] at hcall
  have hb : b ≠ [] := by
    rintro rfl
    cases hcall
  have hstart : r.start = Text.byteSize a := by
    rw [hstanding]
    rfl
  have hstop : r.stop = r.start + Text.byteSize r.fullName := by
    rw [hstart, hstanding]
    rfl
  obtain ⟨left, right, front, rest, qs, hsource, hleft, htext, hfront, rfl, hrenamed⟩ :=
    exists_renamed hp hrun hb
  refine ⟨r, left, right, rfl,
    ⟨hrun.library, hrun.name, hstop, hsource, by rw [hleft, hstart]⟩, fun name' s hn' hs => ?_⟩
  obtain ⟨references, hscan', hp'⟩ := hrenamed name' hn'
  have hreplaced := hrun.isReplaced hleft hfront htext hn' references
  let l' := l.withText front rest a b (Ident.qualified r.library name') references
  have hdepth : l'.depth = l.depth := rfl
  obtain ⟨hlibraries, hrecursive, hbindings⟩ :=
    Line.bindings_renamed hrun.front hrun.library hrun.name hn' hdepth hrun.split rfl
  obtain ⟨front', back', hcalls', hfront', hback'⟩ :=
    hrenamedCalls name' l' hn' rfl hscan' hrecursive
  rw [Reference.remarkIn?_standing hcall hlibrary hs] at hcalls'
  have hlocals' : localLibraries (ahead ++ l' :: qs.map (ProgramLine.shift
      (Text.byteSize left + Text.byteSize (Ident.qualified r.library name')))) = locals := by
    simp only [hlocals, localLibraries_eq_flatMap, List.flatMap_append, List.flatMap_cons,
      List.flatMap_map, hlibraries]
    rfl
  have hremarks : l.bindingRemarks ++ l.callRemarks c rules locals =
      (l.bindingRemarks ++ ms) ++ ([r.unknownFunction c rules] ++ ns) := by
    rw [hcalls, List.append_assoc, List.singleton_append]
  have hremarks' : l'.bindingRemarks ++ l'.callRemarks c rules locals =
      (l'.bindingRemarks ++ front') ++ ((Reference.argumentRemark? s (Reference.standing
        (Text.byteSize a) r.library name' b)).toList ++ back') := by
    rw [hcalls', List.append_assoc, List.append_assoc]
  exact ⟨_, l', (Reference.standing (Text.byteSize a) r.library name' b).argumentRemark? s, hp', {
    number := rfl
    offset := rfl
    column := by rw [hstart, hreplaced.column_eq]
    found := by
      intro m' hm'
      obtain ⟨given, hfinding, hm'start⟩ := Reference.of_argumentRemark?_eq_some hm'
      exact ⟨by rw [hm'start, hstart]; rfl, given, hfinding⟩
    check := by
      rw [hstart, Program.check, hlocals']
      exact flatMap_check_replaced hreplaced hread (pairwise_ofSource hp) hremarks hremarks'
        (hbindings.append hfront') hback' }⟩

/-- A suggested name in the place of an unknown function repairs the call, up to the number of its
arguments, and changes nothing else. -/
theorem repairs_unknownFunction {c : Catalog} {rules : Rules} {source : Text} (hc : c.IsKeyed)
    {front back : List Diagnostic} {d : Diagnostic}
    (hcheck : check c rules source = .ok (front ++ d :: back))
    (hcode : d.code? = some .unknownFunction) {library name target : Text}
    (hmessage : d.message = "unknown function " ++ Text.quoted (Ident.qualified library name))
    (htarget : target ∈ c.suggestions library name rules.maxSuggestions) :
    ∃ (span : Span) (before behind : Text) (instead : List Diagnostic),
      d.span? = some span ∧ source = before ++ (Ident.qualified library name ++ behind) ∧
      span.start = Text.byteSize before ∧
      span.stop = Text.byteSize before + Text.byteSize (Ident.qualified library name) ∧
      check c rules (before ++ (target ++ behind)) =
        .ok (front.map (Diagnostic.moved ⟨span, Text.byteSize target⟩ d.line d.column) ++ instead ++
          back.map (Diagnostic.moved ⟨span, Text.byteSize target⟩ d.line d.column)) ∧
      (instead = [] ∨ ∃ signature given stop, c.get? target = some signature ∧
        instead = [{ (Finding.argumentCount target signature given).diagnostic with
          line := d.line
          column := d.column
          span? := some (Span.between span.start stop) }]) := by
  cases hp : Program.ofSource source with
  | error e =>
      rw [check, hp] at hcheck
      cases hcheck
  | ok p =>
      rw [check, hp] at hcheck
      have hdiagnostics : p.flatMap (ProgramLine.check c rules p.localLibraries) =
          front ++ d :: back := Except.ok.inj hcheck
      obtain ⟨ahead, l, others, ahead', behind', rfl, hline, rfl, rfl⟩ :=
        exists_of_flatMap_eq_append hdiagnostics
      obtain ⟨ms, m, ns, hcalls, rfl, hm, rfl, rfl⟩ :=
        ProgramLine.exists_of_check_eq_append hline hcode
      obtain ⟨r, left, right, rfl, hwritten, hrenamed⟩ :=
        Program.exists_check_renamed hp rfl hcalls hm
      obtain ⟨rfl, rfl⟩ : r.library = library ∧ r.name = name := by
        have hquoted : Text.quoted (Ident.qualified r.library r.name) =
            Text.quoted (Ident.qualified library name) :=
          List.append_cancel_left hmessage
        have hname : Ident.qualified library name = Ident.qualified r.library r.name := by
          simpa [Text.quoted] using hquoted.symm
        obtain ⟨hl', hn'⟩ :=
          Ident.qualified_inj (Ident.dot_notMem hwritten.library) (Ident.dot_notMem hwritten.name)
            hname
        exact ⟨hl'.symm, hn'.symm⟩
      obtain ⟨s, hs, rfl, hn'⟩ := hc.exists_of_mem_suggestions htarget
      obtain ⟨p', l', found?, hp', hrepaired⟩ := hrenamed s.name s hn' hs
      have hspan : (Remark.diagnostic l.toLine (r.unknownFunction c rules)).span? =
          some (ofTexts left r.fullName (Ident.qualified r.library s.name)).span := by
        show some (Span.between (l.offset + r.start) (l.offset + r.stop)) = _
        rw [hwritten.stop, ← Nat.add_assoc, ← hwritten.place]
        rfl
      refine ⟨_, left, right, found?.toList.map (Remark.diagnostic l'.toLine), hspan,
        hwritten.split, rfl, Replacement.stop_ofTexts, ?_, ?_⟩
      · rw [check, hp']
        exact congrArg Except.ok hrepaired.check
      · cases found? with
        | none =>
            exact Or.inl rfl
        | some m' =>
            obtain ⟨hstart, given, hfinding⟩ := hrepaired.found m' rfl
            refine Or.inr ⟨s, given, l'.offset + m'.stop, hs, ?_⟩
            show [m'.diagnostic l'.toLine] = [_]
            rw [Remark.diagnostic, Line.place, hfinding, hstart, hrepaired.number,
              hrepaired.column, hrepaired.offset, ← hwritten.place]
            rfl

/-- A catalog of one function with two arguments. -/
def phasorCatalog : Catalog :=
  Catalog.ofParts [] (OrderedMap.ofList [("os.lib", ⟨"os.lib", "os", 1⟩)])
    (OrderedMap.ofList [("os.phasor", Signature.ofShape "os" "phasor" ["N", "f"] 0 1)])

/-- The theorem at a call with too few arguments, between two other remarks on its line. -/
theorem repairs_unknownFunction_phasor :
    phasorCatalog.IsKeyed ∧ ∃ (front back : List Diagnostic) (d : Diagnostic),
      front ≠ [] ∧ back ≠ [] ∧ d.code? = some .unknownFunction ∧
      check phasorCatalog .standard "y = \"é\"; p = os.phaser(1) + os.noise(2);" =
        .ok (front ++ d :: back) ∧
      ∃ (span : Span) (before behind : Text) (instead : List Diagnostic),
        d.span? = some span ∧ "y = \"é\"; p = os.phaser(1) + os.noise(2);".toList =
          before ++ ("os.phaser".toList ++ behind) ∧
        check phasorCatalog .standard (before ++ ("os.phasor".toList ++ behind)) =
          .ok (front.map (Diagnostic.moved ⟨span, 9⟩ d.line d.column) ++ instead ++
            back.map (Diagnostic.moved ⟨span, 9⟩ d.line d.column)) := by
  have hkeyed : phasorCatalog.IsKeyed :=
    List.forall_mem_singleton.2 (by decide)
  have hcheck : check phasorCatalog .standard "y = \"é\"; p = os.phaser(1) + os.noise(2);" =
      .ok ([(Finding.stringAssignment "y").diagnostic.putAt "y = " "\"é\""] ++
        (Finding.unknownFunction "os" "phaser" ["os.phasor"]).diagnostic.putAt
          "y = \"é\"; p = " "os.phaser" ::
        [(Finding.unknownFunction "os" "noise" []).diagnostic.putAt
          "y = \"é\"; p = os.phaser(1) + " "os.noise"]) := by
    decide +kernel
  have hmessage : ((Finding.unknownFunction "os" "phaser" ["os.phasor"]).diagnostic.putAt
      "y = \"é\"; p = " "os.phaser").message =
      "unknown function " ++ Text.quoted (Ident.qualified "os" "phaser") := rfl
  have htarget : "os.phasor".toList ∈ phasorCatalog.suggestions "os" "phaser" 5 := by
    decide +kernel
  obtain ⟨span, before, behind, instead, hspan, hsource, -, -, hrepaired, -⟩ :=
    repairs_unknownFunction hkeyed hcheck rfl hmessage htarget
  exact ⟨hkeyed, _, _, _, List.cons_ne_nil _ _, List.cons_ne_nil _ _, rfl, hcheck, span, before,
    behind, instead, hspan, hsource, hrepaired⟩

end DspCheck
