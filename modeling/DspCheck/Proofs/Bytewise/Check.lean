import DspCheck.Proofs.Bytewise.Reference
import DspCheck.Proofs.Check.Calls
import DspCheck.Proofs.Check.Pointing

/-!
# Bindings and calls by their bytes

The remarks about a line are made from what its bytes show: the closing quote of a string, the
parenthesis of a call and the end of an argument list are positions at which the line is cut.  No
cut fails where the references of the line have been found.

Main statement: `check?_eq`.
-/

namespace DspCheck
namespace Bytewise

open Text (minus? from? byteSize)

/-! ## Argument lists -/

/-- The argument list at the start of a text, and the number of its bytes. -/
def argumentList? (t : Text) : Option (Option (ArgumentList × Nat)) :=
  match ArgumentList.read? t with
  | none => some none
  | some l => (minus? (byteSize t) (byteSize l.rest)).map fun consumed => some (l, consumed)

theorem argumentList?_eq_some (t : Text) :
    argumentList? t = some ((ArgumentList.read? t).map fun l => (l, l.consumed)) := by
  unfold argumentList?
  cases hl : ArgumentList.read? t with
  | none =>
      rfl
  | some l =>
      have hconsumed := Text.minus?_append l.extent l.rest
      rw [ArgumentList.extent_append_rest hl] at hconsumed
      simp only [hconsumed, Option.map_some]
      rfl

theorem read?_eq_none {t : Text} (h : t.head? ≠ some '(') : ArgumentList.read? t = none := by
  unfold ArgumentList.read?
  split
  · exact absurd rfl h
  · rfl

/-! ## Remarks about bindings -/

/-- The remark about a binding whose value is a string. -/
def stringRemark? (b : Binding) : Option (Option Remark) :=
  match Text.after? "\"" b.value with
  | none => some none
  | some literal =>
      match Text.breakAt? "\"" literal with
      | none => some none
      | some (content, _) =>
          (from? (byteSize content + 1) literal).map fun behind =>
            let behind := Text.trim behind
            if behind = [] || behind = ";" then
              some ⟨.stringAssignment b.name, b.valueStart, b.valueStart + byteSize content + 2⟩
            else none

theorem from?_of_breakAt? {literal content behind : Text}
    (h : Text.breakAt? "\"" literal = some (content, behind)) :
    from? (byteSize content + 1) literal = some behind := by
  have hquote : byteSize content + 1 = byteSize (content ++ ['"']) := by
    rw [Text.byteSize_append]
    rfl
  rw [Text.append_of_breakAt? h, hquote]
  exact Text.from?_append (content ++ ['"']) behind

theorem stringRemark?_eq_some (b : Binding) : stringRemark? b = some b.stringValue? := by
  unfold stringRemark? Binding.stringValue? Binding.literal?
  cases hvalue : b.value with
  | nil =>
      rfl
  | cons c literal =>
      by_cases hc : c = '"'
      · subst hc
        have hafter : Text.after? "\"" ('"' :: literal) = some literal :=
          (if_pos rfl).trans (Text.after?_nil literal)
        simp only [hafter]
        cases hbreak : Text.breakAt? "\"" literal with
        | none =>
            rfl
        | some parts =>
            obtain ⟨content, behind⟩ := parts
            simp only [from?_of_breakAt? hbreak, Option.map_some]
            split
            · have hquote : Char.utf8Size '"' = 1 := rfl
              simp [hquote]
              omega
            · rfl
      · have hafter : Text.after? "\"" (c :: literal) = none := if_neg (Ne.symm hc)
        simp only [hafter]
        split
        · next heq =>
            exact absurd (List.cons.inj heq).1 hc
        · rfl

/-- The remarks about a binding. -/
def bindingRemarks? (b : Binding) : Option (List Remark) :=
  (stringRemark? b).map fun string? => b.recursion?.toList ++ string?.toList

theorem bindingRemarks?_eq_some (b : Binding) : bindingRemarks? b = some b.remarks := by
  rw [bindingRemarks?, stringRemark?_eq_some]
  rfl

/-! ## Remarks about calls -/

/-- The remark about the arguments of a call of a known function, of which the parenthesis is at a
byte. -/
def argumentRemark? (s : Signature) (m : Mention) (code : Text) (callStart : Nat) :
    Option (Option Remark) :=
  if s.argCount = 0 then some none
  else
    ((from? callStart code).bind argumentList?).map fun read? =>
      read?.bind fun (l, consumed) =>
        if l.args.length = s.argCount then none
        else some ⟨.argumentCount (Ident.qualified m.library m.name) s l.args.length, m.start,
          callStart + consumed⟩

/-- The remark about a reference, unless it is no call or the library is a local one. -/
def callRemark? (c : Catalog) (rules : Rules) (locals recursive : List Text) (code : Text)
    (m : Mention) : Option (Option Remark) :=
  match m.callStart? with
  | none => some none
  | some callStart =>
      if locals.contains m.library then some none
      else if !c.hasLibrary m.library then
        if recursive.contains m.library || rules.maxUnknownLibrary < byteSize m.library then
          some none
        else
          some (some ⟨.unknownLibrary m.library c.libraryNames, m.start,
            m.start + byteSize m.library⟩)
      else
        match c.get? (Ident.qualified m.library m.name) with
        | none =>
            some (some ⟨.unknownFunction m.library m.name
              (c.suggestions m.library m.name rules.maxSuggestions), m.start, m.stop⟩)
        | some s => argumentRemark? s m code callStart

section Calls

variable {c : Catalog} {rules : Rules} {locals recursive : List Text} {code : Text}
  {r : Reference}

/-- The line can be cut where a reference is called. -/
theorem from?_followStart {front blanks : Text} (h : r.Stands code front blanks) :
    from? r.followStart code = some r.follow := by
  have hplace : r.followStart = byteSize (front ++ r.fullName ++ blanks) := by
    rw [h.followStart, h.stop, h.start, Text.byteSize_append, Text.byteSize_append]
  rw [h.split, hplace, Text.from?_append]

theorem argumentRemark?_eq_some {s : Signature}
    (hfollow : from? r.followStart code = some r.follow) :
    argumentRemark? s (.ofReference r) code r.followStart = some (r.argumentRemark? s) := by
  unfold argumentRemark? Reference.argumentRemark?
  rw [hfollow, Option.bind_some, argumentList?_eq_some]
  by_cases hcount : s.argCount = 0
  · cases ArgumentList.read? r.follow <;> simp [hcount]
  · cases ArgumentList.read? r.follow with
    | none =>
        simp [hcount]
    | some l =>
        simp only [hcount, if_false, Option.map_some, Option.bind_some, decide_false,
          Bool.false_or, decide_eq_true_eq]
        rfl

theorem callRemark?_eq_some (hfollow : from? r.followStart code = some r.follow) :
    callRemark? c rules locals recursive code (.ofReference r) =
      some (r.remarkIn? c rules locals recursive) := by
  unfold callRemark? Reference.remarkIn? Reference.remark?
  cases hcall : r.isCall with
  | false =>
      simp [Mention.ofReference, hcall]
  | true =>
      have harguments := fun s => argumentRemark?_eq_some (s := s) hfollow
      simp only [Mention.ofReference, hcall, if_true, Bool.true_and] at harguments ⊢
      cases locals.contains r.library with
      | true =>
          rfl
      | false =>
          cases c.hasLibrary r.library with
          | false =>
              simp only [Bool.not_false, Bool.false_eq_true, if_true, if_false]
              split <;> rfl
          | true =>
              simp only [Bool.not_true, Bool.not_false, Bool.false_eq_true, if_true, if_false,
                Reference.fullName]
              cases c.get? (Ident.qualified r.library r.name) with
              | none =>
                  rfl
              | some s =>
                  exact harguments s

end Calls

/-! ## Lines and programs -/

/-- The diagnostics about the bindings and then the calls on a line. -/
def lineDiagnostics? (c : Catalog) (rules : Rules) (locals : List Text) (l : Line) :
    Option (List Diagnostic) := do
  let bindings ← bindings? l
  let own ← bindings.flatMapM bindingRemarks?
  let mentions ← mentions? l.code
  let recursive := (bindings.filter Binding.isRecursive).map Binding.name
  let calls ← mentions.filterMapM (callRemark? c rules locals recursive l.code)
  (own ++ calls).mapM (diagnostic? l)

/-- The names that are bound as libraries on some lines. -/
def localLibraries? (ls : List Line) : Option (List Text) :=
  (ls.flatMapM bindings?).map fun bindings =>
    (bindings.filter Binding.isLibrary).map Binding.name

/-- The diagnostics about the bindings and calls on some lines. -/
def checkLines? (c : Catalog) (rules : Rules) (ls : List Line) : Option (List Diagnostic) :=
  (localLibraries? ls).bind fun locals => ls.flatMapM (lineDiagnostics? c rules locals)

/-- The diagnostics about the bindings and calls of a source text. -/
def check? (c : Catalog) (rules : Rules) (source : Text) : Option (List Diagnostic) :=
  (lines? source).bind (checkLines? c rules)

section Lines

variable {c : Catalog} {rules : Rules} {locals : List Text}

theorem mentions?_eq_some {l : ProgramLine} (h : l.IsRead) :
    mentions? l.code = some (l.references.map Mention.ofReference) := by
  rw [mentions?_eq, h.scanned]
  rfl

/-- A line with its references can be checked. -/
theorem lineDiagnostics?_eq_some {l : ProgramLine} (h : l.IsRead) :
    lineDiagnostics? c rules locals l.toLine = some (l.check c rules locals) := by
  have hown : l.bindings.flatMapM bindingRemarks? = some l.bindingRemarks :=
    flatMapM_eq_some fun b _ => bindingRemarks?_eq_some b
  have hcalls : (l.references.map Mention.ofReference).filterMapM
      (callRemark? c rules locals l.recursiveNames l.code) =
        some (l.callRemarks c rules locals) := by
    rw [filterMapM_map, ProgramLine.callRemarks_eq_filterMap]
    refine filterMapM_eq_some fun r hr => ?_
    obtain ⟨front, blanks, hstands⟩ := Reference.exists_stands_of_scan h.scanned hr
    exact callRemark?_eq_some (from?_followStart hstands)
  have hplaced : (l.bindingRemarks ++ l.callRemarks c rules locals).mapM (diagnostic? l.toLine) =
      some (l.check c rules locals) :=
    mapM_eq_some fun m hm => diagnostic?_eq_some (Program.isOn_of_mem_remarks h hm)
  simp only [lineDiagnostics?, bindings?_eq_some, hown, mentions?_eq_some h,
    Option.bind_eq_bind, Option.bind_some]
  rw [← Line.recursiveNames, hcalls, Option.bind_some, hplaced]

/-- A line without its references cannot be checked. -/
theorem lineDiagnostics?_eq {l : Line} (hmask : ∃ mode, l.code = Text.mask mode l.text) :
    lineDiagnostics? c rules locals l =
      ((ProgramLine.ofLine l).map (ProgramLine.check c rules locals)).toOption := by
  cases hscan : Reference.scan l.code with
  | ok references =>
      have hread : ProgramLine.IsRead { l with references } := ⟨hmask, hscan⟩
      rw [ProgramLine.ofLine, hscan]
      exact lineDiagnostics?_eq_some hread
  | error e =>
      have hmentions : mentions? l.code = none := by
        rw [mentions?_eq, hscan]
        rfl
      rw [ProgramLine.ofLine, hscan]
      simp only [lineDiagnostics?, hmentions, bindings?_eq_some, Option.bind_eq_bind,
        Option.bind_none, Option.bind_fun_none]
      rfl

theorem localLibraries?_eq_some (ls : List Line) :
    localLibraries? ls =
      some (((ls.flatMap Line.bindings).filter Binding.isLibrary).map Binding.name) := by
  rw [localLibraries?, flatMapM_eq_some fun l _ => bindings?_eq_some l]
  rfl

theorem checkLines?_eq (c : Catalog) (rules : Rules) (source : Text) :
    checkLines? c rules (Line.ofSource source) =
      ((Program.ofSource source).map (Program.check c rules)).toOption := by
  obtain ⟨locals, hlocals⟩ : ∃ locals, (((Line.ofSource source).flatMap Line.bindings).filter
      Binding.isLibrary).map Binding.name = locals := ⟨_, rfl⟩
  have hlines : (Line.ofSource source).flatMapM (lineDiagnostics? c rules locals) =
      ((Program.ofSource source).map
        (List.flatMap (ProgramLine.check c rules locals))).toOption :=
    flatMapM_eq_toOption fun l hl => by
      obtain ⟨before, behind, hstands⟩ := Line.exists_stands hl
      exact lineDiagnostics?_eq hstands.masked
  rw [checkLines?, localLibraries?_eq_some, hlocals, Option.bind_some, hlines]
  cases hp : Program.ofSource source with
  | error e =>
      rfl
  | ok p =>
      rw [← Program.map_toLine_of_ofSource hp, List.flatMap_map] at hlocals
      rw [← hlocals]
      rfl

/-- No cut fails beside those that fail where the references are looked for. -/
theorem check?_eq (c : Catalog) (rules : Rules) (source : Text) :
    check? c rules source = (check c rules source).toOption := by
  rw [check?, lines?_eq_some, Option.bind_some, checkLines?_eq]
  rfl

end Lines

end Bytewise
end DspCheck
