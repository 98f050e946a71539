import DspCheck.Check.Validation
import DspCheck.Proofs.Bytewise.Check

/-!
# Numbers, words, delays and divisions by their bytes

Where a number ends, whether a word stands alone, and what follows an at sign or a slash is told by
bytes and by cuts at them.  None of them fails for any masked line.

* `number?_eq_some`: number literals.
* `containsWord?_eq_some`: words.
* `operands?_eq_some` and `firstDivisor?_eq_some`: what follows a sign, wherever it stands.
* `checkDelays?_eq_some`, `importDiagnostic?_eq_some`, `entryPoint?_eq_some` and
  `divisionAdvice?_eq_some`: the checks of a program that was read.
-/

namespace DspCheck
namespace Bytewise

open Text (minus? upTo? from? byteSize byteAt? byteIs isFreeBefore? runSize)

/-! ## Number literals -/

/-- The literal at the start of a text, leading blanks aside, and the text behind it. -/
def leadingNumber? (t : Text) : Option (Option (Binary64 × Text)) :=
  let t := Text.trimStart t
  (upTo? (runSize Literal.isChar t) t).bind fun token =>
    if token.head?.any fun c => c.isDigit || c = '.' then
      match Decimal.read? token with
      | none => some none
      | some d => (from? (runSize Literal.isChar t) t).map fun rest => some (.ofDecimal d, rest)
    else some none

/-- The literal that a text is, blanks and what follows the expression aside. -/
def number? (t : Text) : Option (Option Binary64) :=
  (leadingNumber? t).map fun read? =>
    match read? with
    | none => none
    | some (value, rest) =>
        if (Text.bytes (Text.trimStart rest)).head?.all (byteIs Literal.isEnd) then some value
        else none

/-- The literal that the only argument of a list is. -/
def onlyNumber? (args : List Text) : Option (Option Binary64) :=
  if args.length = 1 then args[0]?.bind number? else some none

theorem isAscii_of_isDigit {c : Char} (h : c.isDigit = true) : Text.isAscii c = true := by
  have hle : c.toNat ≤ 57 := by
    simp only [Char.isDigit, Bool.and_eq_true, decide_eq_true_eq] at h
    exact h.2
  rw [Text.isAscii, decide_eq_true_eq]
  omega

theorem isAsciiClass_isChar : Text.IsAsciiClass Literal.isChar := fun c hc => by
  simp only [Literal.isChar, Bool.or_eq_true, decide_eq_true_eq] at hc
  rcases hc with ((hc | rfl) | rfl) | rfl
  · exact isAscii_of_isDigit hc
  all_goals rfl

theorem isAsciiClass_isEnd : Text.IsAsciiClass Literal.isEnd := fun c hc => by
  simp only [Literal.isEnd, Bool.or_eq_true, decide_eq_true_eq] at hc
  rcases hc with (((((rfl | rfl) | rfl) | rfl) | rfl) | rfl) | rfl
  all_goals rfl

theorem leadingNumber?_eq_some (t : Text) : leadingNumber? t = some (Literal.leading? t) := by
  unfold leadingNumber? Literal.leading?
  simp only [Text.upTo?_runSize isAsciiClass_isChar, Text.from?_runSize isAsciiClass_isChar,
    Option.bind_some, Option.map_some]
  split
  · cases Decimal.read? ((Text.trimStart t).takeWhile Literal.isChar) <;> rfl
  · rfl

theorem number?_eq_some (t : Text) : number? t = some (Literal.whole? t) := by
  unfold number? Literal.whole?
  rw [leadingNumber?_eq_some, Option.map_some]
  cases Literal.leading? t with
  | none =>
      rfl
  | some read =>
      simp only [Text.all_head?_bytes isAsciiClass_isEnd]

theorem onlyNumber?_singleton (arg : Text) : onlyNumber? [arg] = some (Literal.whole? arg) :=
  number?_eq_some arg

theorem onlyNumber?_of_length {args : List Text} (h : args.length ≠ 1) :
    onlyNumber? args = some none :=
  if_neg h

/-! ## Words -/

/-- The bytes at which a word occurs, from the left without overlap, after `skip` characters that
belong to the last occurrence. -/
def occurrencesFrom (word : Text) (position skip : Nat) : Text → List Nat
  | [] => if word = [] then [position] else []
  | c :: t =>
      match skip with
      | skip + 1 => occurrencesFrom word (position + c.utf8Size) skip t
      | 0 =>
          if Text.startsWith word (c :: t) then
            position :: occurrencesFrom word (position + c.utf8Size) (word.length - 1) t
          else occurrencesFrom word (position + c.utf8Size) 0 t

/-- Whether a word that occurs at a byte stands alone. -/
def standsAlone? (word code : Text) (index : Nat) : Option Bool :=
  (isFreeBefore? Ident.isPart index code).map fun before =>
    before && !(byteAt? (index + byteSize word) code).any (byteIs Ident.isPart)

/-- Whether a word stands alone somewhere in a masked line. -/
def containsWord? (code word : Text) : Option Bool :=
  (occurrencesFrom word 0 0 code).anyM (standsAlone? word code)

theorem standsAlone?_eq_some (word a rest : Text) :
    standsAlone? word (a ++ (word ++ rest)) (byteSize a) =
      some (Text.isFree a.getLast? && Text.isFree rest.head?) := by
  have hbehind := Text.any_byteAt? isAsciiClass_isPart (a ++ word) rest
  rw [Text.byteSize_append, List.append_assoc] at hbehind
  rw [standsAlone?, Text.isFreeBefore?_append isAsciiClass_isPart, Option.map_some, hbehind]
  rfl

/-- The word is looked for at the same places, and each is told by the characters around it. -/
theorem anyM_occurrencesFrom (word a t : Text) (skip : Nat) :
    (occurrencesFrom word (byteSize a) skip t).anyM (standsAlone? word (a ++ t)) =
      some (Text.hasWordFrom word a.getLast? skip t) := by
  induction t generalizing a skip with
  | nil =>
      by_cases hword : word = []
      · subst hword
        have hends := standsAlone?_eq_some [] a []
        rw [List.append_nil, List.append_nil] at hends
        rw [List.append_nil, occurrencesFrom, if_pos rfl, anyM_cons_of_some hends,
          Text.hasWordFrom]
        cases Text.isFree a.getLast? <;> rfl
      · rw [occurrencesFrom, if_neg hword, Text.hasWordFrom, decide_eq_false hword]
        rfl
  | cons c t ih =>
      have hlater : ∀ skip, (occurrencesFrom word (byteSize a + c.utf8Size) skip t).anyM
          (standsAlone? word (a ++ c :: t)) = some (Text.hasWordFrom word (some c) skip t) := by
        intro skip
        have h := ih (a ++ [c]) skip
        rw [List.append_assoc, List.singleton_append, List.getLast?_concat] at h
        rwa [Text.byteSize_append] at h
      cases skip with
      | succ skip =>
          exact hlater skip
      | zero =>
          cases hafter : Text.after? word (c :: t) with
          | none =>
              have hstarts : Text.startsWith word (c :: t) = false := by
                rw [Text.startsWith, hafter]
                rfl
              rw [occurrencesFrom, hstarts, if_neg Bool.false_ne_true, hlater, Text.hasWordFrom,
                hafter]
          | some rest =>
              have hstarts : Text.startsWith word (c :: t) = true := by
                rw [Text.startsWith, hafter]
                rfl
              have halone := standsAlone?_eq_some word a rest
              rw [← Text.after?_eq_some_iff.1 hafter] at halone
              rw [occurrencesFrom, hstarts, if_pos rfl, anyM_cons_of_some halone, hlater,
                Text.hasWordFrom, hafter]
              dsimp only
              cases Text.isFree a.getLast? && Text.isFree rest.head? <;> rfl

theorem containsWord?_eq_some (code word : Text) :
    containsWord? code word = some (Text.hasWord word code) :=
  anyM_occurrencesFrom word [] code 0

/-- Whether one of some words stands alone on a line. -/
def mentionsAny? (words : List Text) (l : Line) : Option Bool :=
  words.anyM (containsWord? l.code)

theorem mentionsAny?_eq_some (words : List Text) (l : Line) :
    mentionsAny? words l = some (l.mentions words) :=
  anyM_eq_some fun word _ => containsWord?_eq_some l.code word

/-! ## Signs -/

/-- The bytes at which a sign stands. -/
def positionsFrom (sign : Char) (position : Nat) : Text → List Nat
  | [] => []
  | c :: t =>
      if c = sign then position :: positionsFrom sign (position + c.utf8Size) t
      else positionsFrom sign (position + c.utf8Size) t

/-- A text can be cut behind a character of ASCII. -/
theorem from?_succ {c : Char} (hc : Text.isAscii c = true) (a t : Text) :
    from? (byteSize a + 1) (a ++ c :: t) = some t := by
  rw [Text.from?_append_add, ← Text.utf8Size_of_isAscii hc]
  exact Text.from?_append [c] t

/-! ## Delay constants -/

/-- The constant that follows an at sign. -/
def operand? (t : Text) : Option (Option Binary64) :=
  let t := Text.trimStart t
  (argumentList? t).bind fun read? =>
    match read? with
    | none => number? t
    | some (l, _) => onlyNumber? l.args

/-- The constant behind the at sign at a byte. -/
def operandAt? (code : Text) (index : Nat) : Option (Option DelayConstant) :=
  ((from? (index + 1) code).bind operand?).map (Option.map (⟨index, ·⟩))

/-- The constant in the call of a delay function. -/
def callConstant? (code : Text) (m : Mention) : Option (Option DelayConstant) :=
  if Text.endsWith "delay" m.name then
    match m.callStart? with
    | none => some none
    | some callStart =>
        ((from? callStart code).bind argumentList?).bind fun read? =>
          match read?.bind fun read => read.1.args.head? with
          | none => some none
          | some arg => (number? arg).map (Option.map (⟨m.start, ·⟩))
  else some none

/-- The delay constants of a line in the order of their positions. -/
def delayConstants? (l : Line) : Option (List DelayConstant) := do
  let operands ← (positionsFrom '@' 0 l.code).filterMapM (operandAt? l.code)
  let mentions ← mentions? l.code
  let calls ← mentions.filterMapM (callConstant? l.code)
  some ((operands ++ calls).mergeSort fun a b => a.position ≤ b.position)

/-- The diagnostics about the delay constants on a line. -/
def lineDelays? (rules : Rules) (l : Line) : Option (List Diagnostic) :=
  (delayConstants? l).bind fun delays =>
    (delays.filterMap (DelayConstant.remark? rules.maxDelay)).mapM (diagnostic? l)

/-- The diagnostics about the delay constants on some lines. -/
def checkDelays? (rules : Rules) (ls : List Line) : Option (List Diagnostic) :=
  ls.flatMapM (lineDelays? rules)

theorem operand?_eq_some (t : Text) : operand? t = some (DelayConstant.operand? t) := by
  unfold operand? DelayConstant.operand?
  simp only [argumentList?_eq_some, Option.bind_some]
  cases ArgumentList.read? (Text.trimStart t) with
  | none =>
      exact number?_eq_some _
  | some l =>
      obtain ⟨args, extent, rest⟩ := l
      rcases args with _ | ⟨arg, _ | ⟨arg', args⟩⟩
      · rfl
      · exact onlyNumber?_singleton arg
      · exact onlyNumber?_of_length (by simp)

theorem filterMapM_operandAt? (a t : Text) :
    (positionsFrom '@' (byteSize a) t).filterMapM (operandAt? (a ++ t)) =
      some (DelayConstant.operandsFrom (byteSize a) t) := by
  induction t generalizing a with
  | nil =>
      rfl
  | cons c t ih =>
      have hlater : (positionsFrom '@' (byteSize a + c.utf8Size) t).filterMapM
          (operandAt? (a ++ c :: t)) =
            some (DelayConstant.operandsFrom (byteSize a + c.utf8Size) t) := by
        have h := ih (a ++ [c])
        rwa [List.append_assoc, List.singleton_append, Text.byteSize_append] at h
      by_cases hc : c = '@'
      · subst hc
        have hhere : operandAt? (a ++ '@' :: t) (byteSize a) =
            some ((DelayConstant.operand? t).map (⟨byteSize a, ·⟩)) := by
          rw [operandAt?, from?_succ rfl, Option.bind_some, operand?_eq_some, Option.map_some]
        rw [positionsFrom, if_pos rfl, filterMapM_cons_of_some hhere hlater,
          DelayConstant.operandsFrom, if_pos rfl, Option.toList_map]
      · rw [positionsFrom, if_neg hc, DelayConstant.operandsFrom, if_neg hc]
        exact hlater

theorem callConstant?_eq_some {code : Text} {r : Reference}
    (hfollow : from? r.followStart code = some r.follow) :
    callConstant? code (.ofReference r) = some (DelayConstant.ofCall? r) := by
  unfold callConstant? DelayConstant.ofCall?
  have hname : (Mention.ofReference r).name = r.name := rfl
  rw [hname]
  split
  · cases hcall : r.isCall with
    | false =>
        -- what follows is no list, since it does not start with a parenthesis
        have hread : ArgumentList.read? r.follow = none :=
          read?_eq_none (of_decide_eq_false hcall)
        rw [hread]
        simp only [Mention.ofReference, hcall, Bool.false_eq_true, if_false]
    | true =>
        simp only [Mention.ofReference, hcall, if_true, hfollow, argumentList?_eq_some,
          Option.bind_some]
        cases ArgumentList.read? r.follow with
        | none =>
            rfl
        | some l =>
            obtain ⟨args, extent, rest⟩ := l
            cases args with
            | nil =>
                rfl
            | cons arg args =>
                exact congrArg (Option.map _) (number?_eq_some arg)
  · rfl

section Lines

variable {rules : Rules} {l : ProgramLine}

theorem delayConstants?_eq_some (h : l.IsRead) :
    delayConstants? l.toLine = some (DelayConstant.ofLine l) := by
  have hoperands := filterMapM_operandAt? [] l.code
  have hcalls : (l.references.map Mention.ofReference).filterMapM (callConstant? l.code) =
      some (l.references.filterMap DelayConstant.ofCall?) := by
    rw [filterMapM_map]
    refine filterMapM_eq_some fun r hr => ?_
    obtain ⟨front, blanks, hstands⟩ := Reference.exists_stands_of_scan h.scanned hr
    exact callConstant?_eq_some (from?_followStart hstands)
  rw [Text.byteSize_nil, List.nil_append] at hoperands
  simp only [delayConstants?, hoperands, mentions?_eq_some h, hcalls, Option.bind_eq_bind,
    Option.bind_some]
  rfl

theorem lineDelays?_eq_some (h : l.IsRead) :
    lineDelays? rules l.toLine =
      some (((DelayConstant.ofLine l).filterMap (DelayConstant.remark? rules.maxDelay)).map
        (Remark.diagnostic l.toLine)) := by
  rw [lineDelays?, delayConstants?_eq_some h, Option.bind_some]
  refine mapM_eq_some fun m hm => ?_
  obtain ⟨d, hd, hm⟩ := List.mem_filterMap.1 hm
  exact diagnostic?_eq_some (ProgramLine.isOn_of_delay h hd hm)

end Lines

/-! ## Divisions -/

/-- What a division is by, from behind its slash on, unless it is a number literal. -/
def divisor? (t : Text) : Option (Option Text) :=
  let t := Text.trimStart t
  if Text.startsWith "(" t then
    (argumentList? t).bind fun read? =>
      match read? with
      | none => some none
      | some (l, consumed) =>
          (onlyNumber? l.args).bind fun number? =>
            if number?.isSome then some none else (upTo? consumed t).map some
  else
    (leadingNumber? t).bind fun number? =>
      if number?.isSome then some none
      else
        let size := runSize Reference.isRunChar t
        if size = 0 then some none else (upTo? size t).map some

/-- What the division with the slash at a byte is by. -/
def divisorAt? (code : Text) (index : Nat) : Option (Option Text) :=
  (from? (index + 1) code).bind divisor?

/-- The suggestion about the divisions of a line. -/
def lineAdvice? (rules : Rules) (l : Line) : Option (Option Text) :=
  (mentionsAny? rules.guards l).bind fun guarded =>
    if guarded then some none
    else
      ((positionsFrom '/' 0 l.code).findSomeM? (divisorAt? l.code)).map
        (Option.map l.guardDivision)

/-- The suggestions about the divisions on some lines. -/
def divisionAdvice? (rules : Rules) (ls : List Line) : Option (List Text) :=
  ls.filterMapM (lineAdvice? rules)

theorem divisor?_eq_some (t : Text) : divisor? t = some (Line.divisor? t) := by
  obtain ⟨u, hu⟩ : ∃ u, Text.trimStart t = u := ⟨_, rfl⟩
  have hopen : Text.startsWith "(" u = decide (u.head? = some '(') := startsWith_char '(' u
  unfold divisor? Line.divisor?
  simp only [hu, hopen, decide_eq_true_eq]
  split
  · rw [argumentList?_eq_some, Option.bind_some]
    cases hread : ArgumentList.read? u with
    | none =>
        rfl
    | some l =>
        have hextent : upTo? l.consumed u = some l.extent := by
          have h := Text.upTo?_append l.extent l.rest
          rwa [ArgumentList.extent_append_rest hread] at h
        obtain ⟨args, extent, rest⟩ := l
        rcases args with _ | ⟨arg, _ | ⟨arg', args⟩⟩
        · exact congrArg (Option.map some) hextent
        · simp only [Option.map_some, onlyNumber?_singleton, Option.bind_some, hextent]
          split <;> rfl
        · have hmany : onlyNumber? (arg :: arg' :: args) = some none :=
            onlyNumber?_of_length (by simp)
          simp only [Option.map_some, hmany, Option.bind_some, hextent]
          rfl
  · have hrun := Text.runSize_eq_zero_iff isAsciiClass_isRunChar u
    rw [leadingNumber?_eq_some, Option.bind_some, Text.upTo?_runSize isAsciiClass_isRunChar,
      Option.map_some]
    simp only [hrun]
    split
    · rfl
    · split <;> rfl

theorem findSomeM?_divisorAt? (a t : Text) :
    (positionsFrom '/' (byteSize a) t).findSomeM? (divisorAt? (a ++ t)) =
      some (Line.firstDivisor? t) := by
  induction t generalizing a with
  | nil =>
      rfl
  | cons c t ih =>
      have hlater : (positionsFrom '/' (byteSize a + c.utf8Size) t).findSomeM?
          (divisorAt? (a ++ c :: t)) = some (Line.firstDivisor? t) := by
        have h := ih (a ++ [c])
        rwa [List.append_assoc, List.singleton_append, Text.byteSize_append] at h
      by_cases hc : c = '/'
      · subst hc
        have hhere : divisorAt? (a ++ '/' :: t) (byteSize a) = some (Line.divisor? t) := by
          rw [divisorAt?, from?_succ rfl, Option.bind_some, divisor?_eq_some]
        rw [positionsFrom, if_pos rfl, findSomeM?_cons_of_some hhere hlater, Line.firstDivisor?,
          if_pos rfl]
      · rw [positionsFrom, if_neg hc, Line.firstDivisor?, if_neg hc]
        exact hlater

theorem lineAdvice?_eq_some (rules : Rules) (l : Line) :
    lineAdvice? rules l = some (l.divisionAdvice? rules) := by
  have hdivisor := findSomeM?_divisorAt? [] l.code
  rw [Text.byteSize_nil, List.nil_append] at hdivisor
  rw [lineAdvice?, mentionsAny?_eq_some, Option.bind_some, hdivisor, Line.divisionAdvice?]
  split <;> rfl

/-! ## Imports and the entry point -/

/-- The first reference on a line to a library of the catalog. -/
def firstKnown? (c : Catalog) (l : Line) : Option (Option Diagnostic) :=
  (mentions? l.code).bind fun mentions =>
    match mentions.find? fun m => c.hasLibrary m.library with
    | none => some none
    | some m =>
        (diagnostic? l ⟨.missingImport m.library, m.start, m.start + byteSize m.library⟩).map some

/-- The diagnostic about lines that use a library without an import. -/
def importDiagnostic? (c : Catalog) (rules : Rules) (ls : List Line) :
    Option (Option Diagnostic) :=
  (ls.anyM (mentionsAny? rules.imports)).bind fun imported =>
    if imported then some none else ls.findSomeM? (firstKnown? c)

/-- Whether a line binds a name at the top level. -/
def bindsAtTop? (name : Text) (l : Line) : Option Bool :=
  (bindings? l).map fun bindings => bindings.any fun b => b.depth = 0 && b.name = name

/-- The diagnostic about lines that do not bind the output. -/
def entryPoint? (rules : Rules) (ls : List Line) : Option (Option Diagnostic) :=
  (ls.anyM (bindsAtTop? rules.entryPoint)).map fun defined =>
    if defined then none else some (Finding.missingEntryPoint rules.entryPoint).diagnostic

theorem firstKnown?_eq_some {c : Catalog} {l : ProgramLine} (h : l.IsRead) :
    firstKnown? c l.toLine = some (Program.firstKnown? c l) := by
  unfold firstKnown? Program.firstKnown?
  rw [mentions?_eq_some h, Option.bind_some, List.find?_map]
  have hlibrary : ((fun m : Mention => c.hasLibrary m.library) ∘ Mention.ofReference) =
      fun r => c.hasLibrary r.library := rfl
  rw [hlibrary]
  cases hfind : l.references.find? fun r => c.hasLibrary r.library with
  | none =>
      rfl
  | some r =>
      have hon : Remark.IsOn ⟨.missingImport r.library, r.start,
          r.start + byteSize r.library⟩ l :=
        ProgramLine.isOn_of_library h (List.mem_of_find?_eq_some hfind) fun _ _ => rfl
      exact congrArg (Option.map some) (diagnostic?_eq_some hon)

theorem bindsAtTop?_eq_some (name : Text) (l : Line) :
    bindsAtTop? name l = some (l.bindings.any fun b => b.depth = 0 && b.name = name) := by
  rw [bindsAtTop?, bindings?_eq_some, Option.map_some]

/-! ## Programs -/

section Programs

variable {source : Text} {p : Program} (hp : Program.ofSource source = .ok p)

include hp

theorem checkDelays?_eq_some (rules : Rules) :
    checkDelays? rules (Line.ofSource source) = some (p.checkDelays rules) := by
  rw [← Program.map_toLine_of_ofSource hp, checkDelays?, flatMapM_map]
  exact flatMapM_eq_some fun l hl => lineDelays?_eq_some (Program.isRead_of_mem hp hl)

theorem importDiagnostic?_eq_some (c : Catalog) (rules : Rules) :
    importDiagnostic? c rules (Line.ofSource source) = some (p.checkImport? c rules) := by
  have himports : (Line.ofSource source).anyM (mentionsAny? rules.imports) =
      some (p.hasImport rules) := by
    rw [anyM_eq_some fun l _ => mentionsAny?_eq_some rules.imports l,
      ← Program.map_toLine_of_ofSource hp, List.any_map]
    rfl
  have hknown : (Line.ofSource source).findSomeM? (firstKnown? c) =
      some (p.findSome? (Program.firstKnown? c)) := by
    rw [← Program.map_toLine_of_ofSource hp, findSomeM?_map]
    exact findSomeM?_eq_some fun l hl => firstKnown?_eq_some (Program.isRead_of_mem hp hl)
  rw [importDiagnostic?, himports, hknown, Option.bind_some, Program.checkImport?]
  split <;> rfl

theorem entryPoint?_eq_some (rules : Rules) :
    entryPoint? rules (Line.ofSource source) = some (p.checkEntryPoint? rules) := by
  have hdefined : (Line.ofSource source).anyM (bindsAtTop? rules.entryPoint) =
      some (p.definesAtTop rules.entryPoint) := by
    rw [anyM_eq_some fun l _ => bindsAtTop?_eq_some rules.entryPoint l,
      ← Program.map_toLine_of_ofSource hp, List.any_map, Program.definesAtTop,
      Program.bindings, List.any_flatMap]
    rfl
  rw [entryPoint?, hdefined, Option.map_some, Program.checkEntryPoint?]

theorem divisionAdvice?_eq_some (rules : Rules) :
    divisionAdvice? rules (Line.ofSource source) = some (p.divisionAdvice rules) := by
  rw [divisionAdvice?, filterMapM_eq_some fun l _ => lineAdvice?_eq_some rules l,
    ← Program.map_toLine_of_ofSource hp, List.filterMap_map]
  rfl

end Programs

end Bytewise
end DspCheck
