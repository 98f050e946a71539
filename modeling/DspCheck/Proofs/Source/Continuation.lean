import DspCheck.Proofs.Source.ExpressionText
import DspCheck.Proofs.Source.Reference
import DspCheck.Proofs.Source.Statement
import DspCheck.Proofs.Text.Trim

/-!
# What scanners make of a text that goes on

The scanners of masked lines are told here by what they make of a text and of what follows it.  The
results about the text stay, up to the statement and the binding that it leaves open, and those
about what follows are the results about that alone, moved behind the text.

Main statements: `Statement.exists_piecesFrom_append`, `Statement.binding?_append` and
`Reference.exists_standing_of_scan`.
-/

namespace DspCheck

/-! ## Statements and bindings -/

namespace Statement

/-- A statement with what follows it. -/
def extendBehind (t : Text) (s : Statement) : Statement :=
  { s with text := s.text ++ t }

/-- A statement behind as many bytes. -/
def shift (k : Nat) (s : Statement) : Statement :=
  { s with start := k + s.start }

/-- A statement that goes on with the text of another one. -/
def andThen (s r : Statement) : Statement :=
  s.extendBehind r.text

theorem depth_of_piecesFrom_eq_cons {start depth parens : Nat} {t : Text} {s : Statement}
    {ss : List Statement} (h : piecesFrom start depth parens t = s :: ss) : s.depth = depth := by
  cases t with
  | nil =>
      cases h
      rfl
  | cons c t =>
      unfold piecesFrom at h
      split at h
      · cases h
        rfl
      · cases hrest : piecesFrom (start + c.utf8Size) depth (parensAfter parens c) t with
        | nil =>
            exact absurd hrest (piecesFrom_ne_nil _ _ _ t)
        | cons first others =>
            rw [hrest] at h
            cases h
            show first.depth = depth
            exact depth_of_piecesFrom_eq_cons hrest

/-- The first piece is what the text starts with. -/
theorem modifyHead_andThen_empty (start depth parens : Nat) (t : Text) :
    (piecesFrom start depth parens t).modifyHead (andThen ⟨start, depth, []⟩) =
      piecesFrom start depth parens t := by
  cases h : piecesFrom start depth parens t with
  | nil =>
      rfl
  | cons s ss =>
      rw [List.modifyHead_cons, andThen, extendBehind, List.nil_append,
        ← start_of_piecesFrom_eq_cons h, ← depth_of_piecesFrom_eq_cons h]

/-- What follows a text goes on with its last statement, and leaves the others alone. -/
theorem exists_piecesFrom_append (start depth parens : Nat) (t : Text) :
    ∃ ss s depth' parens', piecesFrom start depth parens t = ss ++ [s] ∧ s.text <:+ t ∧
      s.start + Text.byteSize s.text = start + Text.byteSize t ∧
      ∀ rest, piecesFrom start depth parens (t ++ rest) =
        ss ++ (piecesFrom (start + Text.byteSize t) depth' parens' rest).modifyHead
          s.andThen := by
  induction t generalizing start depth parens with
  | nil =>
      exact ⟨[], ⟨start, depth, []⟩, depth, parens, rfl, List.suffix_rfl, rfl,
        fun rest => (modifyHead_andThen_empty start depth parens rest).symm⟩
  | cons c t ih =>
      simp only [List.cons_append, piecesFrom, Text.byteSize_cons, ← Nat.add_assoc start]
      split
      · obtain ⟨ss, s, depth', parens', hpieces, hsuffix, hstop, hrest⟩ :=
          ih (start + c.utf8Size) (depthAfter depth c) parens
        refine ⟨⟨start, depth, []⟩ :: ss, s, depth', parens', by rw [hpieces]; rfl,
          hsuffix.trans (List.suffix_cons c t), hstop, fun rest => ?_⟩
        rw [hrest, List.cons_append]
      · obtain ⟨ss, s, depth', parens', hpieces, hsuffix, hstop, hrest⟩ :=
          ih (start + c.utf8Size) depth (parensAfter parens c)
        cases ss with
        | nil =>
            -- the text is one open statement, which the character starts
            have hstart := start_of_piecesFrom_eq_cons hpieces
            have htext : s.text = t := by
              obtain ⟨front, hfront⟩ := hsuffix
              have hnil : front = [] := by
                by_contra hne
                have hpos := Text.byteSize_pos hne
                rw [← hfront, Text.byteSize_append] at hstop
                omega
              rw [← hfront, hnil, List.nil_append]
            refine ⟨[], s.extend c start, depth', parens', by rw [hpieces]; rfl, ?_, ?_,
              fun rest => ?_⟩
            · show c :: s.text <:+ c :: t
              exact htext ▸ List.suffix_refl (c :: s.text)
            · show start + Text.byteSize (c :: s.text) = start + c.utf8Size + Text.byteSize t
              rw [htext, Text.byteSize_cons, Nat.add_assoc]
            · rw [hrest, List.nil_append, List.nil_append]
              cases piecesFrom (start + c.utf8Size + Text.byteSize t) depth' parens' rest <;> rfl
        | cons first ss =>
            refine ⟨first.extend c start :: ss, s, depth', parens', by rw [hpieces]; rfl,
              hsuffix.trans (List.suffix_cons c t), hstop, fun rest => ?_⟩
            rw [hrest]
            rfl

/-- The pieces of a text that stands further right stand further right. -/
theorem piecesFrom_add (k start depth parens : Nat) (t : Text) :
    piecesFrom (k + start) depth parens t =
      (piecesFrom start depth parens t).map (shift k) := by
  induction t generalizing start depth parens with
  | nil =>
      rfl
  | cons c t ih =>
      simp only [piecesFrom, Nat.add_assoc k start, ih]
      split
      · rfl
      · cases piecesFrom (start + c.utf8Size) depth (parensAfter parens c) t <;> rfl

/-- A text of one statement goes before the first piece behind it. -/
theorem piecesFrom_word {w : Text} (h : ∀ c ∈ w, Reference.isRunChar c = true)
    (start depth parens : Nat) (rest : Text) :
    piecesFrom start depth parens (w ++ rest) =
      (piecesFrom (start + Text.byteSize w) depth parens rest).modifyHead
        (andThen ⟨start, depth, w⟩) := by
  induction w generalizing start with
  | nil =>
      exact (modifyHead_andThen_empty start depth parens rest).symm
  | cons c w ih =>
      rw [List.forall_mem_cons] at h
      have hend := (Expression.inert_of_isRunChar h.1).2.1
      have hparens : parensAfter parens c = parens :=
        Expression.foldl_parensAfter_run (t := [c]) (by simpa using h.1) parens
      rw [List.cons_append, piecesFrom, hend, Bool.false_and, if_neg Bool.false_ne_true, hparens,
        ih h.2, Text.byteSize_cons, ← Nat.add_assoc start]
      cases piecesFrom (start + c.utf8Size + Text.byteSize w) depth parens rest <;> rfl

end Statement

namespace Binding

/-- A binding whose value goes on. -/
def extendBehind (t : Text) (b : Binding) : Binding :=
  { b with value := b.value ++ t }

/-- A binding behind as many bytes. -/
def shift (k : Nat) (b : Binding) : Binding :=
  { b with nameStart := k + b.nameStart, valueStart := k + b.valueStart }

end Binding

namespace Statement

theorem binding?_shift (k : Nat) (s : Statement) :
    (s.shift k).binding? = s.binding?.map (Binding.shift k) := by
  unfold binding?
  dsimp only [shift]
  split
  · split
    · rfl
    · simp only [Option.map_some, Binding.shift, Nat.add_assoc]
  · rfl

/-- A statement that starts with a member of a library binds nothing. -/
theorem binding?_qualified {library : Text} (hlibrary : Ident.isIdent library = true)
    (start depth : Nat) {indent : Text} (hindent : ∀ c ∈ indent, Text.isBlank c = true)
    (rest : Text) : binding? ⟨start, depth, indent ++ (library ++ '.' :: rest)⟩ = none := by
  have hends : Text.EndsAt Text.isBlank (library ++ '.' :: rest) :=
    Ident.endsAt_append (fun _ => Ident.not_isBlank_of_isPart) hlibrary _
  have hname : Ident.leading (library ++ '.' :: rest) = library :=
    Ident.leading_append hlibrary (Text.endsAt_cons (by decide) _)
  have hgap : ('.' :: rest).dropWhile Text.isBlank = '.' :: rest :=
    List.dropWhile_cons_of_neg (by decide)
  unfold binding?
  simp only [Text.dropWhile_run hindent hends, hname, List.drop_left, hgap]
  rfl

/-- A member of a library that follows a statement goes into the value of its binding. -/
theorem binding?_append {x library : Text} (hx : Text.Closes Ident.isPart x)
    (hlibrary : Ident.isIdent library = true) (start depth : Nat) (rest : Text) :
    binding? ⟨start, depth, x ++ (library ++ '.' :: rest)⟩ =
      (binding? ⟨start, depth, x⟩).map (Binding.extendBehind (library ++ '.' :: rest)) := by
  by_cases hblank : ∀ c ∈ x, Text.isBlank c = true
  · have hbody : x.dropWhile Text.isBlank = [] := List.dropWhile_eq_nil_iff.2 hblank
    rw [binding?_qualified hlibrary start depth hblank]
    simp [binding?, hbody, Ident.leading]
  · have hends : Text.EndsAt Text.isBlank (library ++ '.' :: rest) :=
      Ident.endsAt_append (fun _ => Ident.not_isBlank_of_isPart) hlibrary _
    have hequals : (library ++ '.' :: rest).head? ≠ some '=' := fun h =>
      absurd (Ident.endsAt_append (p := fun c => !Ident.isPart c) (fun c hc => by rw [hc]; rfl)
        hlibrary _ '=' h) (by decide)
    generalize library ++ '.' :: rest = t at hends hequals
    have hne : x.dropWhile Text.isBlank ≠ [] := fun hnil =>
      hblank (List.dropWhile_eq_nil_iff.1 hnil)
    have hclosed := hx.of_suffix (List.dropWhile_suffix Text.isBlank)
    generalize hbody : x.dropWhile Text.isBlank = body at hne hclosed
    have hname := Ident.leading_append_of_closes hclosed hne t
    have hdrop : (body ++ t).drop (Ident.leading body).length =
        body.drop (Ident.leading body).length ++ t :=
      List.drop_append_of_le_length (Ident.length_leading_le body)
    unfold binding?
    simp only [Text.takeWhile_append_of_endsAt _ hends, Text.dropWhile_append_of_endsAt _ hends,
      hbody, hname, hdrop]
    cases hgap : (body.drop (Ident.leading body).length).dropWhile Text.isBlank with
    | nil =>
        cases t with
        | nil =>
            rfl
        | cons c t =>
            have hc : c ≠ '=' := fun hc => hequals (by rw [hc]; rfl)
            split
            · next h =>
                exact absurd (List.cons.inj h).1 hc
            · rfl
    | cons c after =>
        by_cases hc : c = '='
        · subst hc
          have hhead : (after ++ t).head? = some '=' ↔ after.head? = some '=' := by
            cases after with
            | nil =>
                simp [hequals]
            | cons a after =>
                rfl
          simp only [List.cons_append, hhead, Text.trimStart,
            Text.takeWhile_append_of_endsAt _ hends, Text.dropWhile_append_of_endsAt _ hends]
          split <;> rfl
        · simp only [List.cons_append]
          split
          · next h =>
              exact absurd (List.cons.inj h).1 hc
          · split
            · next h =>
                exact absurd (List.cons.inj h).1 hc
            · rfl

end Statement

/-! ## References -/

namespace Reference

/-- A reference that more text follows. -/
def extendBehind (t : Text) (r : Reference) : Reference :=
  { r with follow := r.follow ++ t }

/-- A reference behind as many bytes. -/
def shift (k : Nat) (r : Reference) : Reference :=
  { r with start := k + r.start, stop := k + r.stop, followStart := k + r.followStart }

/-- The reference that two identifiers are at a position. -/
def standing (position : Nat) (library name rest : Text) : Reference where
  library
  name
  start := position
  stop := position + Text.byteSize (Ident.qualified library name)
  follow := Text.trimStart rest
  followStart := position + Text.byteSize (Ident.qualified library name)
    + Text.byteSize (rest.takeWhile Text.isBlank)

theorem isRunChar_of_mem_qualified {library name : Text} (hl : Ident.isIdent library = true)
    (hn : Ident.isIdent name = true) {c : Char} (hc : c ∈ Ident.qualified library name) :
    isRunChar c = true := by
  rw [Ident.qualified, List.mem_append, List.mem_cons] at hc
  rcases hc with hc | rfl | hc
  · simp [isRunChar, Ident.isPart_of_mem hl hc]
  · decide
  · simp [isRunChar, Ident.isPart_of_mem hn hc]

theorem leading?_add (k start : Nat) (t : Text) :
    leading? (k + start) t = (leading? start t).map (shift k) := by
  simp only [leading?, Option.map_map, Nat.add_assoc k start]
  congr 1
  funext parts
  simp only [Function.comp_apply, shift, Nat.add_assoc]

/-- The references in a text that stands further right stand further right. -/
theorem scanFrom_add (inRun : Bool) (k position : Nat) (t : Text) :
    scanFrom inRun (k + position) t = (scanFrom inRun position t).map (List.map (shift k)) := by
  induction t generalizing inRun position with
  | nil =>
      rfl
  | cons c t ih =>
      simp only [scanFrom, Nat.add_assoc k position, ih, leading?_add]
      split
      · rfl
      · cases scanFrom (isRunChar c) (position + c.utf8Size) t with
        | error e =>
            rfl
        | ok rs =>
            split
            · cases leading? position (c :: t) <;> rfl
            · rfl

theorem isAscii_of_scanFrom {inRun : Bool} {position : Nat} {t : Text} {rs : List Reference}
    (h : scanFrom inRun position t = .ok rs) : ∀ c ∈ t, Text.isAscii c = true := by
  induction t generalizing inRun position rs with
  | nil =>
      exact fun c hc => absurd hc List.not_mem_nil
  | cons c t ih =>
      unfold scanFrom at h
      split at h
      · cases h
      · next hascii =>
          dsimp only at h
          cases hrest : scanFrom (isRunChar c) (position + c.utf8Size) t with
          | error e =>
              rw [hrest] at h
              cases h
          | ok rest =>
              exact List.forall_mem_cons.2 ⟨by simpa using hascii, ih hrest⟩

theorem endsAt_isBlank_qualified {library : Text} (hl : Ident.isIdent library = true)
    (name rest : Text) : Text.EndsAt Text.isBlank (Ident.qualified library name ++ rest) := by
  rw [Ident.qualified, List.append_assoc]
  exact Ident.endsAt_append (fun _ => Ident.not_isBlank_of_isPart) hl _

/-- The run at the start of a text is what it was, if none goes on behind the text. -/
theorem leading?_append_of_closes {a rest : Text} (ha : Text.Closes isRunChar a) (hne : a ≠ [])
    (hrest : Text.EndsAt Text.isBlank rest) (start : Nat) :
    leading? start (a ++ rest) = (leading? start a).map (extendBehind rest) := by
  simp only [leading?, Text.takeWhile_append_of_closes ha hne,
    Text.dropWhile_append_of_closes ha hne, Text.trimStart,
    Text.takeWhile_append_of_endsAt _ hrest, Text.dropWhile_append_of_endsAt _ hrest,
    Option.map_map]
  rfl

/-- The references before a boundary between runs stay, and what stands behind the boundary follows
them. -/
theorem scanFrom_append {a rest : Text} (ha : Text.Closes isRunChar a)
    (hrest : Text.EndsAt Text.isBlank rest) {inRun : Bool} (hinRun : a = [] → inRun = false)
    {position : Nat} {rs ss : List Reference} (hrs : scanFrom inRun position a = .ok rs)
    (hss : scanFrom false (position + Text.byteSize a) rest = .ok ss) :
    scanFrom inRun position (a ++ rest) = .ok (rs.map (extendBehind rest) ++ ss) := by
  induction a generalizing inRun position rs with
  | nil =>
      obtain rfl := Except.ok.inj hrs
      rw [hinRun rfl]
      exact hss
  | cons c a ih =>
      have hascii := isAscii_of_scanFrom hrs c List.mem_cons_self
      have hleading := leading?_append_of_closes ha (List.cons_ne_nil c a) hrest position
      rw [scanFrom, hascii] at hrs
      simp only [Bool.not_true, Bool.false_eq_true, if_false] at hrs
      cases hlater : scanFrom (isRunChar c) (position + c.utf8Size) a with
      | error e =>
          rw [hlater] at hrs
          cases hrs
      | ok later =>
          rw [hlater] at hrs
          obtain rfl := Except.ok.inj hrs
          have hclosed : a = [] → isRunChar c = false := by
            rintro rfl
            exact ha c rfl
          rw [Text.byteSize_cons, ← Nat.add_assoc] at hss
          rw [List.cons_append] at hleading ⊢
          rw [scanFrom, hascii, ih (ha.of_suffix (List.suffix_cons c a)) hclosed hlater hss,
            hleading]
          simp only [Bool.not_true, Bool.false_eq_true, if_false]
          split
          · cases leading? position (c :: a) <;> rfl
          · rfl

/-- The reference that two identifiers are, with those in front of it and behind it. -/
theorem scan_append {a b library name : Text} (ha : Text.Closes isRunChar a)
    (hb : Text.EndsAt isRunChar b) (hl : Ident.isIdent library = true)
    (hn : Ident.isIdent name = true) {rs ss : List Reference} (hrs : scan a = .ok rs)
    (hss : scan b = .ok ss) :
    scan (a ++ (Ident.qualified library name ++ b)) =
      .ok (rs.map (extendBehind (Ident.qualified library name ++ b)) ++
        standing (Text.byteSize a) library name b ::
          ss.map (shift (Text.byteSize a + Text.byteSize (Ident.qualified library name)))) := by
  have hrun : ∀ c ∈ Ident.qualified library name, isRunChar c = true :=
    fun c => isRunChar_of_mem_qualified hl hn
  have hne : Ident.qualified library name ≠ [] := by
    simp [Ident.qualified]
  refine scanFrom_append ha (endsAt_isBlank_qualified hl name b) (fun _ => rfl) hrs ?_
  rw [Nat.zero_add, scanFrom_word hne hrun hb, leading?_append hrun hb, partsOf?_qualified hl hn]
  have hbehind := scanFrom_add false
    (Text.byteSize a + Text.byteSize (Ident.qualified library name)) 0 b
  rw [Nat.add_zero] at hbehind
  rw [hbehind, show scanFrom false 0 b = .ok ss from hss]
  rfl

/-- A reference is a whole run of a text. -/
structure IsRun (r : Reference) (t a b : Text) : Prop where
  split : t = a ++ (r.fullName ++ b)
  front : Text.Closes isRunChar a
  behind : Text.EndsAt isRunChar b
  library : Ident.isIdent r.library = true
  name : Ident.isIdent r.name = true

/-- The reference at the start of a text is its first run. -/
theorem IsRun.of_leading? {start : Nat} {t : Text} {r : Reference} (h : leading? start t = some r) :
    r.IsRun t [] (t.dropWhile isRunChar) := by
  obtain ⟨parts, hparts, rfl⟩ := Option.map_eq_some_iff.1 h
  obtain ⟨hrun, hl, hn⟩ := partsOf?_eq_some hparts
  refine ⟨?_, Text.closes_nil _, Text.endsAt_dropWhile _ _, hl, hn⟩
  rw [fullName, ← hrun, List.nil_append, List.takeWhile_append_dropWhile]

theorem IsRun.cons {r : Reference} {t a b : Text} {c : Char} (h : r.IsRun t a b)
    (hclosed : a = [] → isRunChar c = false) : r.IsRun (c :: t) (c :: a) b :=
  ⟨by rw [h.split, List.cons_append], h.front.cons hclosed, h.behind, h.library, h.name⟩

/-- What the run before a reference is does not depend on the reference. -/
theorem IsRun.leading?_cons {r : Reference} {t a b : Text} {c : Char} (h : r.IsRun t a b)
    (hclosed : a = [] → isRunChar c = false) (position : Nat) :
    leading? position (c :: t) =
      (leading? position (c :: a)).map (extendBehind (r.fullName ++ b)) := by
  rw [h.split, ← List.cons_append]
  exact leading?_append_of_closes (h.front.cons hclosed) (List.cons_ne_nil c a)
    (endsAt_isBlank_qualified h.library r.name b) position

theorem toList_eq_append_cons {α : Type} {o? : Option α} {a : α} {as bs : List α}
    (h : o?.toList = as ++ a :: bs) : as = [] ∧ o? = some a := by
  cases o? with
  | none =>
      cases as <;> cases h
  | some b =>
      cases as with
      | nil =>
          exact ⟨rfl, congrArg some (List.cons.inj h).1⟩
      | cons _ as =>
          cases as <;> cases h

/-- A reference that the scanner finds is a whole run, and the scanner finds as many references
before it in the text in front of the run alone. -/
theorem exists_run_of_scanFrom {inRun : Bool} {position : Nat} {t : Text} {rs : List Reference}
    {r : Reference} {ss : List Reference}
    (h : scanFrom inRun position t = .ok (rs ++ r :: ss)) :
    ∃ a b rs', r.IsRun t a b ∧ (a = [] → inRun = false) ∧
      scanFrom inRun position a = .ok rs' ∧ rs'.length = rs.length := by
  induction t generalizing inRun position rs with
  | nil =>
      simp [scanFrom] at h
  | cons c t ih =>
      have hascii := isAscii_of_scanFrom h c List.mem_cons_self
      rw [scanFrom, hascii] at h
      simp only [Bool.not_true, Bool.false_eq_true, if_false] at h
      cases hlater : scanFrom (isRunChar c) (position + c.utf8Size) t with
      | error e =>
          rw [hlater] at h
          cases h
      | ok later =>
          rw [hlater] at h
          have hsplit := Except.ok.inj h
          -- a reference behind the character is one of the text behind it
          have behind : ∀ qs, later = qs ++ r :: ss →
              rs = (if isRunChar c && !inRun then (leading? position (c :: t)).toList else []) ++
                qs →
              ∃ a b rs', r.IsRun (c :: t) a b ∧ (a = [] → inRun = false) ∧
                scanFrom inRun position a = .ok rs' ∧ rs'.length = rs.length := by
            rintro qs rfl rfl
            obtain ⟨a, b, rs', hrun, hclosed, hscan, hlength⟩ := ih hlater
            refine ⟨c :: a, b, (if isRunChar c && !inRun then
              (leading? position (c :: a)).toList else []) ++ rs', hrun.cons hclosed,
              fun h => absurd h (List.cons_ne_nil c a), ?_, ?_⟩
            · rw [scanFrom, hascii, hscan]
              rfl
            · rw [hrun.leading?_cons hclosed, List.length_append, List.length_append, hlength]
              split
              · cases leading? position (c :: a) <;> rfl
              · rfl
          rcases List.append_eq_append_iff.1 hsplit with ⟨qs, hrs, hqs⟩ | ⟨qs, hhere, hqs⟩
          · exact behind qs hqs hrs
          · cases qs with
            | nil =>
                exact behind [] hqs.symm (by simpa using hhere.symm)
            | cons q qs =>
                obtain ⟨rfl, -⟩ := List.cons.inj hqs
                split at hhere
                · next hstart =>
                    obtain ⟨rfl, hleading⟩ := toList_eq_append_cons hhere
                    rw [Bool.and_eq_true, Bool.not_eq_true'] at hstart
                    exact ⟨[], _, [], .of_leading? hleading, fun _ => hstart.2, rfl, rfl⟩
                · cases rs <;> cases hhere

/-- The place of a reference that the scanner finds, and what stands before it and behind it. -/
theorem exists_standing_of_scan {code : Text} {rs ss : List Reference} {r : Reference}
    (h : scan code = .ok (rs ++ r :: ss)) :
    ∃ a b rs' ss', r.IsRun code a b ∧ scan a = .ok rs' ∧ scan b = .ok ss' ∧
      rs = rs'.map (extendBehind (r.fullName ++ b)) ∧
      r = standing (Text.byteSize a) r.library r.name b ∧
      ss = ss'.map (shift (Text.byteSize a + Text.byteSize r.fullName)) := by
  obtain ⟨a, b, rs', ⟨rfl, ha, hb, hl, hn⟩, -, hrs', hlength⟩ := exists_run_of_scanFrom h
  obtain ⟨ss', hss'⟩ := exists_scanFrom_eq_ok
    (fun c hc => isAscii_of_scanFrom h c
      (List.mem_append_right a (List.mem_append_right r.fullName hc))) false 0
  rw [fullName, scan_append ha hb hl hn hrs' hss'] at h
  obtain ⟨hrs, hss⟩ := List.append_inj (Except.ok.inj h) (by simpa using hlength)
  obtain ⟨hr, hss⟩ := List.cons.inj hss
  exact ⟨a, b, rs', ss', ⟨rfl, ha, hb, hl, hn⟩, hrs', hss', hrs.symm, hr.symm, hss.symm⟩

end Reference
end DspCheck
