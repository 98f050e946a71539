import DspCheck.Proofs.Source.Identifier
import DspCheck.Proofs.Text.Place
import DspCheck.Source.Line

/-!
# Where statements and bindings stand

The positions of a statement and of the parts of a binding are counts of bytes that the scanner
keeps.  Here they are tied to the text: what is recorded at a position is what stands there
(`Line.exists_of_mem_bindings`).  `Statement.Binds` says without the scanner what a binding is.
-/

namespace DspCheck

theorem depthAfter_of_ne {c : Char} (h : c ≠ '{' ∧ c ≠ '}') (depth : Nat) :
    depthAfter depth c = depth := by
  rw [depthAfter, if_neg h.1, if_neg h.2]

/-- A text without braces changes no depth. -/
theorem foldl_depthAfter_of_forall {t : Text} (h : ∀ c ∈ t, c ≠ '{' ∧ c ≠ '}') (depth : Nat) :
    t.foldl depthAfter depth = depth := by
  induction t with
  | nil =>
      rfl
  | cons c t ih =>
      rw [List.forall_mem_cons] at h
      rw [List.foldl_cons, depthAfter_of_ne h.1, ih h.2]

namespace Statement

theorem cases_of_isEnd {c : Char} (h : isEnd c = true) : c = ';' ∨ c = '{' ∨ c = '}' := by
  simpa [isEnd, or_assoc] using h

theorem piecesFrom_ne_nil (start depth parens : Nat) (t : Text) :
    piecesFrom start depth parens t ≠ [] := by
  cases t with
  | nil =>
      exact List.cons_ne_nil _ _
  | cons c t =>
      unfold piecesFrom
      split
      · exact List.cons_ne_nil _ _
      · rw [ne_eq, List.modifyHead_eq_nil_iff]
        exact piecesFrom_ne_nil _ _ _ t

/-- The first piece starts where the text does. -/
theorem start_of_piecesFrom_eq_cons {start depth parens : Nat} {t : Text} {s : Statement}
    {ss : List Statement} (h : piecesFrom start depth parens t = s :: ss) : s.start = start := by
  cases t with
  | nil =>
      cases h
      rfl
  | cons c t =>
      unfold piecesFrom at h
      split at h
      · cases h
        rfl
      · cases hrest : piecesFrom (start + c.utf8Size) depth (parensAfter parens c) t with
        | nil =>
            exact absurd hrest (piecesFrom_ne_nil _ _ _ t)
        | cons first others =>
            rw [hrest] at h
            cases h
            rfl

/-- Every piece stands in the text at its position. -/
theorem exists_of_mem_piecesFrom {start depth parens : Nat} {t : Text} {s : Statement}
    (h : s ∈ piecesFrom start depth parens t) :
    ∃ front rest, t = front ++ s.text ++ rest ∧ s.start = start + Text.byteSize front := by
  induction t generalizing start depth parens s with
  | nil =>
      rw [piecesFrom, List.mem_singleton] at h
      subst h
      exact ⟨[], [], rfl, rfl⟩
  | cons c t ih =>
      have later : ∀ {depth parens}, s ∈ piecesFrom (start + c.utf8Size) depth parens t →
          ∃ front rest, c :: t = front ++ s.text ++ rest ∧
            s.start = start + Text.byteSize front := by
        intro depth parens hs
        obtain ⟨front, rest, ht, hstart⟩ := ih hs
        refine ⟨c :: front, rest, by rw [ht]; rfl, ?_⟩
        rw [hstart, Text.byteSize_cons, Nat.add_assoc]
      unfold piecesFrom at h
      split at h
      · rcases List.mem_cons.1 h with rfl | h
        · exact ⟨[], c :: t, rfl, rfl⟩
        · exact later h
      · cases hpieces : piecesFrom (start + c.utf8Size) depth (parensAfter parens c) t with
        | nil =>
            exact absurd hpieces (piecesFrom_ne_nil _ _ _ t)
        | cons first others =>
            rw [hpieces, List.modifyHead_cons] at h
            rcases List.mem_cons.1 h with rfl | h
            · -- the first piece has nothing before it, and the character joins it
              have hmem : first ∈ piecesFrom (start + c.utf8Size) depth (parensAfter parens c) t :=
                hpieces ▸ List.mem_cons_self
              obtain ⟨front, rest, ht, hstart⟩ := ih hmem
              have hfront : front = [] := by
                by_contra hne
                have hpos := Text.byteSize_pos hne
                rw [start_of_piecesFrom_eq_cons hpieces] at hstart
                omega
              subst hfront
              exact ⟨[], rest, by rw [ht]; rfl, rfl⟩
            · exact later (hpieces ▸ List.mem_cons_of_mem first h)

/-- A statement binds a name to a value: its parts, with the blanks between them, and where they
stand. -/
structure Binds (s : Statement) (b : Binding) (indent gap pad : Text) : Prop where
  text : s.text = indent ++ b.name ++ gap ++ '=' :: (pad ++ b.value)
  isIdent : Ident.isIdent b.name = true
  blank_indent : ∀ c ∈ indent, Text.isBlank c = true
  blank_gap : ∀ c ∈ gap, Text.isBlank c = true
  blank_pad : ∀ c ∈ pad, Text.isBlank c = true
  value : Text.EndsAt Text.isBlank b.value
  /-- Two equals signs bind nothing. -/
  single : (pad ++ b.value).head? ≠ some '='
  nameStart : b.nameStart = s.start + Text.byteSize indent
  valueStart : b.valueStart =
    s.start + Text.byteSize (indent ++ b.name ++ gap ++ '=' :: pad)
  depth : b.depth = s.depth

theorem exists_binds_of_binding? {s : Statement} {b : Binding} (h : s.binding? = some b) :
    ∃ indent gap pad, s.Binds b indent gap pad := by
  unfold binding? at h
  dsimp only at h
  generalize hbody : s.text.dropWhile Text.isBlank = body at h
  have hname := Ident.leading_append_drop body
  generalize hafter : body.drop (Ident.leading body).length = after at h hname
  split at h
  · next rest hrest =>
      split at h
      · cases h
      · next hok =>
          rw [Bool.or_eq_true, not_or, decide_eq_true_eq, decide_eq_true_eq] at hok
          have htext : s.text = s.text.takeWhile Text.isBlank ++ body := by
            rw [← hbody, List.takeWhile_append_dropWhile]
          have hgap : after = after.takeWhile Text.isBlank ++ '=' :: rest := by
            rw [← hrest, List.takeWhile_append_dropWhile]
          have hvalue : rest = rest.takeWhile Text.isBlank ++ Text.trimStart rest := by
            rw [Text.trimStart, List.takeWhile_append_dropWhile]
          obtain rfl := (Option.some.inj h).symm
          refine ⟨s.text.takeWhile Text.isBlank, after.takeWhile Text.isBlank,
            rest.takeWhile Text.isBlank, ?_, Ident.isIdent_leading hok.1,
            fun _ => List.mem_takeWhile_imp, fun _ => List.mem_takeWhile_imp,
            fun _ => List.mem_takeWhile_imp, ?_, ?_, rfl, ?_, rfl⟩
          · conv_lhs => rw [htext, ← hname, hgap, hvalue]
            simp
          · exact Text.endsAt_dropWhile Text.isBlank rest
          · rw [← hvalue]
            exact hok.2
          · simp only [Text.byteSize_append, Text.byteSize_cons]
            have hequals : Char.utf8Size '=' = 1 := by decide
            omega
  · cases h

/-- A statement with the parts of a binding is that binding. -/
theorem Binds.binding?_eq {s : Statement} {b : Binding} {indent gap pad : Text}
    (h : s.Binds b indent gap pad) : s.binding? = some b := by
  obtain ⟨name, nameStart, value, valueStart, depth⟩ := b
  obtain ⟨htext, hident, hindent, hgap, hpad, hvalue, hsingle, hnameStart, hvalueStart, hdepth⟩ := h
  dsimp only at htext hident hvalue hsingle hnameStart hvalueStart hdepth
  subst hnameStart hvalueStart hdepth
  have hbody : Text.EndsAt Text.isBlank (name ++ (gap ++ '=' :: (pad ++ value))) :=
    Ident.endsAt_append (fun _ => Ident.not_isBlank_of_isPart) hident _
  have hafter : Text.EndsAt Ident.isPart (gap ++ '=' :: (pad ++ value)) := by
    cases gap with
    | nil =>
        exact Text.endsAt_cons (by decide) _
    | cons c gap =>
        exact Text.endsAt_cons (Ident.not_isPart_of_isBlank (hgap c List.mem_cons_self)) _
  have hequals : Text.EndsAt Text.isBlank ('=' :: (pad ++ value)) :=
    Text.endsAt_cons (by decide) _
  have hbinds : ¬ (decide (name = []) || decide ((pad ++ value).head? = some '=')) = true := by
    rw [Bool.or_eq_true, decide_eq_true_eq, decide_eq_true_eq, not_or]
    exact ⟨Ident.ne_nil hident, hsingle⟩
  have hsize : Char.utf8Size '=' = 1 := by decide
  rw [List.append_assoc, List.append_assoc] at htext
  unfold binding?
  simp only [htext, Text.takeWhile_run hindent hbody, Text.dropWhile_run hindent hbody,
    Ident.leading_append hident hafter, List.drop_left, Text.takeWhile_run hgap hequals,
    Text.dropWhile_run hgap hequals, if_neg hbinds, Text.trimStart, Text.takeWhile_run hpad hvalue,
    Text.dropWhile_run hpad hvalue, Text.byteSize_append, Text.byteSize_cons, hsize, Nat.add_assoc]

/-- A statement that gives another value to the same name. -/
theorem Binds.withValue {s : Statement} {b : Binding} {indent gap pad : Text}
    (h : s.Binds b indent gap pad) {text value : Text}
    (htext : text = indent ++ b.name ++ gap ++ '=' :: (pad ++ value))
    (hvalue : Text.EndsAt Text.isBlank value) (hsingle : value.head? ≠ some '=') :
    Binds ⟨s.start, s.depth, text⟩ { b with value } indent gap pad :=
  { h with
    text := htext
    value := hvalue
    single := Text.head?_append_ne h.blank_pad (by decide) hsingle }

/-- What stands before the equals sign of a binding. -/
theorem Binds.notMem {s : Statement} {b : Binding} {indent gap pad : Text}
    (h : s.Binds b indent gap pad) {c : Char} (hblank : Text.isBlank c = false)
    (hpart : Ident.isPart c = false) : c ∉ indent ++ b.name ++ gap := by
  have hblanks : ∀ {t : Text}, (∀ d ∈ t, Text.isBlank d = true) → c ∉ t := fun ht hmem => by
    rw [ht c hmem] at hblank
    cases hblank
  rw [List.mem_append, List.mem_append, not_or, not_or]
  exact ⟨⟨hblanks h.blank_indent, Ident.notMem_of_not_isPart h.isIdent hpart⟩,
    hblanks h.blank_gap⟩

/-- The parts of a binding are the parts of its statement. -/
theorem exists_of_binding? {s : Statement} {b : Binding} (h : s.binding? = some b) :
    ∃ indent gap pad, s.text = indent ++ b.name ++ gap ++ '=' :: (pad ++ b.value) ∧
      Ident.isIdent b.name = true ∧ b.nameStart = s.start + Text.byteSize indent ∧
      b.valueStart =
        s.start + Text.byteSize (indent ++ b.name ++ gap ++ '=' :: pad) := by
  obtain ⟨indent, gap, pad, hbinds⟩ := exists_binds_of_binding? h
  exact ⟨indent, gap, pad, hbinds.text, hbinds.isIdent, hbinds.nameStart, hbinds.valueStart⟩

theorem depth_of_binding? {s : Statement} {b : Binding} (h : s.binding? = some b) :
    b.depth = s.depth := by
  obtain ⟨_, _, _, hbinds⟩ := exists_binds_of_binding? h
  exact hbinds.depth

/-- Up to a semicolon outside parentheses there is one statement. -/
theorem piecesFrom_append {t : Text} (hends : ∀ c ∈ t, isEnd c = false) {parens : Nat}
    (hparens : t.foldl parensAfter parens = 0) (start depth : Nat) (rest : Text) :
    piecesFrom start depth parens (t ++ ';' :: rest) =
      ⟨start, depth, t⟩ :: piecesFrom (start + Text.byteSize t + 1) depth 0 rest := by
  induction t generalizing start parens with
  | nil =>
      rw [List.foldl_nil] at hparens
      subst hparens
      rfl
  | cons c t ih =>
      rw [List.forall_mem_cons] at hends
      have hrest := ih hends.2 hparens (start + c.utf8Size)
      rw [List.cons_append, piecesFrom, hends.1, Bool.false_and, if_neg Bool.false_ne_true, hrest,
        List.modifyHead_cons, Text.byteSize_cons, ← Nat.add_assoc start]
      rfl

/-- A statement that is written as a binding is that binding. -/
theorem exists_binding?_eq_some {name value : Text} (hname : Ident.isIdent name = true)
    (hvalue : Text.EndsAt Text.isBlank value) (start depth : Nat) :
    ∃ b, binding? ⟨start, depth, name ++ " = " ++ value⟩ = some b ∧ b.name = name ∧
      b.value = value := by
  have hblank : ∀ c ∈ (" " : Text), Text.isBlank c = true := List.forall_mem_singleton.2 rfl
  let b : Binding :=
    ⟨name, start, value, start + Text.byteSize (name ++ " " ++ '=' :: (" " : Text)), depth⟩
  have hbinds : Binds ⟨start, depth, name ++ " = " ++ value⟩ b [] " " " " :=
    ⟨by simp [b], hname, by simp, hblank, hblank, hvalue, by simp, rfl, rfl, rfl⟩
  exact ⟨b, hbinds.binding?_eq, rfl, rfl⟩

end Statement

namespace Line

/-- The name and the value of a binding stand in the masked line at their positions. -/
theorem exists_of_mem_bindings {l : Line} {b : Binding} (h : b ∈ l.bindings) :
    Ident.isIdent b.name = true ∧
      ∃ front middle rest, l.code = front ++ b.name ++ middle ++ b.value ++ rest ∧
        b.nameStart = Text.byteSize front ∧
        b.valueStart = Text.byteSize (front ++ b.name ++ middle) := by
  obtain ⟨s, hs, hb⟩ := List.mem_filterMap.1 h
  obtain ⟨before, behind, hcode, hstart⟩ :=
    Statement.exists_of_mem_piecesFrom (List.mem_filter.1 hs).1
  obtain ⟨indent, gap, pad, htext, hname, hnameStart, hvalueStart⟩ :=
    Statement.exists_of_binding? hb
  refine ⟨hname, before ++ indent, gap ++ '=' :: pad, behind, ?_, ?_, ?_⟩
  · rw [hcode, htext]
    simp
  · rw [hnameStart, hstart, Text.byteSize_append, Nat.zero_add]
  · rw [hvalueStart, hstart, Nat.zero_add, ← Text.byteSize_append]
    simp only [List.append_assoc]

/-- The bindings of a line are those of its pieces. -/
theorem bindings_eq (l : Line) :
    l.bindings = (Statement.piecesFrom 0 l.depth 0 l.code).filterMap Statement.binding? := by
  rw [bindings, statements, List.filterMap_filter]
  refine List.filterMap_congr fun s _ => ?_
  split
  · rfl
  · next hblank =>
      cases hb : s.binding? with
      | none =>
          rfl
      | some b =>
          obtain ⟨indent, gap, pad, htext, -⟩ := Statement.exists_of_binding? hb
          simp only [Bool.not_eq_true, Bool.not_eq_false', Text.isAllBlank, List.all_eq_true]
            at hblank
          have hequals := hblank '=' (by simp [htext])
          exact absurd hequals (by decide)

end Line
end DspCheck
