import DspCheck.Check.Bindings
import DspCheck.Proofs.Renaming.Replacement
import DspCheck.Proofs.Source.Continuation
import DspCheck.Proofs.Text.Word

/-!
# Bindings on a line where a function is renamed

A line names a member of a library, and the same line with another member there is checked again.
The bindings before the name do not depend on it, and those behind it move.  The binding in whose
value it stands is the same but for its value, and what checks ask about that value does not depend
on the member, either.

Main statement: `Line.bindings_renamed`.
-/

namespace DspCheck

namespace Text

/-- A text without dots is found before a dot or not at all. -/
theorem after?_append_dot {word : Text} (hword : '.' ∉ word) (t rest : Text) :
    after? word (t ++ '.' :: rest) = (after? word t).map (· ++ '.' :: rest) := by
  induction word generalizing t with
  | nil =>
      simp
  | cons d word ih =>
      rw [List.mem_cons, not_or] at hword
      cases t with
      | nil =>
          have hne : ¬ d = '.' := fun h => hword.1 h.symm
          simp [after?, hne]
      | cons c t =>
          rw [List.cons_append, after?, after?]
          split
          · exact ih hword.2 t
          · rfl

end Text

namespace Binding

/-! ## Bindings -/

section Values

variable {library : Text}

/-- The value of a binding up to the dot of a member in it. -/
theorem value_extendBehind (b : Binding) (library name y : Text) :
    (b.extendBehind (Ident.qualified library name ++ y)).value =
      (b.value ++ library) ++ '.' :: (name ++ y) := by
  simp [extendBehind, Ident.qualified]

theorem startsWithWord_append_dot {word : Text} (hword : '.' ∉ word) (t rest rest' : Text) :
    Text.startsWithWord word (t ++ '.' :: rest) =
      Text.startsWithWord word (t ++ '.' :: rest') := by
  simp only [Text.startsWithWord, Text.after?_append_dot hword]
  cases Text.after? word t with
  | none =>
      rfl
  | some r =>
      cases r <;> rfl

/-- Whether a binding makes its name a library does not depend on the member that it names. -/
theorem isLibrary_extendBehind (b : Binding) (library name name' y : Text) :
    (b.extendBehind (Ident.qualified library name ++ y)).isLibrary =
      (b.extendBehind (Ident.qualified library name' ++ y)).isLibrary := by
  have hlibrary : '.' ∉ ("library" : Text) := by decide
  have henvironment : '.' ∉ ("environment" : Text) := by decide
  rw [isLibrary, isLibrary, value_extendBehind, value_extendBehind,
    startsWithWord_append_dot hlibrary _ _ (name' ++ y),
    startsWithWord_append_dot henvironment _ _ (name' ++ y)]

/-- A binding uses its own name as a library in front of the dot of a member or of its library. -/
theorem isRecursive_iff_of_value {b : Binding} {t name y : Text}
    (hb : Ident.isIdent b.name = true) (hn : Ident.isIdent name = true)
    (hvalue : b.value = t ++ '.' :: (name ++ y)) :
    b.isRecursive = true ↔ ∃ r, Text.after? b.name t = some r ∧
      (r = [] ∨ ∃ c r', r = '.' :: c :: r' ∧ Ident.isStart c = true) := by
  have hrecursive : b.isRecursive = true ↔
      ∃ rest, Text.after? b.name b.value = some ('.' :: rest) ∧ Ident.leading rest ≠ [] := by
    unfold isRecursive
    split
    · next rest h =>
        simp [h]
    · next h =>
        simp only [Bool.false_eq_true, false_iff, not_exists, not_and]
        exact fun rest hrest => absurd hrest (h rest)
  have hleading : ∀ (c : Char) (r : Text), Ident.leading (c :: r) ≠ [] ↔
      Ident.isStart c = true := by
    intro c r
    simp [Ident.leading]
  obtain ⟨first, others, rfl, hfirst, -⟩ := Ident.isIdent_iff.1 hn
  rw [hrecursive, hvalue, Text.after?_append_dot (Ident.dot_notMem hb)]
  constructor
  · rintro ⟨rest, hrest, hident⟩
    obtain ⟨r, hr, heq⟩ := Option.map_eq_some_iff.1 hrest
    refine ⟨r, hr, ?_⟩
    cases r with
    | nil =>
        exact Or.inl rfl
    | cons d r =>
        obtain ⟨rfl, rfl⟩ := List.cons.inj heq
        cases r with
        | nil =>
            exact absurd ((hleading _ _).1 hident) (by decide)
        | cons c r' =>
            exact Or.inr ⟨c, r', rfl, (hleading _ _).1 hident⟩
  · rintro ⟨r, hr, rfl | ⟨c, r', rfl, hc⟩⟩
    · exact ⟨_, by rw [hr]; rfl, (hleading _ _).2 hfirst⟩
    · exact ⟨_, by rw [hr]; rfl, (hleading _ _).2 hc⟩

/-- Whether a binding uses its own name as a library does not depend on the member. -/
theorem isRecursive_extendBehind {b : Binding} (hb : Ident.isIdent b.name = true)
    (library : Text) {name name' : Text} (hn : Ident.isIdent name = true)
    (hn' : Ident.isIdent name' = true) (y : Text) :
    (b.extendBehind (Ident.qualified library name ++ y)).isRecursive =
      (b.extendBehind (Ident.qualified library name' ++ y)).isRecursive := by
  rw [Bool.eq_iff_iff,
    isRecursive_iff_of_value (b := b.extendBehind _) hb hn (value_extendBehind b library name y),
    isRecursive_iff_of_value (b := b.extendBehind _) hb hn' (value_extendBehind b library name' y)]
  rfl

/-- A literal and what follows it are the value of its binding. -/
theorem exists_of_literal? {b : Binding} {t : Text} (h : b.literal? = some t) :
    ∃ rest, b.value = t ++ rest := by
  unfold literal? at h
  split at h
  · next value hvalue =>
      split at h
      · cases h
      · next content behind hbreak =>
          dsimp only at h
          split at h
          · obtain rfl := Option.some.inj h
            exact ⟨behind, by rw [hvalue, Text.append_of_breakAt? hbreak]; simp⟩
          · cases h
  · cases h

/-- The literal of a value ends at its second quote. -/
theorem literal?_of_value {b : Binding} {content behind : Text} (hcontent : '"' ∉ content)
    (hvalue : b.value = '"' :: (content ++ '"' :: behind)) :
    b.literal? = if Text.trim behind = [] || Text.trim behind = ";" then
      some ('"' :: content ++ "\"") else none := by
  have hbreak : Text.breakAt? "\"" (content ++ '"' :: behind) = some (content, behind) := by
    have h := Text.breakAt?_append hcontent [] behind
    rw [List.append_assoc] at h
    exact h
  unfold literal?
  rw [hvalue]
  simp only [hbreak]

theorem literal?_of_notMem {b : Binding} {v : Text} (hv : '"' ∉ v)
    (hvalue : b.value = '"' :: v) : b.literal? = none := by
  have hbreak : Text.breakAt? "\"" v = none :=
    Text.breakAt?_eq_none (c := '"') (by decide) hv
  unfold literal?
  rw [hvalue]
  simp only [hbreak]

theorem literal?_of_head? {b : Binding} (h : b.value.head? ≠ some '"') : b.literal? = none := by
  unfold literal?
  split
  · next rest hrest =>
      rw [hrest] at h
      exact absurd rfl h
  · rfl

theorem quote_notMem_qualified {name : Text} (hl : Ident.isIdent library = true)
    (hn : Ident.isIdent name = true) : '"' ∉ Ident.qualified library name := by
  intro hmem
  have hrun := Reference.isRunChar_of_mem_qualified hl hn hmem
  revert hrun
  decide

/-- A literal that ends before a member is not the whole value. -/
theorem literal?_extendBehind_of_mem {b : Binding} {v : Text} (hvalue : b.value = '"' :: v)
    (hv : '"' ∈ v) (hl : Ident.isIdent library = true) (name y : Text) :
    (b.extendBehind (Ident.qualified library name ++ y)).literal? = none := by
  obtain ⟨first, others, hfirst, hstart, -⟩ := Ident.isIdent_iff.1 hl
  obtain ⟨content, behind, rfl, hcontent⟩ := List.eq_append_cons_of_mem hv
  have hvisible := Ident.not_isBlank_of_isPart (Ident.isPart_of_isStart hstart)
  have hmem : first ∈ Text.trim (behind ++ (Ident.qualified library name ++ y)) :=
    Text.mem_trim_of_mem hvisible (by simp [Ident.qualified, hfirst])
  have hextended : (b.extendBehind (Ident.qualified library name ++ y)).value =
      '"' :: (content ++ '"' :: (behind ++ (Ident.qualified library name ++ y))) := by
    simp [extendBehind, hvalue]
  rw [literal?_of_value hcontent hextended, if_neg]
  rw [Bool.or_eq_true, decide_eq_true_eq, decide_eq_true_eq]
  rintro (htrim | htrim)
  · rw [htrim] at hmem
    cases hmem
  · rw [htrim] at hmem
    obtain rfl : first = ';' := List.mem_singleton.1 hmem
    cases hstart

/-- A literal that is open before a member goes beyond it. -/
theorem literal?_extendBehind_of_notMem {b : Binding} {v : Text} (hvalue : b.value = '"' :: v)
    (hv : '"' ∉ v) (hl : Ident.isIdent library = true) (y : Text) :
    (∀ name, Ident.isIdent name = true →
      (b.extendBehind (Ident.qualified library name ++ y)).literal? = none) ∨
    ∃ k, ∀ name, Ident.isIdent name = true → ∃ t,
      (b.extendBehind (Ident.qualified library name ++ y)).literal? = some t ∧
      Text.byteSize t =
        Text.byteSize b.value + Text.byteSize (Ident.qualified library name) + k := by
  by_cases hy : '"' ∈ y
  · obtain ⟨content, behind, rfl, hcontent⟩ := List.eq_append_cons_of_mem hy
    have hread : ∀ name, Ident.isIdent name = true →
        (b.extendBehind (Ident.qualified library name ++ (content ++ '"' :: behind))).literal? =
          if Text.trim behind = [] || Text.trim behind = ";" then
            some ('"' :: (v ++ (Ident.qualified library name ++ content)) ++ "\"") else none := by
      intro name hn
      have hall : '"' ∉ v ++ (Ident.qualified library name ++ content) := by
        simp [hv, quote_notMem_qualified hl hn, hcontent]
      exact literal?_of_value hall (by simp [extendBehind, hvalue])
    by_cases hend : (decide (Text.trim behind = []) || decide (Text.trim behind = ";")) = true
    · refine Or.inr ⟨Text.byteSize content + 1, fun name hn =>
        ⟨_, (hread name hn).trans (if_pos hend), ?_⟩⟩
      have hone : Text.byteSize ("\"" : Text) = 1 := rfl
      simp only [hvalue, List.cons_append, Text.byteSize_cons, Text.byteSize_append, hone]
      omega
    · exact Or.inl fun name hn => (hread name hn).trans (if_neg hend)
  · refine Or.inl fun name hn => ?_
    have hall : '"' ∉ v ++ (Ident.qualified library name ++ y) := by
      simp [hv, quote_notMem_qualified hl hn, hy]
    exact literal?_of_notMem hall (by simp [extendBehind, hvalue])

/-- A literal in whose binding a member of a library is named goes beyond the member. -/
theorem literal?_extendBehind_cases (b : Binding) (hl : Ident.isIdent library = true) (y : Text) :
    (∀ name, Ident.isIdent name = true →
      (b.extendBehind (Ident.qualified library name ++ y)).literal? = none) ∨
    ∃ k, ∀ name, Ident.isIdent name = true → ∃ t,
      (b.extendBehind (Ident.qualified library name ++ y)).literal? = some t ∧
      Text.byteSize t =
        Text.byteSize b.value + Text.byteSize (Ident.qualified library name) + k := by
  by_cases hquoted : ∃ v, b.value = '"' :: v
  · obtain ⟨v, hvalue⟩ := hquoted
    by_cases hv : '"' ∈ v
    · exact Or.inl fun name _ => literal?_extendBehind_of_mem hvalue hv hl name y
    · exact literal?_extendBehind_of_notMem hvalue hv hl y
  · refine Or.inl fun name _ => literal?_of_head? fun hhead => hquoted ?_
    obtain ⟨first, others, hfirst, hstart, -⟩ := Ident.isIdent_iff.1 hl
    cases hvalue : b.value with
    | nil =>
        rw [extendBehind, hvalue, Ident.qualified, hfirst] at hhead
        obtain rfl : first = '"' := Option.some.inj hhead
        cases hstart
    | cons c v =>
        rw [extendBehind, hvalue] at hhead
        obtain rfl : c = '"' := Option.some.inj hhead
        exact ⟨v, rfl⟩

/-! ### Remarks about bindings -/

theorem remarks_shift (k : Nat) (b : Binding) :
    (b.shift k).remarks = b.remarks.map (Remark.shift k) := by
  have hrecursion : (b.shift k).recursion? = b.recursion?.map (Remark.shift k) := by
    unfold recursion?
    show (if b.isRecursive then _ else _) = _
    split
    · simp [shift, Remark.shift, Nat.add_assoc]
    · rfl
  have hstring : (b.shift k).stringValue? = b.stringValue?.map (Remark.shift k) := by
    unfold stringValue?
    rw [show (b.shift k).literal? = b.literal? from rfl, Option.map_map]
    congr 1
    funext literal
    simp [shift, Remark.shift, Nat.add_assoc]
  rw [remarks, hrecursion, hstring, remarks, List.map_append, Option.toList_map, Option.toList_map]

/-- The remarks about a binding are about texts that stand before its end. -/
theorem le_of_mem_remarks {b : Binding} {n : Nat}
    (hname : b.nameStart + Text.byteSize b.name ≤ n)
    (hvalue : b.valueStart + Text.byteSize b.value ≤ n) :
    ∀ m ∈ b.remarks, m.start ≤ n ∧ m.stop ≤ n := by
  intro m hm
  rcases List.mem_append.1 hm with hm | hm
  · rw [Option.mem_toList] at hm
    unfold recursion? at hm
    split at hm
    · obtain rfl := Option.some.inj hm
      exact ⟨by dsimp only; omega, hname⟩
    · cases hm
  · rw [Option.mem_toList] at hm
    obtain ⟨literal, hliteral, rfl⟩ := Option.map_eq_some_iff.1 hm
    obtain ⟨rest, hrest⟩ := exists_of_literal? hliteral
    rw [hrest, Text.byteSize_append] at hvalue
    dsimp only
    omega

open Replacement (ofTexts) in
/-- The remarks about a binding in whose value a member of a library is named. -/
theorem carries_remarks {b : Binding} (hb : Ident.isIdent b.name = true)
    (hl : Ident.isIdent library = true) {name name' : Text} (hn : Ident.isIdent name = true)
    (hn' : Ident.isIdent name' = true) (y : Text) {front : Text}
    (hname : b.nameStart + Text.byteSize b.name ≤ Text.byteSize front)
    (hvalue : b.valueStart + Text.byteSize b.value = Text.byteSize front) :
    (ofTexts front (Ident.qualified library name) (Ident.qualified library name')).Carries
      (b.extendBehind (Ident.qualified library name ++ y)).remarks
      (b.extendBehind (Ident.qualified library name' ++ y)).remarks := by
  have hne : Ident.qualified library name ≠ [] := by
    simp [Ident.qualified]
  refine Replacement.Carries.append ?_ ?_
  · have hsame : (b.extendBehind (Ident.qualified library name' ++ y)).recursion? =
        (b.extendBehind (Ident.qualified library name ++ y)).recursion? := by
      rw [recursion?, recursion?, isRecursive_extendBehind hb library hn hn' y]
      rfl
    rw [hsame]
    refine Replacement.carries_of_le hne fun m hm => ?_
    rw [Option.mem_toList] at hm
    unfold recursion? at hm
    split at hm
    · obtain rfl := Option.some.inj hm
      exact ⟨Nat.le_trans (Nat.le_add_right _ _) hname, hname⟩
    · cases hm
  · rcases literal?_extendBehind_cases b hl y with hnone | ⟨k, hsome⟩
    · rw [stringValue?, stringValue?, hnone name hn, hnone name' hn']
      exact Replacement.carries_nil _
    · obtain ⟨t, ht, hsize⟩ := hsome name hn
      obtain ⟨t', ht', hsize'⟩ := hsome name' hn'
      have hstop : b.valueStart + Text.byteSize t =
          Text.byteSize front + Text.byteSize (Ident.qualified library name) + k := by
        omega
      have hstop' : b.valueStart + Text.byteSize t' =
          Text.byteSize front + Text.byteSize (Ident.qualified library name') + k := by
        omega
      have hstart : b.valueStart ≤ Text.byteSize front := by
        omega
      rw [stringValue?, stringValue?, ht, ht']
      constructor
      · show [(_ : Remark)] = [_]
        rw [Replacement.remark]
        dsimp only [extendBehind]
        rw [hstop, hstop', Replacement.move_add, Replacement.move_of_le hne hstart]
      · intro m hm
        obtain rfl := List.mem_singleton.1 hm
        exact Or.inl hstart

end Values
end Binding

/-- The bindings of a line around the end of a text: those before it, the one whose value goes on
there, and those behind it, with their positions from there on. -/
structure BindingsAround (front : Text) where
  before : List Binding
  open? : Option Binding
  behind : List Binding
  /-- What belongs to the statement behind the text. -/
  rest : Text
  isIdent : ∀ b ∈ before ++ open?.toList, Ident.isIdent b.name = true
  name_le : ∀ b ∈ before ++ open?.toList,
    b.nameStart + Text.byteSize b.name ≤ Text.byteSize front
  value_le : ∀ b ∈ before, b.valueStart + Text.byteSize b.value ≤ Text.byteSize front
  value_eq : ∀ b ∈ open?, b.valueStart + Text.byteSize b.value = Text.byteSize front

namespace BindingsAround

variable {front : Text}

/-- The bindings of the line with a word there. -/
def bindings (s : BindingsAround front) (w : Text) : List Binding :=
  s.before ++ (s.open?.map (Binding.extendBehind (w ++ s.rest))).toList ++
    s.behind.map (Binding.shift (Text.byteSize front + Text.byteSize w))

/-- A property of bindings holds of those of the same names, if it holds of the open binding with
the one word if and only if it holds with the other. -/
theorem map_name_filter (s : BindingsAround front) {p : Binding → Bool}
    (hshift : ∀ k b, p (b.shift k) = p b) {w w' : Text}
    (hopen : ∀ b ∈ s.open?, p (b.extendBehind (w ++ s.rest)) = p (b.extendBehind (w' ++ s.rest))) :
    ((s.bindings w).filter p).map Binding.name = ((s.bindings w').filter p).map Binding.name := by
  have hmoved : ∀ k, ((s.behind.map (Binding.shift k)).filter p).map Binding.name =
      (s.behind.filter p).map Binding.name := by
    intro k
    rw [List.filter_map, List.map_map, show p ∘ Binding.shift k = p from funext (hshift k)]
    rfl
  simp only [bindings, List.filter_append, List.map_append, hmoved]
  cases hb : s.open? with
  | none =>
      rfl
  | some b =>
      simp only [Option.map_some, Option.toList_some, List.filter_cons, hopen b hb]
      split <;> rfl

open Replacement (ofTexts) in
/-- The remarks about bindings are made again with another member. -/
theorem carries_remarks (s : BindingsAround front) {library name name' : Text}
    (hl : Ident.isIdent library = true) (hn : Ident.isIdent name = true)
    (hn' : Ident.isIdent name' = true) :
    (ofTexts front (Ident.qualified library name) (Ident.qualified library name')).Carries
      ((s.bindings (Ident.qualified library name)).flatMap Binding.remarks)
      ((s.bindings (Ident.qualified library name')).flatMap Binding.remarks) := by
  have hne : Ident.qualified library name ≠ [] := by
    simp [Ident.qualified]
  have hmoved : ∀ k, (s.behind.map (Binding.shift k)).flatMap Binding.remarks =
      (s.behind.flatMap Binding.remarks).map (Remark.shift k) := by
    intro k
    rw [List.flatMap_map, List.map_flatMap]
    exact List.flatMap_congr fun b _ => Binding.remarks_shift k b
  simp only [bindings, List.flatMap_append, hmoved]
  refine ((Replacement.carries_of_le hne fun m hm => ?_).append ?_).append
    (Replacement.carries_shift _)
  · obtain ⟨b, hb, hm⟩ := List.mem_flatMap.1 hm
    exact Binding.le_of_mem_remarks (s.name_le b (List.mem_append_left _ hb)) (s.value_le b hb) m hm
  · cases hb : s.open? with
    | none =>
        exact Replacement.carries_nil _
    | some b =>
        have hmem : b ∈ s.before ++ s.open?.toList :=
          List.mem_append_right _ (Option.mem_toList.2 hb)
        simpa using Binding.carries_remarks (s.isIdent b hmem) hl hn hn' s.rest
          (s.name_le b hmem) (s.value_eq b hb)

end BindingsAround

namespace Statement

/-- A statement before the end of a text binds a name there. -/
theorem le_of_binding? {s : Statement} {b : Binding} (h : s.binding? = some b) :
    b.nameStart + Text.byteSize b.name ≤ s.start + Text.byteSize s.text ∧
      b.valueStart + Text.byteSize b.value = s.start + Text.byteSize s.text := by
  obtain ⟨indent, gap, pad, htext, -, hname, hvalue⟩ := exists_of_binding? h
  rw [hname, hvalue, htext]
  simp only [Text.byteSize_append, Text.byteSize_cons]
  omega

/-- The pieces of a text in which a word stands: those before the one that the word belongs to, and
those behind it, moved by the word. -/
theorem exists_piecesAround (depth : Nat) (a b : Text) :
    ∃ (ss : List Statement) (s : Statement) (others : List Statement) (rest : Text),
      (∀ t ∈ ss, t.start + Text.byteSize t.text ≤ Text.byteSize a) ∧
      s.start + Text.byteSize s.text = Text.byteSize a ∧ s.text <:+ a ∧
      ∀ w, (∀ c ∈ w, Reference.isRunChar c = true) → piecesFrom 0 depth 0 (a ++ (w ++ b)) =
        ss ++ s.extendBehind (w ++ rest) ::
          others.map (shift (Text.byteSize a + Text.byteSize w)) := by
  obtain ⟨ss, s, depth', parens', hpieces, hsuffix, hstop, happend⟩ :=
    exists_piecesFrom_append 0 depth 0 a
  obtain ⟨first, others, hbehind⟩ :=
    List.exists_cons_of_ne_nil (piecesFrom_ne_nil 0 depth' parens' b)
  rw [Nat.zero_add] at hstop happend
  refine ⟨ss, s, others, first.text, fun t ht => ?_, hstop, hsuffix, fun w hw => ?_⟩
  · obtain ⟨front, rest, hsplit, hstart⟩ :=
      exists_of_mem_piecesFrom (hpieces ▸ List.mem_append_left _ ht)
    rw [hsplit, hstart]
    simp only [Text.byteSize_append]
    omega
  · have hshift := piecesFrom_add (Text.byteSize a + Text.byteSize w) 0 depth' parens' b
    rw [Nat.add_zero, hbehind] at hshift
    rw [happend, piecesFrom_word hw, hshift]
    simp only [List.map_cons, List.modifyHead_cons]
    simp only [andThen, extendBehind, shift]

end Statement

/-- The bindings of the statements of a line around the end of a text. -/
def BindingsAround.ofStatements {front : Text} (ss : List Statement) (s : Statement)
    (others : List Statement) (rest : Text)
    (hss : ∀ t ∈ ss, t.start + Text.byteSize t.text ≤ Text.byteSize front)
    (hs : s.start + Text.byteSize s.text = Text.byteSize front) : BindingsAround front where
  before := (ss.filter fun t => !Text.isAllBlank t.text).filterMap Statement.binding?
  open? := s.binding?
  behind := (others.filter fun t => !Text.isAllBlank t.text).filterMap Statement.binding?
  rest := rest
  isIdent b hb := by
    have hfound : ∃ t : Statement, t.binding? = some b := by
      rcases List.mem_append.1 hb with hb | hb
      · obtain ⟨t, -, ht⟩ := List.mem_filterMap.1 hb
        exact ⟨t, ht⟩
      · exact ⟨s, Option.mem_toList.1 hb⟩
    obtain ⟨t, ht⟩ := hfound
    obtain ⟨-, -, -, -, hident, -⟩ := Statement.exists_of_binding? ht
    exact hident
  name_le b hb := by
    rcases List.mem_append.1 hb with hb | hb
    · obtain ⟨t, ht, hbt⟩ := List.mem_filterMap.1 hb
      exact Nat.le_trans (Statement.le_of_binding? hbt).1 (hss t (List.mem_of_mem_filter ht))
    · exact hs ▸ (Statement.le_of_binding? (Option.mem_toList.1 hb)).1
  value_le b hb := by
    obtain ⟨t, ht, hbt⟩ := List.mem_filterMap.1 hb
    rw [(Statement.le_of_binding? hbt).2]
    exact hss t (List.mem_of_mem_filter ht)
  value_eq b hb := hs ▸ (Statement.le_of_binding? hb).2

namespace Line

/-- The bindings of a line that names a member of a library do not depend on the member, but for
their values and their places. -/
theorem exists_bindingsAround {library : Text} (hl : Ident.isIdent library = true) {a : Text}
    (ha : Text.Closes Reference.isRunChar a) (b : Text) (depth : Nat) :
    ∃ s : BindingsAround a, ∀ l : Line, l.depth = depth → ∀ name, Ident.isIdent name = true →
      l.code = a ++ (Ident.qualified library name ++ b) →
      l.bindings = s.bindings (Ident.qualified library name) := by
  obtain ⟨ss, s, others, rest, hss, hs, hsuffix, hpieces⟩ :=
    Statement.exists_piecesAround depth a b
  refine ⟨.ofStatements ss s others rest hss hs, fun l hdepth name hn hcode => ?_⟩
  have hvisible : Text.isAllBlank
      (s.extendBehind (Ident.qualified library name ++ rest)).text = false := by
    rw [Text.isAllBlank, List.all_eq_false]
    exact ⟨'.', by simp [Statement.extendBehind, Ident.qualified], by decide⟩
  have hopen : (s.extendBehind (Ident.qualified library name ++ rest)).binding? =
      s.binding?.map (Binding.extendBehind (Ident.qualified library name ++ rest)) := by
    have hclosed : Text.Closes Ident.isPart s.text :=
      (ha.of_suffix hsuffix).mono fun c hc => by simp [Reference.isRunChar, hc]
    have happended := Statement.binding?_append hclosed hl s.start s.depth (name ++ rest)
    simpa [Ident.qualified, Statement.extendBehind] using happended
  have hothers : ∀ k, ((others.map (Statement.shift k)).filter
        fun t => !Text.isAllBlank t.text).filterMap Statement.binding? =
      ((others.filter fun t => !Text.isAllBlank t.text).filterMap Statement.binding?).map
        (Binding.shift k) := by
    intro k
    rw [List.filter_map, List.filterMap_map, List.map_filterMap]
    exact List.filterMap_congr fun t _ => Statement.binding?_shift k t
  have hrun : ∀ c ∈ Ident.qualified library name, Reference.isRunChar c = true :=
    fun c => Reference.isRunChar_of_mem_qualified hl hn
  rw [bindings, statements, hdepth, hcode, hpieces _ hrun, List.filter_append, List.filter_cons,
    hvisible, List.filterMap_append]
  simp only [Bool.not_false, if_true, List.filterMap_cons, hopen, hothers,
    BindingsAround.bindings, BindingsAround.ofStatements]
  cases s.binding? <;> simp

open Replacement (ofTexts) in
/-- Renaming a member keeps the names that are bound, those bound as libraries among them, and those
that are used in their own bindings; and the remarks about bindings are made again. -/
theorem bindings_renamed {l l' : Line} {a b library name name' : Text}
    (ha : Text.Closes Reference.isRunChar a)
    (hl : Ident.isIdent library = true) (hn : Ident.isIdent name = true)
    (hn' : Ident.isIdent name' = true) (hdepth : l'.depth = l.depth)
    (hcode : l.code = a ++ (Ident.qualified library name ++ b))
    (hcode' : l'.code = a ++ (Ident.qualified library name' ++ b)) :
    (l'.bindings.filter Binding.isLibrary).map Binding.name =
      (l.bindings.filter Binding.isLibrary).map Binding.name ∧
    l'.recursiveNames = l.recursiveNames ∧
    (ofTexts a (Ident.qualified library name) (Ident.qualified library name')).Carries
      l.bindingRemarks l'.bindingRemarks := by
  obtain ⟨s, hs⟩ := exists_bindingsAround hl ha b l.depth
  have hbindings := hs l rfl name hn hcode
  have hbindings' := hs l' hdepth name' hn' hcode'
  refine ⟨?_, ?_, ?_⟩
  · rw [hbindings, hbindings']
    exact s.map_name_filter (fun _ _ => rfl) fun x _ =>
      x.isLibrary_extendBehind library name' name s.rest
  · rw [recursiveNames, recursiveNames, hbindings, hbindings']
    exact s.map_name_filter (fun _ _ => rfl) fun x hx =>
      Binding.isRecursive_extendBehind
        (s.isIdent x (List.mem_append_right _ (Option.mem_toList.2 hx))) library hn' hn s.rest
  · rw [bindingRemarks, bindingRemarks, hbindings, hbindings']
    exact s.carries_remarks hl hn hn'

end Line

end DspCheck
