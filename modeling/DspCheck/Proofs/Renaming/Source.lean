import DspCheck.Proofs.Source.Below
import DspCheck.Proofs.Source.Continuation
import DspCheck.Proofs.Source.Program

/-!
# Programs in which a function is renamed

A source text with another name at the place of a reference has the same program, but for that line
and for the offsets of the lines behind it (`Program.exists_renamed`): a name is a run of visible
characters, so another one in its place changes neither what is masked nor where lines end.
-/

namespace DspCheck

namespace Text

/-- The scanner that shows the first character of a run is in code. -/
theorem eq_code_of_mask {m : Mode} {c : Char} {t u : Text} (hc : Reference.isRunChar c = true)
    (h : mask m (c :: t) = c :: u) : m = .code := by
  have hquote : c ≠ '"' := by
    rintro rfl
    cases hc
  have hblank : c ≠ ' ' := by
    rintro rfl
    cases hc
  have hvisible : (m.step c t.head?).2 = true := by
    cases hstep : (m.step c t.head?).2 with
    | true =>
        rfl
    | false =>
        rw [mask_cons, hstep] at h
        obtain ⟨n, hn⟩ := Nat.exists_eq_succ_of_ne_zero (Nat.ne_of_gt c.utf8Size_pos)
        simp only [veil, Bool.false_eq_true, if_false, hn, List.replicate_succ] at h
        exact absurd (List.cons.inj h).1.symm hblank
  rcases Mode.cases_of_visible hvisible with ⟨-, hc⟩ | ⟨hm, -⟩
  · exact absurd hc hquote
  · exact hm

/-- A visible run stands in the text itself, and another run that starts alike in its place is
visible, too, and changes nothing else. -/
theorem exists_mask_renamed {m : Mode} {t a w b : Text} (hne : w ≠ [])
    (hw : ∀ c ∈ w, Reference.isRunChar c = true) (h : mask m t = a ++ (w ++ b)) :
    ∃ front rest, t = front ++ (w ++ rest) ∧ byteSize front = byteSize a ∧
      byteSize rest = byteSize b ∧
      ∀ w', (∀ c ∈ w', Reference.isRunChar c = true) → w'.head? = w.head? →
        mask m (front ++ (w' ++ rest)) = a ++ (w' ++ b) ∧
        m.after (front ++ (w' ++ rest)) = m.after t := by
  obtain ⟨c, u, rfl⟩ := List.exists_cons_of_ne_nil hne
  have hblank : ' ' ∉ c :: u := fun hmem => by cases hw ' ' hmem
  obtain ⟨front, rest, -, rfl, hfront, -⟩ :=
    exists_of_mask_eq (h.trans (List.append_assoc _ _ _).symm) hblank hne
  rw [List.append_assoc] at h ⊢
  obtain ⟨v, m', hv, happend⟩ := exists_mask_append m front (some c)
  obtain ⟨hmask, hafter⟩ := happend (c :: u ++ rest) rfl
  obtain ⟨rfl, hrun⟩ := append_inj_of_byteSize (hmask.symm.trans h) (hv.trans hfront)
  obtain rfl := eq_code_of_mask (hw c List.mem_cons_self) hrun
  rw [(Expression.masksAs_run hw rest).1] at hrun
  obtain rfl := List.append_cancel_left hrun
  refine ⟨front, rest, rfl, hfront, (byteSize_mask _ _).symm, fun w' hw' hhead => ?_⟩
  obtain ⟨hmask', hafter'⟩ := happend (w' ++ rest) (by
    cases w' with
    | nil =>
        cases hhead
    | cons d w' =>
        exact hhead)
  rw [hmask', hafter', hafter, (Expression.masksAs_run hw' rest).1,
    (Expression.masksAs_run hw' rest).2, (Expression.masksAs_run hw rest).2]
  exact ⟨rfl, rfl⟩

/-- The carriage return at the end of a line does not depend on what stands before it. -/
theorem dropReturn_append (s : Text) {t : Text} (ht : t ≠ []) :
    dropReturn (s ++ t) = s ++ dropReturn t := by
  unfold dropReturn
  rw [List.getLast?_append, List.getLast?_eq_some_getLast ht, Option.some_or,
    List.dropLast_append_of_ne_nil ht]
  split <;> rfl

theorem join_append (ts : List Text) {us : List Text} (hus : us ≠ []) :
    join "\n" (ts ++ us) = unlines ts ++ join "\n" us := by
  induction ts with
  | nil =>
      rfl
  | cons t ts ih =>
      obtain ⟨v, vs, hvs⟩ := List.exists_cons_of_ne_nil
        (List.append_ne_nil_of_right_ne_nil ts hus)
      rw [List.cons_append, hvs, join_cons_cons, ← hvs, ih]
      simp [unlines]

end Text

namespace Line

/-- A line behind as many bytes. -/
def shift (k : Nat) (l : Line) : Line :=
  { l with offset := k + l.offset }

/-- Lines that stand further behind differ in their offsets only. -/
theorem linesFrom_add (number k offset depth : Nat) (mode : Mode) (raws : List Text) :
    linesFrom number (k + offset) depth mode raws =
      (linesFrom number offset depth mode raws).map (shift k) := by
  have hshift : shift k = below 0 k := by
    funext l
    rw [shift, below, Nat.zero_add]
  rw [hshift, ← linesFrom_below, Nat.zero_add]

/-- A line ends before another one starts. -/
structure IsBefore (l l' : Line) : Prop where
  number : l.number < l'.number
  offset : l.offset + Text.byteSize l.text ≤ l'.offset

/-- The lines of a text stand behind each other. -/
theorem pairwise_linesFrom (number offset depth : Nat) (mode : Mode) (raws : List Text) :
    (linesFrom number offset depth mode raws).Pairwise IsBefore ∧
    ∀ l ∈ linesFrom number offset depth mode raws, number ≤ l.number ∧ offset ≤ l.offset := by
  induction raws generalizing number offset depth mode with
  | nil =>
      exact ⟨List.Pairwise.nil, fun l hl => absurd hl List.not_mem_nil⟩
  | cons raw raws ih =>
      obtain ⟨hpairwise, hbounds⟩ := ih (number + 1) (offset + Text.byteSize raw + 1)
        ((Text.mask mode (Text.dropReturn raw)).foldl depthAfter depth)
        (mode.after (Text.dropReturn raw)).nextLine
      have htext : Text.byteSize (Text.dropReturn raw) ≤ Text.byteSize raw := by
        have hsplit := congrArg Text.byteSize (Text.dropReturn_append_lineEnd raw)
        rw [Text.byteSize_append] at hsplit
        omega
      rw [linesFrom, List.pairwise_cons, List.forall_mem_cons]
      refine ⟨⟨fun l hl => ?_, hpairwise⟩, ⟨Nat.le_refl _, Nat.le_refl _⟩, fun l hl => ?_⟩
      · have hle := hbounds l hl
        constructor
        · exact hle.1
        · dsimp only
          omega
      · have hle := hbounds l hl
        omega

/-- The lines before a line do not depend on it and on what is behind it. -/
theorem exists_linesFrom_append {number offset depth : Nat} {mode : Mode} {raws : List Text}
    {ls ls' : List Line} {l : Line} (h : linesFrom number offset depth mode raws = ls ++ l :: ls') :
    ∃ before raw behind mode', raws = before ++ raw :: behind ∧
      l.offset = offset + Text.byteSize (Text.unlines before) ∧
      linesFrom l.number l.offset l.depth mode' (raw :: behind) = l :: ls' ∧
      ∀ raws', linesFrom number offset depth mode (before ++ raws') =
        ls ++ linesFrom l.number l.offset l.depth mode' raws' := by
  induction ls generalizing number offset depth mode raws with
  | nil =>
      cases raws with
      | nil =>
          cases h
      | cons raw raws =>
          obtain ⟨hl, -⟩ := List.cons.inj h
          subst hl
          exact ⟨[], raw, raws, mode, rfl, rfl, h, fun _ => rfl⟩
  | cons first ls ih =>
      cases raws with
      | nil =>
          cases h
      | cons raw₀ raws =>
          obtain ⟨hfirst, hrest⟩ := List.cons.inj h
          obtain ⟨before, raw, behind, mode', rfl, hoffset, hl, happend⟩ := ih hrest
          refine ⟨raw₀ :: before, raw, behind, mode', rfl, ?_, hl, fun raws' => ?_⟩
          · rw [hoffset, Text.byteSize_unlines_cons]
            omega
          · rw [List.cons_append, linesFrom, happend, hfirst]
            rfl

theorem foldl_depthAfter_run {w : Text} (h : ∀ c ∈ w, Reference.isRunChar c = true)
    (depth : Nat) : w.foldl depthAfter depth = depth := by
  refine foldl_depthAfter_of_forall (fun c hc => ?_) depth
  have hend := (Expression.inert_of_isRunChar (h c hc)).2.1
  simp only [Statement.isEnd, Bool.or_eq_false_iff, decide_eq_false_iff_not] at hend
  exact ⟨hend.1.2, hend.2⟩

/-- A line on which another run that starts alike stands in the place of a run, and the lines behind
it. -/
theorem exists_linesFrom_renamed {l : Line} {ls : List Line} {mode : Mode} {raw : Text}
    {raws : List Text} (hlines : linesFrom l.number l.offset l.depth mode (raw :: raws) = l :: ls)
    {a w b : Text} (hne : w ≠ []) (hw : ∀ c ∈ w, Reference.isRunChar c = true) (hb : b ≠ [])
    (hcode : l.code = a ++ (w ++ b)) :
    ∃ (front rest behind : Text) (qs : List Line), l.text = front ++ (w ++ rest) ∧
      Text.byteSize front = Text.byteSize a ∧ raw = front ++ (w ++ behind) ∧
      ∀ w', (∀ c ∈ w', Reference.isRunChar c = true) → w'.head? = w.head? →
        linesFrom l.number l.offset l.depth mode ((front ++ (w' ++ behind)) :: raws) =
          { l with text := front ++ (w' ++ rest), code := a ++ (w' ++ b) } ::
            qs.map (shift (l.offset + Text.byteSize front + Text.byteSize w')) := by
  obtain ⟨hl, hls⟩ := List.cons.inj hlines
  have htext : Text.dropReturn raw = l.text := congrArg Line.text hl
  have hmask : Text.mask mode l.text = l.code := by
    rw [← htext]
    exact congrArg Line.code hl
  obtain ⟨front, rest, hsplit, hfront, hrest, hrenamed⟩ :=
    Text.exists_mask_renamed hne hw (hmask.trans hcode)
  have hrestne : rest ≠ [] := by
    rintro rfl
    have hpos := Text.byteSize_pos hb
    rw [← hrest] at hpos
    cases hpos
  obtain ⟨behind, hbehind⟩ : ∃ behind, raw = front ++ (w ++ behind) ∧ behind ≠ [] ∧
      Text.dropReturn behind = rest := by
    have hraw : raw = front ++ (w ++ (rest ++ Text.lineEnd raw)) := by
      conv_lhs => rw [← Text.dropReturn_append_lineEnd raw, htext, hsplit]
      simp
    have hne' : rest ++ Text.lineEnd raw ≠ [] := by simp [hrestne]
    refine ⟨rest ++ Text.lineEnd raw, hraw, hne', ?_⟩
    rw [hraw, ← List.append_assoc, Text.dropReturn_append _ hne', List.append_assoc] at htext
    exact List.append_cancel_left (List.append_cancel_left (htext.trans hsplit))
  obtain ⟨hraw, hbehindne, hdrop⟩ := hbehind
  refine ⟨front, rest, behind, linesFrom (l.number + 1) (Text.byteSize behind + 1)
    (l.code.foldl depthAfter l.depth) (mode.after l.text).nextLine raws, hsplit, hfront, hraw,
    fun w' hw' hhead => ?_⟩
  obtain ⟨hmask', hafter'⟩ := hrenamed w' hw' hhead
  have hdrop' : Text.dropReturn (front ++ (w' ++ behind)) = front ++ (w' ++ rest) := by
    rw [← List.append_assoc, Text.dropReturn_append _ hbehindne, hdrop, List.append_assoc]
  have hdepth : (a ++ (w' ++ b)).foldl depthAfter l.depth = l.code.foldl depthAfter l.depth := by
    simp only [hcode, List.foldl_append, foldl_depthAfter_run hw, foldl_depthAfter_run hw']
  rw [linesFrom, hdrop', hmask', hafter', hdepth, ← linesFrom_add]
  simp only [Text.byteSize_append, Nat.add_assoc]

end Line

namespace ProgramLine

/-- A line with its references behind as many bytes. -/
def shift (k : Nat) (l : ProgramLine) : ProgramLine :=
  { l with toLine := l.toLine.shift k }

/-- A line with another text on it, between `front` and `rest` and between `a` and `b` in its code,
and with the references that are found then. -/
def withText (l : ProgramLine) (front rest a b new : Text) (references : List Reference) :
    ProgramLine where
  number := l.number
  offset := l.offset
  depth := l.depth
  text := front ++ (new ++ rest)
  code := a ++ (new ++ b)
  references

end ProgramLine

/-- A line of ASCII characters stays one when another member stands in the place of a reference. -/
theorem Reference.IsRun.isAscii_renamed {r : Reference} {t a b : Text} (h : r.IsRun t a b)
    (ht : ∀ c ∈ t, Text.isAscii c = true) {name : Text} (hn : Ident.isIdent name = true) :
    ∀ c ∈ a ++ (Ident.qualified r.library name ++ b), Text.isAscii c = true := by
  rw [h.split, List.forall_mem_append, List.forall_mem_append] at ht
  rw [List.forall_mem_append, List.forall_mem_append]
  exact ⟨ht.1, fun c hc => Reference.isAscii_of_isRunChar
    (Reference.isRunChar_of_mem_qualified h.library hn hc), ht.2.2⟩

namespace Program

/-- The lines of a program stand behind each other. -/
theorem pairwise_ofSource {source : Text} {p : Program} (hp : ofSource source = .ok p) :
    p.Pairwise fun l l' => l.IsBefore l'.toLine := by
  have hlines := (Line.pairwise_linesFrom 1 0 0 .code (Text.rawLines source)).1
  rw [show Line.linesFrom 1 0 0 .code (Text.rawLines source) = p.map ProgramLine.toLine from
    (map_toLine_of_ofSource hp).symm] at hlines
  exact List.pairwise_map.1 hlines

/-- The references on moved lines are the moved references. -/
theorem mapM_ofLine_shift (k : Nat) (ls : List Line) :
    (ls.map (Line.shift k)).mapM ProgramLine.ofLine =
      (ls.mapM ProgramLine.ofLine).map (List.map (ProgramLine.shift k)) :=
  mapM_ofLine_map (g := Line.shift k) (fun _ => rfl) ls

theorem exists_of_mapM_ofLine_shift {k : Nat} {ls : List Line} {p : Program}
    (h : (ls.map (Line.shift k)).mapM ProgramLine.ofLine = .ok p) :
    ∃ q, ls.mapM ProgramLine.ofLine = .ok q ∧ p = q.map (ProgramLine.shift k) := by
  rw [mapM_ofLine_shift] at h
  obtain ⟨q, hq, rfl⟩ := exists_of_map_eq_ok h
  exact ⟨q, hq, rfl⟩

/-- Another member of a library in the place of a reference that something follows. -/
theorem exists_renamed {source : Text} {before behind : Program} {l : ProgramLine}
    (hp : ofSource source = .ok (before ++ l :: behind)) {r : Reference} {a b : Text}
    (hrun : r.IsRun l.code a b) (hb : b ≠ []) :
    ∃ (left right front rest : Text) (qs : Program), source = left ++ (r.fullName ++ right) ∧
      Text.byteSize left = l.offset + Text.byteSize a ∧
      l.text = front ++ (r.fullName ++ rest) ∧ Text.byteSize front = Text.byteSize a ∧
      behind = qs.map (ProgramLine.shift (Text.byteSize left + Text.byteSize r.fullName)) ∧
      ∀ name', Ident.isIdent name' = true → ∃ references,
        Reference.scan (a ++ (Ident.qualified r.library name' ++ b)) = .ok references ∧
        ofSource (left ++ (Ident.qualified r.library name' ++ right)) =
          .ok (before ++
            l.withText front rest a b (Ident.qualified r.library name') references ::
            qs.map (ProgramLine.shift (Text.byteSize left +
              Text.byteSize (Ident.qualified r.library name')))) := by
  have hw : ∀ {name' : Text}, Ident.isIdent name' = true →
      ∀ c ∈ Ident.qualified r.library name', Reference.isRunChar c = true :=
    fun hn c => Reference.isRunChar_of_mem_qualified hrun.library hn
  have hne : r.fullName ≠ [] := by
    simp [Reference.fullName, Ident.qualified]
  obtain ⟨ls, line, ls', hlines, hl, hls', happend⟩ := exists_of_mapM_eq_append hp
  obtain ⟨rfl, hscan⟩ := ProgramLine.of_ofLine_eq_ok hl
  obtain ⟨raws, raw, raws', mode, hraws, hoffset, hline, hbehind⟩ :=
    Line.exists_linesFrom_append hlines
  obtain ⟨front, rest, right, qs, htext, hfront, rfl, hrenamed⟩ :=
    Line.exists_linesFrom_renamed hline hne (hw hrun.name) hb hrun.split
  -- the source text around the reference, from the lines around its line
  have hjoin : ∀ w : Text, Text.join "\n" (raws ++ (front ++ (w ++ right)) :: raws') =
      (Text.unlines raws ++ front) ++ (w ++ (right ++ raws'.flatMap (("\n" : Text) ++ ·))) := by
    intro w
    rw [Text.join_append raws (List.cons_ne_nil _ _), Text.join_cons]
    simp
  have hleft : Text.byteSize (Text.unlines raws ++ front) = l.offset + Text.byteSize front := by
    rw [Text.byteSize_append, hoffset, Nat.zero_add]
  have hold : ls' = qs.map (Line.shift (l.offset + Text.byteSize front +
      Text.byteSize r.fullName)) :=
    (List.cons.inj (hline.symm.trans (hrenamed r.fullName (hw hrun.name) rfl))).2
  rw [hold] at hls'
  obtain ⟨program, hprogram, hmoved⟩ := exists_of_mapM_ofLine_shift hls'
  refine ⟨Text.unlines raws ++ front, right ++ raws'.flatMap (("\n" : Text) ++ ·), front, rest,
    program, ?_, by rw [hleft, hfront], htext, hfront, ?_, fun name' hn' => ?_⟩
  · rw [← hjoin, ← hraws, Text.join_rawLines]
  · rw [hleft]
    exact hmoved
  · have hhead : (Ident.qualified r.library name').head? = r.fullName.head? := by
      obtain ⟨c, t, ht⟩ := List.exists_cons_of_ne_nil (Ident.ne_nil hrun.library)
      simp [Reference.fullName, Ident.qualified, ht]
    have hascii := hrun.isAscii_renamed (Reference.isAscii_of_scanFrom hscan) hn'
    have hbreaks : ∀ raw ∈ raws ++ (front ++ (Ident.qualified r.library name' ++ right)) :: raws',
        '\n' ∉ raw := by
      have hold : ∀ raw ∈ raws ++ (front ++ (r.fullName ++ right)) :: raws', '\n' ∉ raw :=
        fun raw h => Text.notMem_of_mem_rawLines (hraws ▸ h)
      rw [List.forall_mem_append, List.forall_mem_cons, List.mem_append, List.mem_append,
        not_or, not_or] at hold ⊢
      refine ⟨hold.1, ⟨hold.2.1.1, fun hmem => ?_, hold.2.1.2.2⟩, hold.2.2⟩
      cases hw hn' _ hmem
    obtain ⟨references, hreferences⟩ := Reference.exists_scanFrom_eq_ok hascii false 0
    refine ⟨references, hreferences, ?_⟩
    rw [ofSource, Line.ofSource, ← hjoin, Text.rawLines_join (by simp) hbreaks, hbehind,
      hrenamed _ (hw hn') hhead]
    refine happend _ _ (mapM_cons_of_ok ?_ ?_)
    · rw [ProgramLine.ofLine]
      show (Reference.scan _).map _ = _
      rw [Reference.scan, hreferences]
      rfl
    · rw [mapM_ofLine_shift, hprogram, hleft]
      rfl

end Program
end DspCheck
