import DspCheck.Proofs.Source.Masking
import DspCheck.Proofs.Source.Program

/-!
# Blanking comments and strings

The *blanked* form of a program has its masked lines in place of its lines and keeps all ends of
lines.  Its lines are the masked lines of the program, at the same places and depths
(`ofSource_blank`), since masking a second time changes nothing.
-/

namespace DspCheck

namespace Line

/-- The line that is written as the masked form of a line. -/
def blanked (l : Line) : Line :=
  { l with text := l.code }

end Line

namespace Text

/-- A program with its masked lines in place of its lines. -/
def blank (source : Text) : Text :=
  join "\n" (List.zipWith (fun l raw => l.code ++ lineEnd raw) (Line.ofSource source)
    (rawLines source))

/-- The characters of a text that masking hides. -/
def hidden (m : Mode) : Text → Text
  | [] => []
  | c :: t =>
      if (m.step c t.head?).2 then hidden (m.step c t.head?).1 t
      else c :: hidden (m.step c t.head?).1 t

/-- The hidden characters of lines, from a given mode on. -/
def hiddenFrom (m : Mode) : List Text → Text
  | [] => []
  | raw :: raws =>
      hidden m (dropReturn raw) ++ hiddenFrom (m.after (dropReturn raw)).nextLine raws

/-- The characters of the comments and of the contents of the strings of a program. -/
def inertChars (source : Text) : Text :=
  hiddenFrom .code (rawLines source)

end Text

namespace Line

open Text

/-- The blanked forms of the parts between line feeds, from a given place on. -/
def blankedParts (number offset depth : Nat) (mode : Mode) (raws : List Text) : List Text :=
  List.zipWith (fun l raw => l.code ++ lineEnd raw) (linesFrom number offset depth mode raws) raws

theorem blankedParts_cons (number offset depth : Nat) (mode : Mode) (raw : Text)
    (raws : List Text) :
    blankedParts number offset depth mode (raw :: raws) =
      (mask mode (dropReturn raw) ++ lineEnd raw) ::
        blankedParts (number + 1) (offset + byteSize raw + 1)
          ((mask mode (dropReturn raw)).foldl depthAfter depth)
          (mode.after (dropReturn raw)).nextLine raws := rfl

theorem length_linesFrom (number offset depth : Nat) (mode : Mode) (raws : List Text) :
    (linesFrom number offset depth mode raws).length = raws.length := by
  induction raws generalizing number offset depth mode with
  | nil =>
      rfl
  | cons raw raws ih =>
      simp [linesFrom, ih]

theorem length_blankedParts (number offset depth : Nat) (mode : Mode) (raws : List Text) :
    (blankedParts number offset depth mode raws).length = raws.length := by
  simp [blankedParts, length_linesFrom]

theorem getLast?_dropReturn_of_lineEnd_nil {raw : Text} (h : lineEnd raw = []) :
    (dropReturn raw).getLast? ≠ some '\r' := by
  unfold lineEnd at h
  split at h
  · cases h
  · next hlast =>
      rwa [dropReturn_of_getLast? hlast]

/-- The blanked form of a line ends as the line does. -/
theorem dropReturn_blanked (m : Mode) (raw : Text) :
    dropReturn (mask m (dropReturn raw) ++ lineEnd raw) = mask m (dropReturn raw) := by
  rcases hend : lineEnd raw with _ | ⟨c, rest⟩
  · rw [List.append_nil]
    exact dropReturn_of_getLast? (getLast?_mask (getLast?_dropReturn_of_lineEnd_nil hend))
  · have hreturn : c = '\r' ∧ rest = [] := by
      unfold lineEnd at hend
      split at hend
      · simpa [eq_comm] using hend
      · cases hend
    obtain ⟨rfl, rfl⟩ := hreturn
    simp [dropReturn]

theorem byteSize_blanked (m : Mode) (raw : Text) :
    byteSize (mask m (dropReturn raw) ++ lineEnd raw) = byteSize raw := by
  rw [byteSize_append, byteSize_mask, ← byteSize_append, dropReturn_append_lineEnd]

/-- The lines of blanked parts are the blanked lines.  The scanner of the blanked parts starts each
line in code, where the first one is in the visible form of its mode. -/
theorem linesFrom_blankedParts (number offset depth : Nat) {mode : Mode} (raws : List Text)
    (hmode : mode.visible = .code) :
    linesFrom number offset depth .code (blankedParts number offset depth mode raws) =
      (linesFrom number offset depth mode raws).map blanked := by
  induction raws generalizing number offset depth mode with
  | nil =>
      rfl
  | cons raw raws ih =>
      have hmask : mask .code (mask mode (dropReturn raw)) = mask mode (dropReturn raw) := by
        rw [← hmode, mask_mask]
      have hnext : (Mode.code.after (mask mode (dropReturn raw))).nextLine = .code := by
        rw [← hmode, after_mask, Mode.nextLine_visible, hmode]
      rw [blankedParts_cons, linesFrom, dropReturn_blanked, byteSize_blanked, hmask, hnext,
        ih _ _ _ (Mode.visible_nextLine _)]
      rfl

theorem newline_notMem_blankedParts {number offset depth : Nat} {mode : Mode} {raws : List Text}
    (h : ∀ raw ∈ raws, '\n' ∉ raw) :
    ∀ part ∈ blankedParts number offset depth mode raws, '\n' ∉ part := by
  induction raws generalizing number offset depth mode with
  | nil =>
      intro part hpart
      cases hpart
  | cons raw raws ih =>
      rw [List.forall_mem_cons] at h
      rw [blankedParts_cons, List.forall_mem_cons]
      refine ⟨?_, ih h.2⟩
      rw [List.mem_append, not_or]
      refine ⟨newline_notMem_mask (notMem_dropReturn h.1), fun hmem => h.1 ?_⟩
      rw [← dropReturn_append_lineEnd raw]
      exact List.mem_append_right _ hmem

theorem map_byteSize_blankedParts (number offset depth : Nat) (mode : Mode)
    (raws : List Text) :
    (blankedParts number offset depth mode raws).map byteSize = raws.map byteSize := by
  induction raws generalizing number offset depth mode with
  | nil =>
      rfl
  | cons raw raws ih =>
      rw [blankedParts_cons, List.map_cons, List.map_cons, byteSize_blanked, ih]

end Line

namespace Text

theorem rawLines_blank (source : Text) :
    rawLines (blank source) = Line.blankedParts 1 0 0 .code (rawLines source) := by
  refine rawLines_join ?_ (Line.newline_notMem_blankedParts fun raw h => notMem_of_mem_rawLines h)
  intro hnil
  have hlength := Line.length_blankedParts 1 0 0 .code (rawLines source)
  rw [show Line.blankedParts 1 0 0 .code (rawLines source) = [] from hnil] at hlength
  exact rawLines_ne_nil source (List.length_eq_zero_iff.1 hlength.symm)

/-- Blanking keeps the number of bytes. -/
theorem byteSize_blank (source : Text) : byteSize (blank source) = byteSize source := by
  conv_rhs => rw [← join_rawLines source]
  exact byteSize_join "\n" (Line.map_byteSize_blankedParts 1 0 0 .code (rawLines source))

end Text

namespace Line

/-- The lines of a blanked program are the blanked lines of the program. -/
theorem ofSource_blank (source : Text) :
    ofSource (Text.blank source) = (ofSource source).map blanked := by
  rw [ofSource, Text.rawLines_blank]
  exact linesFrom_blankedParts 1 0 0 (Text.rawLines source) rfl

end Line

namespace Text

/-- A text whose hidden characters are ASCII has as many scalars before a byte as its masked
form. -/
theorem scalarsBefore_mask {m : Mode} {t : Text} (h : ∀ c ∈ hidden m t, isAscii c = true)
    (n : Nat) : scalarsBefore (mask m t) n = scalarsBefore t n := by
  induction t generalizing m n with
  | nil =>
      rfl
  | cons c t ih =>
      have hrest : ∀ d ∈ hidden (m.step c t.head?).1 t, isAscii d = true := by
        intro d hd
        apply h
        unfold hidden
        split
        · exact hd
        · exact List.mem_cons_of_mem c hd
      obtain ⟨d, hveil, hsize⟩ :
          ∃ d, veil (m.step c t.head?).2 c = [d] ∧ d.utf8Size = c.utf8Size := by
        cases hk : (m.step c t.head?).2 with
        | true =>
            exact ⟨c, rfl, rfl⟩
        | false =>
            have hc : c.utf8Size = 1 := by
              apply utf8Size_of_isAscii
              apply h
              simp [hidden, hk]
            refine ⟨' ', ?_, ?_⟩
            · simp [veil, hc]
            · rw [hc]
              rfl
      rw [mask_cons, hveil, List.singleton_append]
      rcases Nat.eq_zero_or_pos n with rfl | hn
      · rfl
      · rw [scalarsBefore_cons d _ hn, scalarsBefore_cons c _ hn, hsize, ih hrest]

end Text

namespace Line

open Text

/-- If the hidden characters of lines are ASCII, the blanked lines have the same columns. -/
theorem column_blanked_of_mem_linesFrom {number offset depth : Nat} {mode : Mode}
    {raws : List Text} (h : ∀ c ∈ hiddenFrom mode raws, isAscii c = true) {l : Line}
    (hl : l ∈ linesFrom number offset depth mode raws) (position : Nat) :
    l.blanked.column position = l.column position := by
  induction raws generalizing number offset depth mode with
  | nil =>
      cases hl
  | cons raw raws ih =>
      rw [hiddenFrom, List.forall_mem_append] at h
      rcases List.mem_cons.1 hl with rfl | hl
      · rw [column, column]
        exact congrArg (· + 1) (scalarsBefore_mask h.1 position)
      · exact ih h.2 hl

end Line
end DspCheck
