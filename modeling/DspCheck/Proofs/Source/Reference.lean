import DspCheck.Proofs.Source.Identifier
import DspCheck.Proofs.Text.Place
import DspCheck.Source.Reference

/-!
# Where references stand

`Reference.Stands` says what the fields of a reference mean: its two names are identifiers, and its
full name, blanks and the text that follows are what stands at its positions.  All references that
the scanner finds in a masked line stand in it (`exists_stands_of_scan`).
-/

namespace DspCheck
namespace Reference

/-- A reference stands in a masked line behind `front`, with `blanks` before what follows it. -/
structure Stands (r : Reference) (code front blanks : Text) : Prop where
  split : code = front ++ r.fullName ++ blanks ++ r.follow
  library : Ident.isIdent r.library = true
  name : Ident.isIdent r.name = true
  start : r.start = Text.byteSize front
  stop : r.stop = r.start + Text.byteSize r.fullName
  followStart : r.followStart = r.stop + Text.byteSize blanks

theorem partsOf?_eq_some {run library name : Text} (h : partsOf? run = some (library, name)) :
    run = Ident.qualified library name ∧ Ident.isIdent library = true ∧
      Ident.isIdent name = true := by
  unfold partsOf? at h
  split at h
  · next library' name' hsplit =>
      split at h
      · next hident =>
          obtain ⟨rfl, rfl⟩ := Prod.mk.inj (Option.some.inj h)
          rw [Bool.and_eq_true] at hident
          have hjoin : ['.'].intercalate (run.splitOn '.') = run := List.intercalate_splitOn '.'
          rw [hsplit, List.intercalate_cons_cons, List.intercalate_singleton] at hjoin
          exact ⟨by rw [← hjoin, Ident.qualified]; simp, hident⟩
      · cases h
  · cases h

theorem stands_of_leading? {start : Nat} {t : Text} {r : Reference}
    (h : leading? start t = some r) (front : Text) (hfront : start = Text.byteSize front) :
    ∃ blanks, r.Stands (front ++ t) front blanks := by
  obtain ⟨parts, hparts, rfl⟩ := Option.map_eq_some_iff.1 h
  obtain ⟨hrun, hlibrary, hname⟩ := partsOf?_eq_some hparts
  refine ⟨(t.dropWhile isRunChar).takeWhile Text.isBlank, ?_, hlibrary, hname, hfront, ?_, rfl⟩
  · have htext : t = t.takeWhile isRunChar ++ t.dropWhile isRunChar :=
      List.takeWhile_append_dropWhile.symm
    have hrest : t.dropWhile isRunChar =
        (t.dropWhile isRunChar).takeWhile Text.isBlank ++
          Text.trimStart (t.dropWhile isRunChar) := by
      rw [Text.trimStart, List.takeWhile_append_dropWhile]
    conv_lhs => rw [htext, hrest, hrun]
    simp [fullName]
  · rw [hrun]
    rfl

/-- Every reference that the scanner finds stands behind what precedes the place where it
starts. -/
theorem exists_stands_of_scanFrom {inRun : Bool} {position : Nat} {t : Text}
    {rs : List Reference} (h : scanFrom inRun position t = .ok rs) {r : Reference} (hr : r ∈ rs)
    (before : Text) (hbefore : position = Text.byteSize before) :
    ∃ front blanks, r.Stands (before ++ t) (before ++ front) blanks := by
  induction t generalizing inRun position rs before with
  | nil =>
      cases h
      cases hr
  | cons c t ih =>
      unfold scanFrom at h
      split at h
      · cases h
      · dsimp only at h
        cases hrest : scanFrom (isRunChar c) (position + c.utf8Size) t with
        | error e =>
            rw [hrest] at h
            cases h
        | ok rest =>
            rw [hrest] at h
            obtain rfl := Except.ok.inj h
            rcases List.mem_append.1 hr with hr | hr
            · split at hr
              · rw [Option.mem_toList] at hr
                obtain ⟨blanks, hstands⟩ := stands_of_leading? hr before hbefore
                exact ⟨[], blanks, by rwa [List.append_nil]⟩
              · cases hr
            · obtain ⟨front, blanks, hstands⟩ := ih hrest hr (before ++ [c]) (by simp [hbefore])
              rw [List.append_assoc, List.append_assoc] at hstands
              exact ⟨[c] ++ front, blanks, hstands⟩

/-- Every reference that the scanner finds stands in the masked line. -/
theorem exists_stands_of_scan {code : Text} {rs : List Reference} (h : scan code = .ok rs)
    {r : Reference} (hr : r ∈ rs) : ∃ front blanks, r.Stands code front blanks :=
  exists_stands_of_scanFrom h hr [] rfl

/-- The scanner stops at nothing but characters outside ASCII. -/
theorem exists_scanFrom_eq_ok {t : Text} (h : ∀ c ∈ t, Text.isAscii c = true) (inRun : Bool)
    (position : Nat) : ∃ rs, scanFrom inRun position t = .ok rs := by
  induction t generalizing inRun position with
  | nil =>
      exact ⟨[], rfl⟩
  | cons c t ih =>
      rw [List.forall_mem_cons] at h
      obtain ⟨rs, hrs⟩ := ih h.2 (isRunChar c) (position + c.utf8Size)
      rw [scanFrom, h.1, hrs]
      exact ⟨_, rfl⟩

/-! ## Scanning what has been written -/

theorem isAscii_of_isRunChar {c : Char} (h : isRunChar c = true) : Text.isAscii c = true := by
  rw [isRunChar, Bool.or_eq_true, decide_eq_true_eq] at h
  rcases h with h | rfl
  · exact Ident.isAscii_of_isPart h
  · decide

/-- The scanner passes characters outside runs. -/
theorem scanFrom_glue {t : Text} (h : ∀ c ∈ t, Text.isAscii c = true ∧ isRunChar c = false)
    (position : Nat) (rest : Text) :
    scanFrom false position (t ++ rest) = scanFrom false (position + Text.byteSize t) rest := by
  induction t generalizing position with
  | nil =>
      rfl
  | cons c t ih =>
      rw [List.forall_mem_cons] at h
      have hrest := ih h.2 (position + c.utf8Size)
      rw [List.cons_append, scanFrom, h.1.1, h.1.2]
      simp only [Bool.not_true, Bool.false_eq_true, if_false, Bool.false_and, List.nil_append]
      rw [hrest, Text.byteSize_cons, Nat.add_assoc]
      cases scanFrom false (position + (c.utf8Size + Text.byteSize t)) rest with
      | error e =>
          rfl
      | ok rs =>
          rfl

/-- Inside a run the scanner finds nothing until the run ends. -/
theorem scanFrom_inRun {w rest : Text} (h : ∀ c ∈ w, isRunChar c = true)
    (hrest : Text.EndsAt isRunChar rest) (position : Nat) :
    scanFrom true position (w ++ rest) = scanFrom false (position + Text.byteSize w) rest := by
  induction w generalizing position with
  | nil =>
      cases rest with
      | nil =>
          rfl
      | cons c rest =>
          have hc := hrest c rfl
          simp [scanFrom, hc]
  | cons c w ih =>
      rw [List.forall_mem_cons] at h
      have hafter := ih h.2 (position + c.utf8Size)
      rw [List.cons_append, scanFrom, isAscii_of_isRunChar h.1, h.1]
      simp only [Bool.not_true, Bool.false_eq_true, if_false, Bool.and_false, List.nil_append]
      rw [hafter, Text.byteSize_cons, Nat.add_assoc]
      cases scanFrom false (position + (c.utf8Size + Text.byteSize w)) rest with
      | error e =>
          rfl
      | ok rs =>
          rfl

/-- At the start of a run the scanner finds the reference that the run is. -/
theorem scanFrom_word {w rest : Text} (hne : w ≠ []) (h : ∀ c ∈ w, isRunChar c = true)
    (hrest : Text.EndsAt isRunChar rest) (position : Nat) :
    scanFrom false position (w ++ rest) =
      (scanFrom false (position + Text.byteSize w) rest).map
        ((leading? position (w ++ rest)).toList ++ ·) := by
  cases w with
  | nil =>
      exact absurd rfl hne
  | cons c w =>
      rw [List.forall_mem_cons] at h
      have hafter := scanFrom_inRun h.2 hrest (position + c.utf8Size)
      rw [List.cons_append, scanFrom, isAscii_of_isRunChar h.1, h.1]
      simp only [Bool.not_true, Bool.false_eq_true, if_false, Bool.not_false, Bool.and_true,
        if_true]
      rw [hafter, Text.byteSize_cons, Nat.add_assoc]

theorem leading?_append {w rest : Text} (h : ∀ c ∈ w, isRunChar c = true)
    (hrest : Text.EndsAt isRunChar rest) (position : Nat) :
    leading? position (w ++ rest) = (partsOf? w).map fun parts =>
      { library := parts.1
        name := parts.2
        start := position
        stop := position + Text.byteSize w
        follow := Text.trimStart rest
        followStart :=
          position + Text.byteSize w + Text.byteSize (rest.takeWhile Text.isBlank) } := by
  rw [leading?, Text.takeWhile_run h hrest, Text.dropWhile_run h hrest]

theorem partsOf?_qualified {library name : Text} (hl : Ident.isIdent library = true)
    (hn : Ident.isIdent name = true) :
    partsOf? (Ident.qualified library name) = some (library, name) := by
  have hsplit : (Ident.qualified library name).splitOn '.' = [library, name] := by
    have hjoin : (['.'].intercalate [library, name]).splitOn '.' = [library, name] :=
      List.splitOn_intercalate '.' (by simp [Ident.dot_notMem hl, Ident.dot_notMem hn])
        (List.cons_ne_nil _ _)
    rw [List.intercalate_cons_cons, List.intercalate_singleton, List.append_assoc] at hjoin
    exact hjoin
  rw [partsOf?, hsplit]
  simp [hl, hn]

theorem partsOf?_of_notMem {w : Text} (h : '.' ∉ w) : partsOf? w = none := by
  have hsplit : w.splitOn '.' = [w] := by
    have hjoin : (['.'].intercalate [w]).splitOn '.' = [w] :=
      List.splitOn_intercalate '.' (by simpa using h) (List.cons_ne_nil _ _)
    rwa [List.intercalate_singleton] at hjoin
  rw [partsOf?, hsplit]

/-- The scanner passes a run without dots. -/
theorem scanFrom_of_notMem {w rest : Text} (hne : w ≠ []) (h : ∀ c ∈ w, isRunChar c = true)
    (hdot : '.' ∉ w) (hrest : Text.EndsAt isRunChar rest) (position : Nat) :
    scanFrom false position (w ++ rest) = scanFrom false (position + Text.byteSize w) rest := by
  rw [scanFrom_word hne h hrest, leading?_append h hrest, partsOf?_of_notMem hdot, Option.map_none]
  exact congrFun Except.map_id _

/-- A run that starts with a digit is no reference. -/
theorem partsOf?_of_isDigit {c : Char} {w : Text} (hc : c.isDigit = true) :
    partsOf? (c :: w) = none := by
  cases hparts : partsOf? (c :: w) with
  | none =>
      rfl
  | some parts =>
      obtain ⟨hrun, hlibrary, -⟩ := partsOf?_eq_some hparts
      obtain ⟨d, r, hd, hstart, -⟩ := Ident.isIdent_iff.1 hlibrary
      rw [hd, Ident.qualified, List.cons_append, List.cons.injEq] at hrun
      obtain ⟨rfl, -⟩ := hrun
      exact absurd hstart (Ident.not_isStart_of_isDigit hc)

/-- There are no references without dots. -/
theorem scanFrom_eq_nil {t : Text} (h : ∀ c ∈ t, Text.isAscii c = true) (hdot : '.' ∉ t)
    (inRun : Bool) (position : Nat) : scanFrom inRun position t = .ok [] := by
  induction t generalizing inRun position with
  | nil =>
      rfl
  | cons c t ih =>
      rw [List.forall_mem_cons] at h
      have hrun : leading? position (c :: t) = none := by
        rw [leading?, partsOf?_of_notMem fun hmem => hdot ((List.takeWhile_prefix _).subset hmem)]
        rfl
      have hrest := ih h.2 (fun hmem => hdot (List.mem_cons_of_mem c hmem)) (isRunChar c)
        (position + c.utf8Size)
      rw [scanFrom, h.1, hrun, hrest]
      simp [Except.map]

end Reference
end DspCheck
