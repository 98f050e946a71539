import DspCheck.Proofs.Bytewise.Reference

/-!
# References are runs

A *run* of a masked line is a longest part of it that consists of letters, digits, underscores and
dots (`IsRun`).  The references in a line are its runs of two identifiers with a dot between them,
in order.  All other runs are numbers, plain identifiers or chains, or they have a dot at a wrong
place, and the search passes them wherever it resumes in them.

Main statement: `mentions?_runs`.
-/

namespace DspCheck

/-- What holds of every item of a list and those behind it holds of the list pairwise. -/
theorem pairwise_of_forall_split {α : Type} {R : α → α → Prop} {as : List α}
    (h : ∀ front a back, as = front ++ a :: back → ∀ b ∈ back, R a b) : as.Pairwise R := by
  induction as with
  | nil =>
      exact List.Pairwise.nil
  | cons a as ih =>
      refine List.pairwise_cons.2 ⟨h [] a as rfl, ih fun front b back hsplit => ?_⟩
      exact h (a :: front) b back (congrArg (a :: ·) hsplit)

namespace Reference

/-- Something separates a reference from the run before it. -/
theorem start_pos_of_scan {code : Text} (hcode : Text.EndsAt isRunChar code) {rs : List Reference}
    (h : scan code = .ok rs) {r : Reference} (hr : r ∈ rs) : 0 < r.start := by
  obtain ⟨front, back, rfl⟩ := List.append_of_mem hr
  obtain ⟨a, b, -, -, hrun, -, -, -, hstart, -⟩ := exists_standing_of_scan h
  rw [hstart]
  refine Text.byteSize_pos fun hnil => ?_
  obtain ⟨c, w, hc⟩ : ∃ c w, r.fullName = c :: w :=
    List.exists_cons_of_ne_nil (by simp [fullName, Ident.qualified])
  have hfirst : isRunChar c = true :=
    isRunChar_of_mem_qualified hrun.library hrun.name
      (show c ∈ r.fullName from hc ▸ List.mem_cons_self)
  rw [hcode c (by rw [hrun.split, hnil, hc]; rfl)] at hfirst
  cases hfirst

/-- References are found from left to right, and something separates them. -/
theorem pairwise_of_scan {code : Text} {rs : List Reference} (h : scan code = .ok rs) :
    rs.Pairwise (fun r r' => r.stop < r'.start) := by
  refine pairwise_of_forall_split fun front r back hsplit r' hr' => ?_
  subst hsplit
  obtain ⟨a, b, -, ss', hrun, -, hss', -, hstanding, rfl⟩ := exists_standing_of_scan h
  obtain ⟨s, hs, rfl⟩ := List.mem_map.1 hr'
  have hpos := start_pos_of_scan hrun.behind hss' hs
  rw [hstanding]
  exact Nat.lt_add_of_pos_right hpos

/-- The references of a line are those of its runs. -/
theorem mem_scan_iff {code : Text} {rs : List Reference} (h : scan code = .ok rs) {r : Reference} :
    r ∈ rs ↔ ∃ a b, r.IsRun code a b ∧ r = standing (Text.byteSize a) r.library r.name b := by
  constructor
  · intro hr
    obtain ⟨front, back, rfl⟩ := List.append_of_mem hr
    obtain ⟨a, b, -, -, hrun, -, -, -, hstanding, -⟩ := exists_standing_of_scan h
    exact ⟨a, b, hrun, hstanding⟩
  · rintro ⟨a, b, ⟨rfl, ha, hb, hl, hn⟩, hstanding⟩
    have hascii := isAscii_of_scanFrom h
    rw [List.forall_mem_append, List.forall_mem_append] at hascii
    obtain ⟨rs', hrs'⟩ := exists_scanFrom_eq_ok hascii.1 false 0
    obtain ⟨ss', hss'⟩ := exists_scanFrom_eq_ok hascii.2.2 false 0
    rw [fullName, scan_append ha hb hl hn hrs' hss', Except.ok.injEq] at h
    rw [← h, hstanding]
    exact List.mem_append_right _ List.mem_cons_self

end Reference

namespace Bytewise

open Text (byteSize trimStart isBlank)

/-- A longest part of a masked line that consists of letters, digits, underscores and dots. -/
structure IsRun (code front run behind : Text) : Prop where
  split : code = front ++ (run ++ behind)
  ne_nil : run ≠ []
  all : ∀ c ∈ run, Reference.isRunChar c = true
  front : Text.Closes Reference.isRunChar front
  behind : Text.EndsAt Reference.isRunChar behind

/-- The references in a masked line of ASCII characters are its runs of two identifiers with a dot
between them, from left to right.  A reference is called if the first character behind it that is no
blank is an opening parenthesis. -/
theorem mentions?_runs {code : Text} (hcode : ∀ c ∈ code, Text.isAscii c = true) :
    ∃ ms, mentions? code = some ms ∧
      (Reference.scan code).map (List.map Mention.ofReference) = .ok ms ∧
      ms.Pairwise (fun m m' => m.stop < m'.start) ∧
      ∀ m, m ∈ ms ↔ ∃ front library name behind,
        IsRun code front (Ident.qualified library name) behind ∧
        Ident.isIdent library = true ∧ Ident.isIdent name = true ∧
        m = {
          library
          name
          start := byteSize front
          stop := byteSize (front ++ Ident.qualified library name)
          callStart? :=
            if (trimStart behind).head? = some '(' then
              some (byteSize (front ++ Ident.qualified library name ++ behind.takeWhile isBlank))
            else none } := by
  obtain ⟨rs, hrs⟩ : ∃ rs, Reference.scan code = .ok rs :=
    Reference.exists_scanFrom_eq_ok hcode false 0
  have hmention : ∀ a library name b, Mention.ofReference
      (Reference.standing (byteSize a) library name b) = {
        library
        name
        start := byteSize a
        stop := byteSize (a ++ Ident.qualified library name)
        callStart? :=
          if (trimStart b).head? = some '(' then
            some (byteSize (a ++ Ident.qualified library name ++ b.takeWhile isBlank))
          else none } := by
    intro a library name b
    simp [Mention.ofReference, Reference.standing, Reference.isCall, Nat.add_assoc]
  refine ⟨rs.map Mention.ofReference, ?_, by rw [hrs]; rfl, ?_, fun m => ?_⟩
  · rw [mentions?_eq, hrs]
    rfl
  · exact List.pairwise_map.2 (Reference.pairwise_of_scan hrs)
  · rw [List.mem_map]
    constructor
    · rintro ⟨r, hr, rfl⟩
      obtain ⟨a, b, ⟨hsplit, ha, hb, hl, hn⟩, hstanding⟩ := (Reference.mem_scan_iff hrs).1 hr
      refine ⟨a, r.library, r.name, b, ⟨hsplit, by simp [Ident.qualified],
        fun c => Reference.isRunChar_of_mem_qualified hl hn, ha, hb⟩, hl, hn, ?_⟩
      rw [hstanding]
      exact hmention a r.library r.name b
    · rintro ⟨a, library, name, b, hrun, hl, hn, rfl⟩
      exact ⟨.standing (byteSize a) library name b, (Reference.mem_scan_iff hrs).2
        ⟨a, b, ⟨hrun.split, hrun.front, hrun.behind, hl, hn⟩, rfl⟩, hmention a library name b⟩

/-- The theorem at a line with a chain, a number and a dot too many before a call. -/
theorem mentions?_runs_oscillator :
    (∀ c ∈ ("a.b.c(.5..x)+1.5*os.osc (440)".toList : Text), Text.isAscii c = true) ∧
      ∃ ms, mentions? "a.b.c(.5..x)+1.5*os.osc (440)" = some ms ∧
        ⟨"os", "osc", 17, 23, some 24⟩ ∈ ms := by
  have hcode : ∀ c ∈ ("a.b.c(.5..x)+1.5*os.osc (440)".toList : Text), Text.isAscii c = true :=
    List.all_eq_true.1 rfl
  obtain ⟨ms, hms, -, -, hmem⟩ := mentions?_runs hcode
  exact ⟨hcode, ms, hms, (hmem _).2 ⟨"a.b.c(.5..x)+1.5*", "os", "osc", " (440)",
    ⟨rfl, by decide, List.all_eq_true.1 rfl, fun c hc => by cases hc; rfl,
      fun c hc => by cases hc; rfl⟩,
    rfl, rfl, rfl⟩⟩

end Bytewise
end DspCheck
