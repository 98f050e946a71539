import DspCheck.Phrase
import DspCheck.Proofs.Text.Lines
import DspCheck.Proofs.Text.Word
import Mathlib.Data.List.Induction

/-!
# What phrase rules match

A rule takes each fragment at its leftmost occurrence and never goes back.  Nothing is lost in this
way: behind the leftmost occurrence of a text stands all that stands behind any other one
(`Text.exists_breakAt?`), and fragments that can be placed in a text can be placed in a longer one
that ends with it (`ArePlaced.of_suffix`).

The separator `.*` does not overlap itself, so an alternative can be cut at it in one way only
(`isSplit_iff`).  Texts that differ in the case of their letters and in their runs of blanks only
have one folded form (`Alike.folded_eq`).

Main statement: `isMatch_iff_arePlaced`.
-/

namespace DspCheck
namespace Text

/-! ## Cutting at a separator -/

/-- The parts of a text between the occurrences of a separator: with the separator between them
they are the text, and none has the separator in it. -/
structure IsSplit (separator : Text) (parts : List Text) (t : Text) : Prop where
  ne_nil : parts ≠ []
  join : join separator parts = t
  free : ∀ p ∈ parts, ¬ separator <:+: p

/-- The separator of fragments. -/
def gapMark : Text :=
  ".*"

theorem pieces_gapMark (t : Text) : pieces gapMark ('.' :: '*' :: t) = [] :: pieces gapMark t := rfl

/-- A character at which no separator starts belongs to the first part. -/
theorem pieces_cons {c : Char} {t : Text} (h : c = '.' → t.head? ≠ some '*') :
    pieces gapMark (c :: t) = (pieces gapMark t).modifyHead (c :: ·) := by
  have hstart : startsWith gapMark (c :: t) = false := by
    by_cases hc : c = '.'
    · subst hc
      cases t with
      | nil =>
          rfl
      | cons d t =>
          have hd : '*' ≠ d := fun heq => h rfl (congrArg some heq.symm)
          simp [startsWith, gapMark, after?, hd]
    · simp [startsWith, gapMark, after?, Ne.symm hc]
  rw [pieces, piecesFrom, hstart]
  rfl

/-- A part without separators is cut off at the next separator. -/
theorem pieces_append {p : Text} (h : ¬ gapMark <:+: p) (t : Text) :
    pieces gapMark (p ++ (gapMark ++ t)) = p :: pieces gapMark t := by
  induction p with
  | nil =>
      exact pieces_gapMark t
  | cons c p ih =>
      have hrest := ih fun hp => h (hp.trans (List.suffix_cons c p).isInfix)
      rw [List.cons_append, pieces_cons, hrest]
      · rfl
      · rintro rfl hhead
        cases p with
        | nil =>
            cases hhead
        | cons d p =>
            obtain rfl : d = '*' := Option.some.inj hhead
            exact h (List.prefix_append gapMark p).isInfix

theorem pieces_of_free {p : Text} (h : ¬ gapMark <:+: p) : pieces gapMark p = [p] := by
  induction p with
  | nil =>
      rfl
  | cons c p ih =>
      have hrest := ih fun hp => h (hp.trans (List.suffix_cons c p).isInfix)
      rw [pieces_cons, hrest]
      · rfl
      · rintro rfl hhead
        obtain ⟨q, rfl⟩ := List.head?_eq_some_iff.1 hhead
        exact h (List.prefix_append gapMark q).isInfix

/-- A character at which no separator starts may be put before a text that is cut. -/
theorem IsSplit.cons {c : Char} {p t : Text} {ps : List Text} (h : IsSplit gapMark (p :: ps) t)
    (hc : c = '.' → t.head? ≠ some '*') : IsSplit gapMark ((c :: p) :: ps) (c :: t) := by
  obtain ⟨-, hjoin, hfree⟩ := h
  rw [List.forall_mem_cons] at hfree
  refine ⟨List.cons_ne_nil _ _, ?_, List.forall_mem_cons.2 ⟨?_, hfree.2⟩⟩
  · rw [join_cons, List.cons_append, ← join_cons, hjoin]
  · intro hinfix
    rcases List.infix_cons_iff.1 hinfix with hprefix | hinfix
    · obtain ⟨q, hq⟩ := hprefix
      obtain ⟨rfl, rfl⟩ := List.cons.inj hq
      refine hc rfl ?_
      rw [← hjoin, join_cons]
      rfl
    · exact hfree.1 hinfix

/-- Cutting a text at its separators cuts it. -/
theorem isSplit_pieces (t : Text) : IsSplit gapMark (pieces gapMark t) t := by
  have hnil : IsSplit gapMark [[]] [] :=
    ⟨List.cons_ne_nil _ _, rfl, by simp [gapMark]⟩
  have hcons : ∀ {c : Char} {t : Text}, (c = '.' → t.head? ≠ some '*') →
      IsSplit gapMark (pieces gapMark t) t →
        IsSplit gapMark (pieces gapMark (c :: t)) (c :: t) := by
    intro c t hc h
    rw [pieces_cons hc]
    cases hps : pieces gapMark t with
    | nil =>
        exact absurd hps h.ne_nil
    | cons p ps =>
        rw [hps] at h
        exact h.cons hc
  induction t using List.twoStepInduction with
  | nil =>
      exact hnil
  | singleton c =>
      exact hcons (fun _ h => by cases h) hnil
  | cons_cons c d t iht ihdt =>
      by_cases hmark : c = '.' ∧ d = '*'
      · obtain ⟨rfl, rfl⟩ := hmark
        rw [pieces_gapMark]
        refine ⟨List.cons_ne_nil _ _, ?_, List.forall_mem_cons.2 ⟨by simp [gapMark], iht.free⟩⟩
        obtain ⟨p, ps, hps⟩ := List.exists_cons_of_ne_nil iht.ne_nil
        rw [hps, join_cons_cons, ← hps, iht.join]
        rfl
      · exact hcons (fun hc hd => hmark ⟨hc, Option.some.inj hd⟩) (ihdt d)

/-- A text can be cut at its separators in one way only. -/
theorem isSplit_iff {parts : List Text} {t : Text} :
    IsSplit gapMark parts t ↔ parts = pieces gapMark t := by
  constructor
  · rintro ⟨hne, rfl, hfree⟩
    induction parts with
    | nil =>
        exact absurd rfl hne
    | cons p ps ih =>
        rw [List.forall_mem_cons] at hfree
        cases ps with
        | nil =>
            exact (pieces_of_free hfree.1).symm
        | cons q qs =>
            rw [join_cons_cons, List.append_assoc, pieces_append hfree.1,
              ← ih (List.cons_ne_nil q qs) hfree.2]
  · rintro rfl
    exact isSplit_pieces t

/-! ## Folded forms -/

/-- Two texts differ in the case of ASCII letters and in the kind and the length of their runs of
blanks only. -/
inductive Alike : Text → Text → Prop
  | nil : Alike [] []
  | visible {a b : Char} {s t : Text} (ha : isBlank a = false) (hb : isBlank b = false)
      (hcase : a.toLower = b.toLower) (h : Alike s t) : Alike (a :: s) (b :: t)
  | blanks {v w s t : Text} (hv : v ≠ []) (hw : w ≠ []) (hblank : ∀ c ∈ v ++ w, isBlank c = true)
      (h : Alike s t) : Alike (v ++ s) (w ++ t)

/-- Words without regard to the case of ASCII letters. -/
def foldedWords (pieces : List Text) : List Text :=
  (pieces.filter (· ≠ [])).map toLower

theorem folded_eq (t : Text) : folded t = join " " (foldedWords (t.splitOnP isBlank)) := rfl

theorem foldedWords_cons {p q : Text} {ps qs : List Text} (hfirst : toLower p = toLower q)
    (hothers : foldedWords ps = foldedWords qs) :
    foldedWords (p :: ps) = foldedWords (q :: qs) := by
  have hlength : p.length = q.length := by
    simpa [toLower] using congrArg List.length hfirst
  cases p with
  | nil =>
      obtain rfl := List.length_eq_zero_iff.1 hlength.symm
      exact hothers
  | cons a p =>
      obtain ⟨b, q, rfl⟩ := List.exists_cons_of_length_eq_add_one hlength.symm
      exact congrArg₂ List.cons hfirst hothers

theorem splitOnP_visible {c : Char} (hc : isBlank c = false) (t : Text) :
    (c :: t).splitOnP isBlank = (t.splitOnP isBlank).modifyHead (c :: ·) := by
  rw [List.splitOnP_cons_eq_if_modifyHead, hc]
  rfl

/-- A run of blanks ends a word and is otherwise of no account. -/
theorem exists_splitOnP_blanks {v : Text} (hv : v ≠ []) (hblank : ∀ c ∈ v, isBlank c = true)
    (t : Text) : ∃ ps, (v ++ t).splitOnP isBlank = [] :: ps ∧
      foldedWords ps = foldedWords (t.splitOnP isBlank) := by
  induction v with
  | nil =>
      exact absurd rfl hv
  | cons c v ih =>
      rw [List.forall_mem_cons] at hblank
      refine ⟨(v ++ t).splitOnP isBlank, ?_, ?_⟩
      · rw [List.cons_append, List.splitOnP_cons_eq_if_modifyHead, hblank.1]
        rfl
      · cases v with
        | nil =>
            rfl
        | cons d v =>
            obtain ⟨ps, hps, hwords⟩ := ih (List.cons_ne_nil d v) hblank.2
            rw [hps, ← hwords]
            rfl

/-- The words of texts that are alike are the same in the folded form.  The first ones may be parts
of words that have begun before, so they are compared apart. -/
theorem Alike.splitOnP {s t : Text} (h : Alike s t) :
    ∃ p ps q qs, s.splitOnP isBlank = p :: ps ∧ t.splitOnP isBlank = q :: qs ∧
      toLower p = toLower q ∧ foldedWords ps = foldedWords qs := by
  induction h with
  | nil =>
      exact ⟨[], [], [], [], rfl, rfl, rfl, rfl⟩
  | @visible a b s t ha hb hcase h ih =>
      obtain ⟨p, ps, q, qs, hs, ht, hfirst, hothers⟩ := ih
      refine ⟨a :: p, ps, b :: q, qs, ?_, ?_, ?_, hothers⟩
      · rw [splitOnP_visible ha, hs]
        rfl
      · rw [splitOnP_visible hb, ht]
        rfl
      · exact congrArg₂ List.cons hcase hfirst
  | blanks hv hw hblank h ih =>
      obtain ⟨p, ps, q, qs, hs, ht, hfirst, hothers⟩ := ih
      rw [List.forall_mem_append] at hblank
      obtain ⟨ps', hs', hps'⟩ := exists_splitOnP_blanks hv hblank.1 _
      obtain ⟨qs', ht', hqs'⟩ := exists_splitOnP_blanks hw hblank.2 _
      refine ⟨[], ps', [], qs', hs', ht', rfl, ?_⟩
      rw [hps', hqs', hs, ht]
      exact foldedWords_cons hfirst hothers

/-- Texts that are alike have one folded form. -/
theorem Alike.folded_eq {s t : Text} (h : Alike s t) : folded s = folded t := by
  obtain ⟨p, ps, q, qs, hs, ht, hfirst, hothers⟩ := h.splitOnP
  rw [Text.folded_eq, Text.folded_eq, hs, ht, foldedWords_cons hfirst hothers]

end Text

namespace PhraseRule

/-! ## Fragments in a text -/

/-- Fragments are placed in a text in order and without overlap: the text is the fragments with
other texts before, between and behind them. -/
def ArePlaced (fs : List Text) (t : Text) : Prop :=
  ∃ (gaps : List Text) (last : Text), gaps.length = fs.length ∧
    t = (List.zipWith (· ++ ·) gaps fs).flatten ++ last

theorem arePlaced_nil (t : Text) : ArePlaced [] t :=
  ⟨[], t, rfl, rfl⟩

theorem arePlaced_cons {f : Text} {fs : List Text} {t : Text} :
    ArePlaced (f :: fs) t ↔ ∃ u r, t = u ++ f ++ r ∧ ArePlaced fs r := by
  constructor
  · rintro ⟨gaps, last, hlength, rfl⟩
    obtain ⟨u, gaps, rfl⟩ := List.exists_cons_of_length_eq_add_one hlength
    refine ⟨u, (List.zipWith (· ++ ·) gaps fs).flatten ++ last, ?_, gaps, last,
      Nat.succ_inj.1 hlength, rfl⟩
    rw [List.zipWith_cons_cons, List.flatten_cons, List.append_assoc]
  · rintro ⟨u, r, rfl, gaps, last, hlength, rfl⟩
    refine ⟨u :: gaps, last, congrArg (· + 1) hlength, ?_⟩
    rw [List.zipWith_cons_cons, List.flatten_cons, ← List.append_assoc]

/-- Fragments that can be placed in a text can be placed in a longer one that ends with it. -/
theorem ArePlaced.of_suffix {fs : List Text} {r t : Text} (h : ArePlaced fs r) (hr : r <:+ t) :
    ArePlaced fs t := by
  obtain ⟨front, rfl⟩ := hr
  cases fs with
  | nil =>
      exact arePlaced_nil _
  | cons f fs =>
      obtain ⟨u, r, rfl, hfs⟩ := arePlaced_cons.1 h
      exact arePlaced_cons.2 ⟨front ++ u, r, by simp only [List.append_assoc], hfs⟩

/-- Taking each fragment at its leftmost occurrence finds a place for all of them if there is one:
whatever the others leave behind an occurrence is behind the leftmost one, too. -/
theorem occurInOrder_iff {fs : List Text} {t : Text} :
    occurInOrder fs t = true ↔ ArePlaced fs t := by
  induction fs generalizing t with
  | nil =>
      exact ⟨fun _ => arePlaced_nil t, fun _ => rfl⟩
  | cons f fs ih =>
      rw [arePlaced_cons]
      constructor
      · intro h
        rw [occurInOrder] at h
        split at h
        · cases h
        · next p hp =>
            exact ⟨p.1, p.2, Text.append_of_breakAt? hp, ih.1 h⟩
      · rintro ⟨u, r, rfl, hfs⟩
        obtain ⟨b, r', hbreak, hr⟩ := Text.exists_breakAt? f u r
        rw [occurInOrder, hbreak]
        exact ih.2 (hfs.of_suffix hr)

/-! ## Rules -/

/-- A rule matches a text if and only if one of its alternatives has fragments, and these can be
placed in the folded text.  Texts that are alike are matched alike. -/
theorem isMatch_iff_arePlaced (r : PhraseRule) (t : Text) :
    (r.isMatch t = true ↔ ∃ alternative ∈ r.source.splitOn '|', ∃ parts fs,
      Text.IsSplit ".*" parts alternative ∧ fs = (parts.map Text.folded).filter (· ≠ []) ∧
        fs ≠ [] ∧ ArePlaced fs (Text.folded t)) ∧
      ∀ t', Text.Alike t t' → r.isMatch t' = r.isMatch t := by
  refine ⟨?_, fun t' h => by rw [isMatch, isMatch, satisfiesAny, satisfiesAny, h.folded_eq]⟩
  rw [isMatch, satisfiesAny, List.any_eq_true]
  constructor
  · rintro ⟨fs, hfs, hplaced⟩
    obtain ⟨hmem, hne⟩ := List.mem_filter.1 hfs
    obtain ⟨alternative, halternative, rfl⟩ := List.mem_map.1 hmem
    exact ⟨alternative, halternative, _, _, Text.isSplit_pieces alternative, rfl,
      of_decide_eq_true hne, occurInOrder_iff.1 hplaced⟩
  · rintro ⟨alternative, halternative, parts, fs, hsplit, rfl, hne, hplaced⟩
    obtain rfl := Text.isSplit_iff.1 hsplit
    exact ⟨_, List.mem_filter.2 ⟨List.mem_map_of_mem halternative, decide_eq_true hne⟩,
      occurInOrder_iff.2 hplaced⟩

/-- The theorem at fragments that overlap in the text: the second one cannot be at its first
occurrence there, and the case and the blanks of the two texts differ. -/
theorem isMatch_iff_arePlaced_overlap :
    Text.Alike "abAbaB \tc" "ABABab c" ∧
      ArePlaced ["aba", "ab c"] (Text.folded "abAbaB \tc") ∧
      (⟨"z|aba.*AB  c"⟩ : PhraseRule).isMatch "ABABab c" = true := by
  have halike : Text.Alike "abAbaB \tc" "ABABab c" := by
    refine .visible rfl rfl rfl (.visible rfl rfl rfl (.visible rfl rfl rfl (.visible rfl rfl rfl
      (.visible rfl rfl rfl (.visible rfl rfl rfl ?_)))))
    exact .blanks (v := [' ', '\t']) (w := [' ']) (List.cons_ne_nil _ _) (List.cons_ne_nil _ _)
      (List.all_eq_true.1 rfl) (.visible rfl rfl rfl .nil)
  have hplaced : ArePlaced ["aba", "ab c"] (Text.folded "abAbaB \tc") :=
    ⟨["", "b"], "", rfl, by decide⟩
  refine ⟨halike, hplaced, ?_⟩
  obtain ⟨hmatch, hsame⟩ := isMatch_iff_arePlaced ⟨"z|aba.*AB  c"⟩ "abAbaB \tc"
  rw [hsame _ halike]
  exact hmatch.2 ⟨"aba.*AB  c", by decide, _, _, Text.isSplit_pieces _, rfl, by decide, hplaced⟩

end PhraseRule
end DspCheck
