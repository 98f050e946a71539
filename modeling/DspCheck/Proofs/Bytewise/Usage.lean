import DspCheck.Proofs.Bytewise.Line
import DspCheck.Proofs.Library.Signature
import DspCheck.Proofs.Text.Alone
import Mathlib.Data.List.DropRight

/-!
# Calls in usages by their bytes

The shape of a function is read off a line of usage on which its name stands alone.  The name is
looked for in rounds: each finds the leftmost occurrence from a byte on and looks at the bytes
around it.  If one of them belongs to an identifier, the next round starts behind the occurrence.
If not, a scan back over the qualifier finds where the call starts.

The names are identifiers.  So no occurrence is empty, and the rounds come to an end; and no
occurrence that stands alone starts inside one that does not, so none is passed over.

* `round?_append`: what one round does, wherever the rounds before it have come.
* `exists_ends_of_le`: what the rounds from a byte on come to, by induction on what is left of the
  line.  The invariant is that the name stands alone nowhere before the byte.
* `not_ends_nil`: for the empty name the rounds need not come to an end.

Main statement: `exists_ends_iff`.
-/

namespace DspCheck
namespace Bytewise

open Text (from? upTo? byteSize byteAt? byteIs isFreeBefore?)

/-! ## What stands around a byte -/

/-- Whether no character of a class stands at a byte; at the end of a text there is none. -/
def isFreeAt? (p : Char → Bool) (n : Nat) (t : Text) : Option Bool :=
  if n = byteSize t then some true else (byteAt? n t).map fun b => !byteIs p b

/-- Where the run of a class that ends before a byte starts. -/
def runStart? (p : Char → Bool) (t : Text) : Nat → Option Nat
  | 0 => some 0
  | n + 1 =>
      (isFreeBefore? p (n + 1) t).bind fun isFree =>
        if isFree then some (n + 1) else runStart? p t n

/-- Where the call of a name starts, given the byte at which the name does. -/
def callStart? (line : Text) (start : Nat) : Option Nat :=
  (isFreeBefore? (· = '.') start line).bind fun isFree =>
    if isFree then some start else runStart? Ident.isPart line (start - 1)

theorem isFreeAt?_append {p : Char → Bool} (hp : Text.IsAsciiClass p) (s t : Text) :
    isFreeAt? p (byteSize s) (s ++ t) = some (!t.head?.any p) := by
  cases t with
  | nil =>
      rw [List.append_nil, isFreeAt?, if_pos rfl]
      rfl
  | cons c t =>
      have hlt : byteSize s < byteSize (s ++ c :: t) := by
        rw [Text.byteSize_append]
        exact Nat.lt_add_of_pos_right (Text.byteSize_pos (List.cons_ne_nil c t))
      have hclass := Text.any_byteAt? hp s (c :: t)
      obtain ⟨b, hb⟩ : ∃ b, byteAt? (byteSize s) (s ++ c :: t) = some b := by
        rw [← Text.length_bytes (s ++ c :: t)] at hlt
        exact ⟨_, List.getElem?_eq_getElem hlt⟩
      rw [hb, Option.any_some] at hclass
      rw [isFreeAt?, if_neg hlt.ne, hb, Option.map_some, hclass]

/-- The scan back over a run stops at its first character. -/
theorem runStart?_append {p : Char → Bool} (hp : Text.IsAsciiClass p) (s t : Text) :
    runStart? p (s ++ t) (byteSize s) = some (byteSize (s.rdropWhile p)) := by
  induction s using List.reverseRecOn generalizing t with
  | nil =>
      rfl
  | append_singleton s c ih =>
      have hfree := Text.isFreeBefore?_append hp (s ++ [c]) t
      rw [List.getLast?_concat, Option.any_some] at hfree
      cases hc : p c with
      | true =>
          have hsize : byteSize (s ++ [c]) = byteSize s + 1 := by
            rw [Text.byteSize_append, Text.byteSize_cons, Text.byteSize_nil,
              Text.utf8Size_of_isAscii (hp c hc)]
          rw [hsize] at hfree
          rw [hsize, runStart?, hfree, Option.bind_some, hc, if_neg (by decide),
            List.append_assoc, ih, List.rdropWhile_concat_pos _ _ _ hc]
      | false =>
          obtain ⟨n, hn⟩ : ∃ n, byteSize (s ++ [c]) = n + 1 :=
            Nat.exists_eq_succ_of_ne_zero (Nat.ne_of_gt (Text.byteSize_pos (by simp)))
          rw [hn] at hfree
          rw [hn, runStart?, hfree, Option.bind_some, hc, if_pos (by decide),
            List.rdropWhile_concat_neg _ _ _ (by simp [hc]), hn]

/-! ## Where a call starts -/

/-- The part of a text before the call of a name, given the part before the name: a call starts at
the name or, behind a dot, at the run of letters, digits and underscores before the dot. -/
def StartsCall (beforeName before : Text) : Prop :=
  (before = beforeName ∧ beforeName.getLast? ≠ some '.') ∨
    ∃ run, beforeName = before ++ run ++ ['.'] ∧ (∀ c ∈ run, Ident.isPart c = true) ∧
      Text.isFree before.getLast? = true

theorem beforeCall_dot (s : Text) :
    Shape.beforeCall (s ++ ['.']) = s.rdropWhile Ident.isPart := by
  rw [Shape.beforeCall, List.reverse_append]
  rfl

theorem beforeCall_of_getLast? {s : Text} (h : s.getLast? ≠ some '.') :
    Shape.beforeCall s = s := by
  unfold Shape.beforeCall
  split
  · next r hr =>
      rw [← List.head?_reverse, hr] at h
      exact absurd rfl h
  · rfl

theorem startsCall_beforeCall (beforeName : Text) :
    StartsCall beforeName (Shape.beforeCall beforeName) := by
  by_cases hdot : beforeName.getLast? = some '.'
  · obtain ⟨s, rfl⟩ := List.getLast?_eq_some_iff.1 hdot
    rw [beforeCall_dot]
    refine Or.inr ⟨s.rtakeWhile Ident.isPart, ?_, fun _ => List.mem_rtakeWhile_imp, ?_⟩
    · rw [List.rdropWhile_append_rtakeWhile]
    · by_cases hnil : s.rdropWhile Ident.isPart = []
      · rw [hnil]
        rfl
      · have hlast := List.rdropWhile_last_not Ident.isPart s hnil
        rw [List.getLast?_eq_some_getLast hnil, Text.isFree, Option.any_some]
        simpa using hlast
  · exact Or.inl ⟨beforeCall_of_getLast? hdot, hdot⟩

theorem StartsCall.isStart {beforeName before : Text} (h : StartsCall beforeName before) :
    before <+: beforeName := by
  rcases h with ⟨rfl, -⟩ | ⟨run, rfl, -, -⟩
  · exact List.prefix_refl _
  · rw [List.append_assoc]
    exact List.prefix_append _ _

/-- The scan back over a qualifier stays on the line. -/
theorem callStart?_append (s t : Text) :
    callStart? (s ++ t) (byteSize s) = some (byteSize (Shape.beforeCall s)) := by
  have hclass : Text.IsAsciiClass (· = '.') := fun c hc => by
    rw [of_decide_eq_true hc]
    rfl
  rw [callStart?, Text.isFreeBefore?_append hclass, Option.bind_some]
  by_cases hdot : s.getLast? = some '.'
  · obtain ⟨s, rfl⟩ := List.getLast?_eq_some_iff.1 hdot
    have hsize : byteSize (s ++ ['.']) - 1 = byteSize s := by
      rw [Text.byteSize_append]
      rfl
    rw [beforeCall_dot, hdot, if_neg (by decide), hsize, List.append_assoc,
      runStart?_append isAsciiClass_isPart]
  · have hfree : (!s.getLast?.any (· = '.')) = true := by
      cases hlast : s.getLast? with
      | none =>
          rfl
      | some c =>
          rw [hlast] at hdot
          simpa using hdot
    rw [hfree, if_pos rfl, beforeCall_of_getLast? hdot]

/-! ## Rounds -/

/-- What a round of the search for a call comes to: its result, or the byte from which the next
round starts. -/
inductive Round
  | done (found? : Option (Nat × Nat))
  | goOn (position : Nat)
  deriving DecidableEq

/-- A round from a byte on.  What is found is where the call starts and where the name ends. -/
def round? (name line : Text) (position : Nat) : Option Round := do
  let rest ← from? position line
  match Text.breakAt? name rest with
  | none => some (.done none)
  | some (before, _) =>
      let start := position + byteSize before
      let stop := start + byteSize name
      let isFreeBefore ← isFreeBefore? Ident.isPart start line
      let isFreeBehind ← isFreeAt? Ident.isPart stop line
      if isFreeBefore && isFreeBehind then
        (callStart? line start).map fun callStart => .done (some (callStart, stop))
      else some (.goOn stop)

/-- The rounds from a byte on come to an end with a result, and none of them fails. -/
inductive Ends (name line : Text) : Nat → Option (Nat × Nat) → Prop
  | now {position : Nat} {found? : Option (Nat × Nat)}
      (h : round? name line position = some (.done found?)) : Ends name line position found?
  | later {position next : Nat} {found? : Option (Nat × Nat)}
      (h : round? name line position = some (.goOn next)) (rounds : Ends name line next found?) :
      Ends name line position found?

variable {name line : Text}

/-- The rounds come to one result at most. -/
theorem Ends.unique {position : Nat} {found? found?' : Option (Nat × Nat)}
    (h : Ends name line position found?) (h' : Ends name line position found?') :
    found? = found?' := by
  induction h with
  | now hround =>
      cases h' with
      | now hround' =>
          rw [hround] at hround'
          exact Round.done.inj (Option.some.inj hround')
      | later hround' _ =>
          rw [hround] at hround'
          cases hround'
  | later hround _ ih =>
      cases h' with
      | now hround' =>
          rw [hround] at hround'
          cases hround'
      | later hround' hrounds =>
          rw [hround] at hround'
          rw [← Round.goOn.inj (Option.some.inj hround')] at hrounds
          exact ih hrounds

/-- What is found where a name is between two parts of a line. -/
def callAt (name beforeName : Text) : Nat × Nat :=
  (byteSize (Shape.beforeCall beforeName), byteSize (beforeName ++ name))

/-- A round behind a part of a line finds the leftmost occurrence of the name behind it. -/
theorem round?_append (name a t : Text) :
    round? name (a ++ t) (byteSize a) =
      match Text.breakAt? name t with
      | none => some (.done none)
      | some (b, r) =>
          if Text.isFree (a ++ b).getLast? && Text.isFree r.head? then
            some (.done (some (callAt name (a ++ b))))
          else some (.goOn (byteSize (a ++ b ++ name))) := by
  unfold round?
  simp only [Option.bind_eq_bind, Text.from?_append, Option.bind_some]
  cases hbreak : Text.breakAt? name t with
  | none =>
      rfl
  | some parts =>
      obtain ⟨b, r⟩ := parts
      have hline : a ++ t = a ++ b ++ (name ++ r) := by
        rw [Text.append_of_breakAt? hbreak]
        simp only [List.append_assoc]
      have hstart := Text.byteSize_append a b
      have hstop := Text.byteSize_append (a ++ b) name
      have hbehind := isFreeAt?_append isAsciiClass_isPart (a ++ b ++ name) r
      rw [List.append_assoc _ name r] at hbehind
      simp only [← hstart, ← hstop, hline, Text.isFreeBefore?_append isAsciiClass_isPart, hbehind,
        callStart?_append, Option.bind_some, Option.map_some]
      rfl

/-- The rounds behind a part of a line come to the first place where the name stands alone, if it
stands alone nowhere before. -/
theorem exists_ends_of_le (hname : Ident.isIdent name = true) {a t : Text}
    (hpassed : ∀ b r, Text.StandsAlone name (a ++ t) b r → a.length ≤ b.length) :
    ∃ place?, Text.IsFirstAlone name [] (a ++ t) place? ∧
      Ends name (a ++ t) (byteSize a) (place?.map fun p => callAt name p.1) := by
  have hne := Ident.ne_nil hname
  -- on what is left of the line
  induction hn : t.length using Nat.strong_induction_on generalizing a t with
  | _ n ih =>
      have hround := round?_append name a t
      cases hbreak : Text.breakAt? name t with
      | none =>
          rw [hbreak] at hround
          refine ⟨none, fun b r h => ?_, Ends.now hround⟩
          obtain ⟨u, -, ht⟩ := Text.StandsAlone.exists_of_le (a := a) h (hpassed b r h)
          obtain ⟨_, _, hsome, -⟩ := Text.exists_breakAt? name u r
          rw [← ht, hbreak] at hsome
          cases hsome
      | some parts =>
          obtain ⟨b, r⟩ := parts
          rw [hbreak] at hround
          dsimp only at hround
          have hline : a ++ t = a ++ b ++ name ++ r := by
            rw [Text.append_of_breakAt? hbreak]
            simp only [List.append_assoc]
          have hleftmost : ∀ b' r', Text.StandsAlone name (a ++ t) b' r' →
              (a ++ b).length ≤ b'.length := by
            intro b' r' h
            obtain ⟨u, rfl, ht⟩ := h.exists_of_le (hpassed _ _ h)
            rw [List.length_append, List.length_append]
            exact Nat.add_le_add_left (Text.length_le_of_breakAt? hbreak ht) _
          split at hround
          · next hfree =>
              rw [Bool.and_eq_true] at hfree
              exact ⟨some (a ++ b, r), ⟨⟨hline, hfree.1, hfree.2⟩, hleftmost⟩, Ends.now hround⟩
          · next hfree =>
              have hbehind : ∀ b' r', Text.StandsAlone name (a ++ b ++ name ++ r) b' r' →
                  (a ++ b ++ name).length ≤ b'.length := by
                rw [← hline]
                exact fun b' r' h => h.behind_of_isIdent hname hline hfree (hleftmost b' r' h)
              have hshorter : r.length < n := by
                have hpos := List.length_pos_of_ne_nil hne
                rw [← hn, Text.append_of_breakAt? hbreak, List.length_append, List.length_append]
                omega
              obtain ⟨place?, hplace, hends⟩ := ih r.length hshorter hbehind rfl
              rw [← hline] at hplace hends
              exact ⟨place?, hplace, Ends.later hround hends⟩

/-- The rounds on a whole line come to the first place where the name stands alone. -/
theorem exists_ends (hname : Ident.isIdent name = true) (line : Text) :
    ∃ place?, Text.IsFirstAlone name [] line place? ∧
      Ends name line 0 (place?.map fun p => callAt name p.1) := by
  have hpassed : ∀ b r, Text.StandsAlone name ([] ++ line) b r → 0 ≤ b.length :=
    fun b _ _ => Nat.zero_le b.length
  exact exists_ends_of_le (a := []) hname hpassed

/-- A call of a name on a line, between two bytes: the name stands alone there for the first time.
The line can be cut at both bytes, and the shape is read off the parts before and behind them. -/
structure IsCall (name line : Text) (start stop : Nat) (b r before : Text) : Prop where
  alone : Text.StandsAlone name line b r
  first : ∀ b' r', Text.StandsAlone name line b' r' → b.length ≤ b'.length
  starts : StartsCall b before
  start_eq : start = byteSize before
  stop_eq : stop = byteSize (b ++ name)
  before_eq : upTo? start line = some before
  behind_eq : from? stop line = some r
  shape_eq : Shape.ofLine? name line =
    (Shape.argsAfter? r).map fun p =>
      ⟨p.1, Shape.placeholders before, max 1 (Shape.placeholders p.2)⟩

theorem isCall_callAt (hname : Ident.isIdent name = true) {b r : Text}
    (h : Text.IsFirstAlone name [] line (some (b, r))) :
    IsCall name line (callAt name b).1 (callAt name b).2 b r (Shape.beforeCall b) where
  alone := h.1
  first := h.2
  starts := startsCall_beforeCall b
  start_eq := rfl
  stop_eq := rfl
  before_eq := by
    obtain ⟨rest, hrest⟩ := (startsCall_beforeCall b).isStart
    have hline : line = Shape.beforeCall b ++ (rest ++ name ++ r) := by
      rw [← List.append_assoc, ← List.append_assoc, hrest]
      exact h.1.split
    rw [hline]
    exact Text.upTo?_append _ _
  behind_eq := by
    have hline : line = b ++ name ++ r := h.1.split
    rw [hline]
    exact Text.from?_append _ _
  shape_eq := by
    have hbreak := (Text.isFirstAlone_breakAtWord? (Ident.ne_nil hname) line).unique h
    simp only [Shape.ofLine?, hbreak, Option.bind_eq_bind, Option.bind_some]
    cases Shape.argsAfter? r <;> rfl

/-- A line on which the name does not stand alone shows no shape. -/
theorem ofLine?_eq_none (hname : Ident.isIdent name = true)
    (h : Text.IsFirstAlone name [] line none) : Shape.ofLine? name line = none := by
  have hbreak := (Text.isFirstAlone_breakAtWord? (Ident.ne_nil hname) line).unique h
  rw [Shape.ofLine?, hbreak]
  rfl

/-- The search for a call of an identifier comes to an end on every line, with one result.  It finds
a call if and only if the name stands alone on the line, and then the first one.  A line on which
the name occurs inside longer identifiers only does not count in a usage. -/
theorem exists_ends_iff (hname : Ident.isIdent name = true) (line : Text) :
    ∃ found?, (∀ found?', Ends name line 0 found?' ↔ found?' = found?) ∧
      (found?.isSome = true ↔ ∃ b r, Text.StandsAlone name line b r) ∧
      (∀ start stop, found? = some (start, stop) →
        ∃ b r before, IsCall name line start stop b r before) ∧
      (found? = none → ∀ front behind,
        Shape.ofUsage? name (front ++ line :: behind) = Shape.ofUsage? name (front ++ behind)) := by
  obtain ⟨place?, hplace, hends⟩ := exists_ends hname line
  refine ⟨place?.map fun p => callAt name p.1, fun found?' => ⟨?_, ?_⟩, ?_, ?_, ?_⟩
  · exact fun h => h.unique hends
  · rintro rfl
    exact hends
  · rw [Option.isSome_map]
    cases place? with
    | none =>
        constructor
        · intro h
          cases h
        · rintro ⟨b, r, halone⟩
          exact absurd halone (hplace b r)
    | some parts =>
        exact iff_of_true rfl ⟨parts.1, parts.2, hplace.1⟩
  · intro start stop hfound
    obtain ⟨⟨b, r⟩, rfl, hcall⟩ := Option.map_eq_some_iff.1 hfound
    obtain ⟨rfl, rfl⟩ := Prod.mk.inj hcall
    exact ⟨b, r, _, isCall_callAt hname hplace⟩
  · intro hfound front behind
    rw [Option.map_eq_none_iff] at hfound
    subst hfound
    rw [Shape.ofUsage?, Shape.ofUsage?, List.findSome?_append, List.findSome?_append,
      List.findSome?_cons, ofLine?_eq_none hname hplace]

/-- A usage with occurrences of a name that overlap inside a longer identifier, before a call. -/
def overlappingUsage : Text :=
  "_,xa_a_a : fi.a_a(x,y) : _,_"

theorem exists_isCall_overlappingUsage :
    Ident.isIdent "a_a" = true ∧ ∃ b r before, IsCall "a_a" overlappingUsage 11 17 b r before := by
  have hfirst : round? "a_a" overlappingUsage 0 = some (.goOn 6) := by decide
  have hends : Ends "a_a" overlappingUsage 0 (some (11, 17)) :=
    Ends.later hfirst (Ends.now (by decide))
  obtain ⟨found?, hunique, -, hcall, -⟩ := exists_ends_iff
    (show Ident.isIdent "a_a" = true by decide) overlappingUsage
  exact ⟨by decide, hcall 11 17 ((hunique _).1 hends).symm⟩

/-- For the empty name the search stays where it is if a letter, digit or underscore is there. -/
theorem not_ends_nil {c : Char} (hc : Ident.isPart c = true) (t : Text)
    (found? : Option (Nat × Nat)) : ¬ Ends [] (c :: t) 0 found? := by
  have hround : round? [] (c :: t) 0 = some (.goOn 0) := by
    have hbreak : Text.breakAt? [] (c :: t) = some ([], c :: t) := Text.breakAt?_start [] (c :: t)
    have h := round?_append [] [] (c :: t)
    rw [hbreak] at h
    refine h.trans ?_
    simp [Text.isFree, hc]
  intro h
  generalize hposition : 0 = position at h
  induction h with
  | now h =>
      rw [← hposition, hround] at h
      cases h
  | later h _ ih =>
      rw [← hposition, hround] at h
      exact ih (Round.goOn.inj (Option.some.inj h))

/-- Documented functions have identifiers as names.  So each search that is made while a library
file is read comes to an end. -/
theorem exists_ends_of_mem {source : Text} {b : DocBlock}
    (h : b ∈ (DocSection.ofSource source).filterMap DocSection.block?) (line : Text) :
    ∃ found?, Ends b.name line 0 found? := by
  obtain ⟨_, -, hends⟩ := exists_ends (DocBlock.isIdent_of_mem h) line
  exact ⟨_, hends⟩

end Bytewise
end DspCheck
