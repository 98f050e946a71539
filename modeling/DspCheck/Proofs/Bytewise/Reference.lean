import DspCheck.Proofs.Bytewise.Line

/-!
# References by their bytes

The search for references jumps: over an identifier, over a reference and over a chain with more
than one dot.  It looks at the byte before a position to know whether a run goes on there, and it
cuts the masked line where none does.

A jump never passes a character that belongs to no run.  So the search comes to every character
outside ASCII, and it fails at its second byte (`mentionsFrom?_foreign`).  All other cuts are at
the ends of identifiers, dots and blanks.

Main statement: `mentions?_eq`.
-/

namespace DspCheck
namespace Bytewise

open Text (minus? upTo? from? slice? byteSize byteAt? byteIs isFreeBefore?)

/-- A reference, and where the parenthesis of its call is. -/
structure Mention where
  library : Text
  name : Text
  start : Nat
  stop : Nat
  callStart? : Option Nat

namespace Mention

/-- A reference as it is found by bytes. -/
def ofReference (r : Reference) : Mention where
  library := r.library
  name := r.name
  start := r.start
  stop := r.stop
  callStart? := if r.isCall then some r.followStart else none

end Mention

/-- Whether a character of ASCII stands at a byte. -/
def isCharAt (d : Char) (code : Text) (n : Nat) : Bool :=
  (byteAt? n code).any (byteIs (· = d))

/-- The reference to a member of a library between two bytes, of which the dot is at another one. -/
def mention? (code : Text) (start dot stop : Nat) : Option Mention := do
  let behind ← from? stop code
  let blanks ← minus? (byteSize behind) (byteSize (Text.trimStart behind))
  let library ← slice? start dot code
  let name ← slice? (dot + 1) stop code
  some {
    library
    name
    start
    stop
    callStart? :=
      if isCharAt '(' code (stop + blanks) then some (stop + blanks) else none }

/-- The number of bytes of the identifier that starts at a byte, unless the byte is inside a run. -/
def librarySize? (code : Text) (index : Nat) : Option Nat :=
  (isFreeBefore? Reference.isRunChar index code).bind fun isFree =>
    if isFree then (from? index code).map identSize else some 0

/-- The number of bytes of the identifier behind the dot at a byte. -/
def memberSize? (code : Text) (dot : Nat) : Option Nat :=
  if isCharAt '.' code dot then (from? (dot + 1) code).map identSize else some 0

/-- The number of bytes of the run that goes on at a byte. -/
def chainSize (code : Text) (index : Nat) : Nat :=
  (((Text.bytes code).drop index).takeWhile (byteIs Reference.isRunChar)).length

/-- One step of the search for references: what is found at a byte, and where the search goes on.
A chain with more than one dot is passed as a whole. -/
def step? (code : Text) (index : Nat) : Option (Option Mention × Nat) := do
  let size ← librarySize? code index
  if size = 0 then some (none, index + 1)
  else
    let dot := index + size
    let size' ← memberSize? code dot
    if size' = 0 then some (none, dot)
    else
      let stop := dot + 1 + size'
      if isCharAt '.' code stop then some (none, stop + 1 + chainSize code (stop + 1))
      else (mention? code index dot stop).map fun m => (some m, stop)

/-- The search goes on. -/
theorem lt_of_step? {code : Text} {index next : Nat} {found? : Option Mention}
    (h : step? code index = some (found?, next)) : index < next := by
  unfold step? at h
  simp only [Option.bind_eq_bind, Option.bind_eq_some_iff] at h
  obtain ⟨size, -, h⟩ := h
  split at h
  · obtain ⟨-, rfl⟩ := Prod.mk.inj (Option.some.inj h)
    exact Nat.lt_succ_self index
  · simp only [Option.bind_eq_some_iff] at h
    obtain ⟨size', -, h⟩ := h
    split at h
    · obtain ⟨-, rfl⟩ := Prod.mk.inj (Option.some.inj h)
      omega
    · split at h
      · obtain ⟨-, rfl⟩ := Prod.mk.inj (Option.some.inj h)
        omega
      · obtain ⟨m, -, h⟩ := Option.map_eq_some_iff.1 h
        obtain ⟨-, rfl⟩ := Prod.mk.inj h
        omega

/-- The references in a masked line from a byte on. -/
def mentionsFrom? (code : Text) (index : Nat) : Option (List Mention) :=
  if index < byteSize code then
    match _h : step? code index with
    | none => none
    | some (found?, next) => (mentionsFrom? code next).map (found?.toList ++ ·)
  else some []
termination_by byteSize code - index
decreasing_by
  have hlt := lt_of_step? _h
  omega

/-- The references in a masked line. -/
def mentions? (code : Text) : Option (List Mention) :=
  mentionsFrom? code 0

/-! ## What stands at a byte -/

theorem isAsciiClass_isRunChar : Text.IsAsciiClass Reference.isRunChar :=
  fun _ => Reference.isAscii_of_isRunChar

theorem isCharAt_append {d : Char} (hd : Text.isAscii d = true) (a t : Text) :
    isCharAt d (a ++ t) (byteSize a) = decide (t.head? = some d) := by
  have hclass : Text.IsAsciiClass (· = d) := fun c hc => by
    rw [of_decide_eq_true hc]
    exact hd
  rw [isCharAt, Text.any_byteAt? hclass]
  cases t.head? <;> simp

section Places

variable (a t : Text)

theorem librarySize?_append :
    librarySize? (a ++ t) (byteSize a) =
      some (if a.getLast?.any Reference.isRunChar then 0 else byteSize (Ident.leading t)) := by
  rw [librarySize?, Text.isFreeBefore?_append isAsciiClass_isRunChar, Option.bind_some,
    Text.from?_append, Option.map_some, identSize_eq]
  cases a.getLast?.any Reference.isRunChar <;> rfl

theorem memberSize?_dot :
    memberSize? (a ++ '.' :: t) (byteSize a) = some (byteSize (Ident.leading t)) := by
  have hsize : byteSize a + 1 = byteSize (a ++ ['.']) := by
    rw [Text.byteSize_append]
    rfl
  have hcode : a ++ '.' :: t = (a ++ ['.']) ++ t := by simp
  rw [memberSize?, isCharAt_append rfl, if_pos (by simp), hsize, hcode, Text.from?_append,
    Option.map_some, identSize_eq]

theorem chainSize_append :
    chainSize (a ++ t) (byteSize a) = byteSize (t.takeWhile Reference.isRunChar) := by
  have hdrop : (Text.bytes (a ++ t)).drop (byteSize a) = Text.bytes t := by
    rw [Text.bytes_append, List.drop_append_of_le_length (by simp), ← Text.length_bytes,
      List.drop_length, List.nil_append]
  rw [chainSize, hdrop, Text.takeWhile_bytes isAsciiClass_isRunChar, Text.length_bytes]

end Places

theorem memberSize?_of_head? (a : Text) {t : Text} (h : t.head? ≠ some '.') :
    memberSize? (a ++ t) (byteSize a) = some 0 := by
  rw [memberSize?, isCharAt_append rfl, if_neg (by simpa using h)]

/-- A reference in the text is found where the scanner finds it. -/
theorem mention?_eq_some (a : Text) {library name : Text} (rest : Text) :
    mention? (a ++ (Ident.qualified library name ++ rest)) (byteSize a)
        (byteSize a + byteSize library)
        (byteSize a + byteSize library + 1 + byteSize name) =
      some (.ofReference {
        library
        name
        start := byteSize a
        stop := byteSize a + byteSize (Ident.qualified library name)
        follow := Text.trimStart rest
        followStart := byteSize a + byteSize (Ident.qualified library name) +
          byteSize (rest.takeWhile Text.isBlank) }) := by
  obtain ⟨blanks, hblanks⟩ : ∃ blanks, rest.takeWhile Text.isBlank = blanks := ⟨_, rfl⟩
  obtain ⟨follow, hfollow⟩ : ∃ follow, Text.trimStart rest = follow := ⟨_, rfl⟩
  have hrest : rest = blanks ++ follow := by
    rw [← hblanks, ← hfollow, Text.trimStart, List.takeWhile_append_dropWhile]
  have hdot : byteSize a + byteSize library + 1 = byteSize (a ++ library ++ ['.']) := by
    simp only [Text.byteSize_append]
    rfl
  have hstop : byteSize (a ++ library ++ ['.']) + byteSize name =
      byteSize a + byteSize (Ident.qualified library name) := by
    simp only [Ident.qualified, Text.byteSize_append, Text.byteSize_cons, Text.byteSize_nil]
    omega
  have hbehind : from? (byteSize a + byteSize (Ident.qualified library name))
      (a ++ (Ident.qualified library name ++ rest)) = some rest := by
    have h := Text.from?_append (a ++ Ident.qualified library name) rest
    rwa [Text.byteSize_append, List.append_assoc] at h
  have hminus : minus? (byteSize rest) (byteSize follow) = some (byteSize blanks) := by
    rw [hrest, Text.minus?_append]
  have hlibrary : slice? (byteSize a) (byteSize a + byteSize library)
      (a ++ (Ident.qualified library name ++ rest)) = some library := by
    rw [Ident.qualified, List.append_assoc, Text.slice?_append]
  have hname : slice? (byteSize (a ++ library ++ ['.']))
      (byteSize a + byteSize (Ident.qualified library name))
      (a ++ (Ident.qualified library name ++ rest)) = some name := by
    have h := Text.slice?_append (a ++ library ++ ['.']) name rest
    rw [hstop] at h
    simpa [Ident.qualified] using h
  have hcall : isCharAt '(' (a ++ (Ident.qualified library name ++ rest))
      (byteSize a + byteSize (Ident.qualified library name) + byteSize blanks) =
        decide (follow.head? = some '(') := by
    rw [hrest, ← List.append_assoc, ← List.append_assoc, ← Text.byteSize_append,
      ← Text.byteSize_append, isCharAt_append rfl]
  simp only [mention?, hdot, hstop, hbehind, hfollow, hminus, hlibrary, hname, hcall,
    Option.bind_eq_bind, Option.bind_some, Mention.ofReference, Reference.isCall, hblanks]

/-! ## Steps -/

/-- From one byte to another one the search finds some references. -/
def Finds (code : Text) (index : Nat) (ms : List Mention) (next : Nat) : Prop :=
  mentionsFrom? code index = (mentionsFrom? code next).map (ms ++ ·)

namespace Finds

variable {code : Text} {index next last : Nat} {ms ns : List Mention}

theorem refl (code : Text) (index : Nat) : Finds code index [] index :=
  Option.map_id_apply.symm

theorem trans (h : Finds code index ms next) (h' : Finds code next ns last) :
    Finds code index (ms ++ ns) last := by
  rw [Finds, h, h', Option.map_map]
  congr 1
  funext ks
  exact (List.append_assoc ms ns ks).symm

theorem of_step? {found? : Option Mention} (hindex : index < byteSize code)
    (h : step? code index = some (found?, next)) : Finds code index found?.toList next := by
  rw [Finds, mentionsFrom?, if_pos hindex]
  split
  · next hstep =>
      rw [h] at hstep
      cases hstep
  · next hstep =>
      rw [h] at hstep
      obtain ⟨rfl, rfl⟩ := Prod.mk.inj (Option.some.inj hstep)
      rfl

end Finds

theorem mentionsFrom?_eq_none {code : Text} {index : Nat} (hindex : index < byteSize code)
    (h : step? code index = none) : mentionsFrom? code index = none := by
  rw [mentionsFrom?, if_pos hindex]
  split
  · rfl
  · next hstep =>
      rw [h] at hstep
      cases hstep

/-- The search passes a character at which no library starts. -/
theorem finds_character {a t : Text} {c : Char} (hc : Text.isAscii c = true)
    (h : a.getLast?.any Reference.isRunChar = true ∨ Ident.isStart c = false) :
    Finds (a ++ c :: t) (byteSize a) [] (byteSize (a ++ [c])) := by
  have hsize : librarySize? (a ++ c :: t) (byteSize a) = some 0 := by
    rw [librarySize?_append]
    rcases h with h | h
    · rw [if_pos h]
    · simp [Ident.leading, h]
  have hstep : step? (a ++ c :: t) (byteSize a) = some (none, byteSize (a ++ [c])) := by
    simp only [step?, hsize, Option.bind_eq_bind, Option.bind_some, if_true]
    simp [Text.utf8Size_of_isAscii hc]
  have hpos := c.utf8Size_pos
  exact Finds.of_step? (by simp; omega) hstep

/-- Inside a run nothing is found. -/
theorem finds_inRun {a u : Text} (rest : Text) (ha : a.getLast?.any Reference.isRunChar = true)
    (hu : ∀ c ∈ u, Reference.isRunChar c = true) :
    Finds (a ++ (u ++ rest)) (byteSize a) [] (byteSize (a ++ u)) := by
  induction u generalizing a with
  | nil =>
      rw [List.append_nil]
      exact Finds.refl _ _
  | cons c u ih =>
      rw [List.forall_mem_cons] at hu
      have hfirst := finds_character (t := u ++ rest)
        (Reference.isAscii_of_isRunChar hu.1) (Or.inl ha)
      have hlater := ih (a := a ++ [c]) (by simp [hu.1]) hu.2
      rw [List.append_assoc, List.append_assoc] at hlater
      exact hfirst.trans hlater

/-! ## Runs -/

section Runs

variable {a word name run rest : Text}

/-- At an identifier behind no run the search looks for a member. -/
theorem step?_word (ha : a.getLast?.any Reference.isRunChar = false)
    (hword : Ident.leading (word ++ rest) = word) (hne : word ≠ [])
    (hmember : memberSize? (a ++ (word ++ rest)) (byteSize (a ++ word)) = some 0) :
    step? (a ++ (word ++ rest)) (byteSize a) = some (none, byteSize (a ++ word)) := by
  have hsize : byteSize word ≠ 0 := Nat.ne_of_gt (Text.byteSize_pos hne)
  rw [Text.byteSize_append] at hmember ⊢
  simp only [step?, librarySize?_append, ha, hword, hmember, hsize, Option.bind_eq_bind,
    Option.bind_some, Bool.false_eq_true, if_false, if_true]

/-- Behind a member the search looks for another dot. -/
theorem step?_member (ha : a.getLast?.any Reference.isRunChar = false)
    (hword : Ident.leading (word ++ '.' :: (name ++ rest)) = word) (hne : word ≠ [])
    (hname : Ident.leading (name ++ rest) = name) (hne' : name ≠ []) :
    step? (a ++ (Ident.qualified word name ++ rest)) (byteSize a) =
      if rest.head? = some '.' then
        some (none, byteSize (a ++ Ident.qualified word name) + 1 +
          chainSize (a ++ (Ident.qualified word name ++ rest))
            (byteSize (a ++ Ident.qualified word name) + 1))
      else some (some (.ofReference {
        library := word
        name
        start := byteSize a
        stop := byteSize a + byteSize (Ident.qualified word name)
        follow := Text.trimStart rest
        followStart := byteSize a + byteSize (Ident.qualified word name) +
          byteSize (rest.takeWhile Text.isBlank) }),
        byteSize (a ++ Ident.qualified word name)) := by
  have hsize : byteSize word ≠ 0 := Nat.ne_of_gt (Text.byteSize_pos hne)
  have hsize' : byteSize name ≠ 0 := Nat.ne_of_gt (Text.byteSize_pos hne')
  have hlibrary : librarySize? (a ++ (Ident.qualified word name ++ rest)) (byteSize a) =
      some (byteSize word) := by
    rw [librarySize?_append, ha, Ident.qualified, List.append_assoc, List.cons_append, hword]
    rfl
  have hmember : memberSize? (a ++ (Ident.qualified word name ++ rest))
      (byteSize a + byteSize word) = some (byteSize name) := by
    have h := memberSize?_dot (a ++ word) (name ++ rest)
    rw [hname, Text.byteSize_append, List.append_assoc] at h
    rwa [Ident.qualified, List.append_assoc, List.cons_append]
  have hstop : byteSize a + byteSize word + 1 + byteSize name =
      byteSize (a ++ Ident.qualified word name) := by
    have hdot : Char.utf8Size '.' = 1 := rfl
    simp only [Ident.qualified, Text.byteSize_append, Text.byteSize_cons, hdot]
    omega
  have hdot : isCharAt '.' (a ++ (Ident.qualified word name ++ rest))
      (byteSize (a ++ Ident.qualified word name)) = decide (rest.head? = some '.') := by
    rw [← List.append_assoc, isCharAt_append rfl]
  have hfound := @mention?_eq_some a word name rest
  rw [hstop] at hfound
  simp only [step?, hlibrary, hmember, hsize, hsize', hstop, hdot, hfound, Option.bind_eq_bind,
    Option.bind_some, if_false, decide_eq_true_eq]
  rfl

theorem endsAt_isPart (h : Text.EndsAt Reference.isRunChar rest) :
    Text.EndsAt Ident.isPart rest := fun c hc => by
  have hrun := h c hc
  rw [Reference.isRunChar, Bool.or_eq_false_iff] at hrun
  exact hrun.1

theorem head?_ne_dot (h : Text.EndsAt Reference.isRunChar rest) : rest.head? ≠ some '.' :=
  fun hdot => by cases h '.' hdot

/-- A run goes on behind an identifier with a dot. -/
theorem eq_nil_or_dot {t : Text} (hrun : ∀ c ∈ t, Reference.isRunChar c = true)
    (hends : Text.EndsAt Ident.isPart t) : t = [] ∨ ∃ t', t = '.' :: t' := by
  cases t with
  | nil =>
      exact Or.inl rfl
  | cons c t =>
      have hc := hrun c List.mem_cons_self
      rw [Reference.isRunChar, hends c rfl, Bool.false_or, decide_eq_true_eq] at hc
      exact Or.inr ⟨t, by rw [hc]⟩

theorem any_getLast?_append {p : Char → Bool} (a : Text) (hne : word ≠ [])
    (h : ∀ c ∈ word, p c = true) : (a ++ word).getLast?.any p = true := by
  rw [List.getLast?_append, List.getLast?_eq_some_getLast hne, Option.some_or, Option.any_some]
  exact h _ (List.getLast_mem hne)

/-- A run that starts with no identifier is passed. -/
theorem finds_nothing_of_leading (hne : run ≠ [])
    (hrun : ∀ c ∈ run, Reference.isRunChar c = true) (hleading : Ident.leading run = []) :
    Finds (a ++ (run ++ rest)) (byteSize a) [] (byteSize (a ++ run)) := by
  obtain ⟨c, w, rfl⟩ := List.exists_cons_of_ne_nil hne
  rw [List.forall_mem_cons] at hrun
  have hstart : Ident.isStart c = false := Bool.eq_false_iff.2 fun hc => by
    rw [Ident.leading, if_pos hc] at hleading
    cases hleading
  have hfirst := finds_character (a := a) (t := w ++ rest)
    (Reference.isAscii_of_isRunChar hrun.1) (Or.inr hstart)
  have hlater := finds_inRun (a := a ++ [c]) rest (by simp [hrun.1]) hrun.2
  rw [List.append_assoc, List.append_assoc] at hlater
  exact hfirst.trans hlater

/-- A chain with more than one dot is passed as a whole. -/
theorem finds_nothing_of_chain (ha : a.getLast?.any Reference.isRunChar = false)
    (hl : Ident.isIdent word = true) (hn : Ident.isIdent name = true)
    (hrun : ∀ c ∈ run, Reference.isRunChar c = true)
    (hrest : Text.EndsAt Reference.isRunChar rest) :
    Finds (a ++ (Ident.qualified word name ++ ('.' :: run ++ rest))) (byteSize a) []
      (byteSize (a ++ (Ident.qualified word name ++ '.' :: run))) := by
  have hstep := @step?_member a word name ('.' :: run ++ rest) ha
    (Ident.leading_append hl (Text.endsAt_cons (by decide) _)) (Ident.ne_nil hl)
    (Ident.leading_append hn (Text.endsAt_cons (by decide) _)) (Ident.ne_nil hn)
  have hdot : byteSize (a ++ Ident.qualified word name) + 1 =
      byteSize (a ++ Ident.qualified word name ++ ['.']) := by
    rw [Text.byteSize_append _ ['.']]
    rfl
  have hchain := chainSize_append (a ++ Ident.qualified word name ++ ['.']) (run ++ rest)
  have hcode : a ++ Ident.qualified word name ++ ['.'] ++ (run ++ rest) =
      a ++ (Ident.qualified word name ++ ('.' :: run ++ rest)) := by simp
  have hend : byteSize (a ++ Ident.qualified word name ++ ['.']) + byteSize run =
      byteSize (a ++ (Ident.qualified word name ++ '.' :: run)) := by
    rw [← Text.byteSize_append]
    simp
  rw [Text.takeWhile_run hrun hrest, hcode] at hchain
  rw [List.cons_append, List.head?_cons, if_pos rfl, hdot, ← List.cons_append, hchain,
    hend] at hstep
  have hpos := Text.byteSize_pos (Ident.ne_nil hl)
  exact Finds.of_step? (by simp [Ident.qualified]; omega) hstep

/-- An identifier without a dot is passed. -/
theorem finds_nothing_of_word (ha : a.getLast?.any Reference.isRunChar = false)
    (hl : Ident.isIdent word = true) (hrest : Text.EndsAt Reference.isRunChar rest) :
    Finds (a ++ (word ++ rest)) (byteSize a) [] (byteSize (a ++ word)) := by
  have hmember := memberSize?_of_head? (a ++ word) (head?_ne_dot hrest)
  rw [List.append_assoc] at hmember
  have hpos := Text.byteSize_pos (Ident.ne_nil hl)
  exact Finds.of_step? (by simp; omega) (step?_word ha
    (Ident.leading_append hl (endsAt_isPart hrest)) (Ident.ne_nil hl) hmember)

/-- An identifier with a dot behind which no identifier starts is passed: the search goes on inside
the run. -/
theorem finds_nothing_of_dot (ha : a.getLast?.any Reference.isRunChar = false)
    (hl : Ident.isIdent word = true) (hrun : ∀ c ∈ word ++ '.' :: run, Reference.isRunChar c = true)
    (hrest : Text.EndsAt Reference.isRunChar rest) (hleading : Ident.leading run = []) :
    Finds (a ++ (word ++ ('.' :: run ++ rest))) (byteSize a) []
      (byteSize (a ++ (word ++ '.' :: run))) := by
  rw [List.forall_mem_append] at hrun
  have hmember := memberSize?_dot (a ++ word) (run ++ rest)
  rw [Ident.leading_append_of_endsAt run (endsAt_isPart hrest), hleading,
    List.append_assoc] at hmember
  have hpos := Text.byteSize_pos (Ident.ne_nil hl)
  have hfirst := Finds.of_step? (by simp; omega) (step?_word ha
    (Ident.leading_append hl (Text.endsAt_cons (by decide) (run ++ rest))) (Ident.ne_nil hl)
    hmember)
  have hlater := finds_inRun (a := a ++ word) (u := '.' :: run) rest
    (any_getLast?_append a (Ident.ne_nil hl) hrun.1) hrun.2
  rw [List.append_assoc, List.append_assoc] at hlater
  exact hfirst.trans hlater

/-- A run that is no reference is passed. -/
theorem finds_nothing (ha : a.getLast?.any Reference.isRunChar = false) (hne : run ≠ [])
    (hrun : ∀ c ∈ run, Reference.isRunChar c = true)
    (hrest : Text.EndsAt Reference.isRunChar rest) (hparts : Reference.partsOf? run = none) :
    Finds (a ++ (run ++ rest)) (byteSize a) [] (byteSize (a ++ run)) := by
  by_cases hnil : Ident.leading run = []
  · exact finds_nothing_of_leading hne hrun hnil
  · obtain ⟨word, v, rfl, hl, hends⟩ := Ident.exists_leading hnil
    rcases eq_nil_or_dot (List.forall_mem_append.1 hrun).2 hends with rfl | ⟨v, rfl⟩
    · rw [List.append_nil]
      exact finds_nothing_of_word ha hl hrest
    · rw [List.append_assoc]
      by_cases hmember : Ident.leading v = []
      · exact finds_nothing_of_dot ha hl hrun hrest hmember
      · obtain ⟨name, x, rfl, hn, hends'⟩ := Ident.exists_leading hmember
        have hall : ∀ c ∈ x, Reference.isRunChar c = true := fun c hc => hrun c (by simp [hc])
        rcases eq_nil_or_dot hall hends' with rfl | ⟨x, rfl⟩
        · -- two identifiers are a reference
          rw [List.append_nil, ← Ident.qualified, Reference.partsOf?_qualified hl hn] at hparts
          cases hparts
        · have hchain := finds_nothing_of_chain ha hl hn (List.forall_mem_cons.1 hall).2 hrest
          simpa [Ident.qualified] using hchain

/-- A run that is a reference is found. -/
theorem finds_reference (ha : a.getLast?.any Reference.isRunChar = false)
    (hl : Ident.isIdent word = true) (hn : Ident.isIdent name = true)
    (hrest : Text.EndsAt Reference.isRunChar rest) :
    Finds (a ++ (Ident.qualified word name ++ rest)) (byteSize a)
      [.ofReference {
        library := word
        name
        start := byteSize a
        stop := byteSize a + byteSize (Ident.qualified word name)
        follow := Text.trimStart rest
        followStart := byteSize a + byteSize (Ident.qualified word name) +
          byteSize (rest.takeWhile Text.isBlank) }]
      (byteSize (a ++ Ident.qualified word name)) := by
  have hstep := step?_member ha
    (Ident.leading_append hl (Text.endsAt_cons (by decide) (name ++ rest))) (Ident.ne_nil hl)
    (Ident.leading_append hn (endsAt_isPart hrest)) (Ident.ne_nil hn)
  rw [if_neg (head?_ne_dot hrest)] at hstep
  have hpos := Text.byteSize_pos (Ident.ne_nil hl)
  exact Finds.of_step? (by simp [Ident.qualified]; omega) hstep

/-- What the search finds from the start of a run to its end. -/
theorem finds_run (ha : a.getLast?.any Reference.isRunChar = false)
    (hne : run ≠ []) (hrun : ∀ c ∈ run, Reference.isRunChar c = true)
    (hrest : Text.EndsAt Reference.isRunChar rest) :
    Finds (a ++ (run ++ rest)) (byteSize a)
      ((Reference.leading? (byteSize a) (run ++ rest)).map Mention.ofReference).toList
      (byteSize (a ++ run)) := by
  rw [Reference.leading?_append hrun hrest]
  cases hparts : Reference.partsOf? run with
  | none =>
      exact finds_nothing ha hne hrun hrest hparts
  | some parts =>
      obtain ⟨rfl, hl, hn⟩ := Reference.partsOf?_eq_some hparts
      exact finds_reference ha hl hn hrest

end Runs

/-! ## Lines -/

/-- At a character outside ASCII the search fails: no run goes on over the first byte of the
character, so the text is cut at the second one. -/
theorem mentionsFrom?_foreign {c : Char} (hc : Text.isAscii c = false) (a t : Text) :
    mentionsFrom? (a ++ c :: t) (byteSize a) = none := by
  have hstart : Ident.isStart c = false := Bool.eq_false_iff.2 fun h => by
    rw [isAsciiClass_isStart c h] at hc
    cases hc
  have hrun : Reference.isRunChar c = false := Bool.eq_false_iff.2 fun h => by
    rw [isAsciiClass_isRunChar c h] at hc
    cases hc
  have hsize : byteSize a + 1 < byteSize (a ++ c :: t) := by
    have hpos := c.utf8Size_pos
    have hone : c.utf8Size ≠ 1 := fun h => by
      rw [Text.isAscii_of_utf8Size h] at hc
      cases hc
    rw [Text.byteSize_append, Text.byteSize_cons]
    omega
  have hlead : librarySize? (a ++ c :: t) (byteSize a) = some 0 := by
    rw [librarySize?_append, Ident.leading, hstart]
    simp
  have hstep : step? (a ++ c :: t) (byteSize a) = some (none, byteSize a + 1) := by
    simp only [step?, hlead, Option.bind_eq_bind, Option.bind_some, if_true]
  have hfails : step? (a ++ c :: t) (byteSize a + 1) = none := by
    have hfree : isFreeBefore? Reference.isRunChar (byteSize a + 1) (a ++ c :: t) = some true := by
      rw [Text.isFreeBefore?_succ isAsciiClass_isRunChar, hrun]
      rfl
    rw [step?, librarySize?, hfree, Option.bind_some, if_pos rfl, Text.from?_foreign hc]
    rfl
  have hfinds := Finds.of_step? (by omega) hstep
  rw [hfinds, mentionsFrom?_eq_none hsize hfails]
  rfl

/-- The search finds in a run what the scanner finds. -/
theorem mentionsFrom?_run {a run rest : Text} (ha : a.getLast?.any Reference.isRunChar = false)
    (hne : run ≠ []) (hrun : ∀ c ∈ run, Reference.isRunChar c = true)
    (hrest : Text.EndsAt Reference.isRunChar rest)
    (hlater : mentionsFrom? (a ++ (run ++ rest)) (byteSize a + byteSize run) =
      ((Reference.scanFrom false (byteSize a + byteSize run) rest).map
        (List.map Mention.ofReference)).toOption) :
    mentionsFrom? (a ++ (run ++ rest)) (byteSize a) =
      ((Reference.scanFrom false (byteSize a) (run ++ rest)).map
        (List.map Mention.ofReference)).toOption := by
  rw [finds_run ha hne hrun hrest, Text.byteSize_append, hlater,
    Reference.scanFrom_word hne hrun hrest]
  cases Reference.scanFrom false (byteSize a + byteSize run) rest with
  | error e =>
      rfl
  | ok rs =>
      refine congrArg some ?_
      show _ ++ _ = List.map _ (_ ++ rs)
      rw [List.map_append, Option.toList_map]

/-- The search finds what the scanner finds, and it fails where the scanner does. -/
theorem mentionsFrom?_eq (a t : Text)
    (ha : t.head?.any Reference.isRunChar = true → a.getLast?.any Reference.isRunChar = false) :
    mentionsFrom? (a ++ t) (byteSize a) =
      ((Reference.scanFrom false (byteSize a) t).map (List.map Mention.ofReference)).toOption := by
  induction h : t.length using Nat.strong_induction_on generalizing a t with
  | _ n ih =>
      subst h
      cases t with
      | nil =>
          rw [List.append_nil, mentionsFrom?, if_neg (Nat.lt_irrefl _)]
          rfl
      | cons c t =>
          cases hascii : Text.isAscii c with
          | false =>
              rw [mentionsFrom?_foreign hascii, Reference.scanFrom, hascii]
              rfl
          | true =>
              cases hc : Reference.isRunChar c with
              | false =>
                  have hstart : Ident.isStart c = false := Bool.eq_false_iff.2 fun h => by
                    rw [Reference.isRunChar, Ident.isPart_of_isStart h] at hc
                    cases hc
                  have hfinds := finds_character (a := a) (t := t) hascii (Or.inr hstart)
                  have hlater := ih t.length (by simp) (a ++ [c]) t (fun _ => by simp [hc]) rfl
                  have hscan := Reference.scanFrom_glue (t := [c]) (by simp [hascii, hc])
                    (byteSize a) t
                  rw [← Text.byteSize_append, List.singleton_append] at hscan
                  rw [List.append_assoc, List.singleton_append] at hlater
                  rw [hfinds, hlater, hscan]
                  exact Option.map_id_apply
              | true =>
                  obtain ⟨run, rest, hsplit, hne, hall, hends⟩ := Text.exists_run hc t
                  have hshorter : rest.length < (c :: t).length := by
                    rw [hsplit, List.length_append]
                    exact Nat.lt_add_of_pos_left (List.length_pos_iff.2 hne)
                  have hlater := ih rest.length hshorter (a ++ run) rest (fun h => by
                    obtain ⟨d, hd, hdrun⟩ := (Option.any_eq_true _ _).1 h
                    rw [hends d hd] at hdrun
                    cases hdrun) rfl
                  rw [List.append_assoc, Text.byteSize_append] at hlater
                  rw [hsplit]
                  exact mentionsFrom?_run (ha (by simp [hc])) hne hall hends hlater

theorem mentions?_eq (code : Text) :
    mentions? code =
      ((Reference.scan code).map (List.map Mention.ofReference)).toOption :=
  mentionsFrom?_eq [] code fun _ => rfl

end Bytewise
end DspCheck
