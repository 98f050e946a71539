import DspCheck.Proofs.Text.Place
import DspCheck.Text.Utf8

/-!
# Texts by their bytes

A text can be looked at through the bytes of its UTF-8 form.  A byte is looked up by its position,
and a text is cut at the position of a byte.  Both can fail, and `none` stands for that: there may
be no byte at a position, and a position where a text is cut may be inside a character.

Main statements: `from?_append`, `upTo?_append` and `slice?_append` say where a text can be cut,
`from?_foreign` where it cannot, and `takeWhile_bytes` that classes of ASCII characters may be
looked for among the bytes.
-/

namespace DspCheck
namespace Text

/-- The byte at a position. -/
def byteAt? (n : Nat) (t : Text) : Option UInt8 :=
  (bytes t)[n]?

/-- Whether a byte is, by itself, a character of a class. -/
def byteIs (p : Char → Bool) (b : UInt8) : Bool :=
  p (Char.ofUInt8 b)

/-- Whether no character of a class stands right before a byte. -/
def isFreeBefore? (p : Char → Bool) (n : Nat) (t : Text) : Option Bool :=
  if n = 0 then some true else (byteAt? (n - 1) t).map fun b => !byteIs p b

/-- The part of a text from a byte on. -/
def from? : Nat → Text → Option Text
  | 0, t => some t
  | _ + 1, [] => none
  | n + 1, c :: t => if c.utf8Size ≤ n + 1 then from? (n + 1 - c.utf8Size) t else none

/-- The part of a text before a byte. -/
def upTo? : Nat → Text → Option Text
  | 0, _ => some []
  | _ + 1, [] => none
  | n + 1, c :: t =>
      if c.utf8Size ≤ n + 1 then (upTo? (n + 1 - c.utf8Size) t).map (c :: ·) else none

/-- The part of a text between two bytes. -/
def slice? (start stop : Nat) (t : Text) : Option Text :=
  if stop < start then none else (from? start t).bind (upTo? (stop - start))

/-- The number of bytes of a class at the start of a text. -/
def runSize (p : Char → Bool) (t : Text) : Nat :=
  ((bytes t).takeWhile (byteIs p)).length

/-- A difference that must not be negative. -/
def minus? (m n : Nat) : Option Nat :=
  if n ≤ m then some (m - n) else none

/-- What a text is longer than its rest. -/
theorem minus?_append (s t : Text) :
    minus? (byteSize (s ++ t)) (byteSize t) = some (byteSize s) := by
  rw [minus?, byteSize_append, if_pos (Nat.le_add_left _ _), Nat.add_sub_cancel]

theorem minus?_dropWhile (p : Char → Bool) (t : Text) :
    minus? (byteSize t) (byteSize (t.dropWhile p)) = some (byteSize (t.takeWhile p)) := by
  have h := minus?_append (t.takeWhile p) (t.dropWhile p)
  rwa [List.takeWhile_append_dropWhile] at h

/-! ## Cuts -/

section Cuts

theorem from?_cons_add (c : Char) (t : Text) (n : Nat) :
    from? (c.utf8Size + n) (c :: t) = from? n t := by
  have hc := c.utf8Size_pos
  obtain ⟨m, hm⟩ := Nat.exists_eq_succ_of_ne_zero (Nat.ne_of_gt (Nat.add_pos_left hc n))
  have hrest : m + 1 - c.utf8Size = n := by omega
  rw [hm, from?, if_pos (by omega), hrest]

theorem upTo?_cons_add (c : Char) (t : Text) (n : Nat) :
    upTo? (c.utf8Size + n) (c :: t) = (upTo? n t).map (c :: ·) := by
  have hc := c.utf8Size_pos
  obtain ⟨m, hm⟩ := Nat.exists_eq_succ_of_ne_zero (Nat.ne_of_gt (Nat.add_pos_left hc n))
  have hrest : m + 1 - c.utf8Size = n := by omega
  rw [hm, upTo?, if_pos (by omega), hrest]

theorem from?_append_add (s t : Text) (n : Nat) :
    from? (byteSize s + n) (s ++ t) = from? n t := by
  induction s with
  | nil =>
      rw [byteSize_nil, Nat.zero_add, List.nil_append]
  | cons c s ih =>
      rw [byteSize_cons, Nat.add_assoc, List.cons_append, from?_cons_add, ih]

theorem upTo?_append_add (s t : Text) (n : Nat) :
    upTo? (byteSize s + n) (s ++ t) = (upTo? n t).map (s ++ ·) := by
  induction s with
  | nil =>
      rw [byteSize_nil, Nat.zero_add, List.nil_append]
      exact (Option.map_id_apply).symm
  | cons c s ih =>
      rw [byteSize_cons, Nat.add_assoc, List.cons_append, upTo?_cons_add, ih, Option.map_map]
      rfl

/-- A text can be cut behind a prefix. -/
@[simp] theorem from?_append (s t : Text) : from? (byteSize s) (s ++ t) = some t := by
  have h := from?_append_add s t 0
  rwa [Nat.add_zero, from?] at h

@[simp] theorem upTo?_append (s t : Text) : upTo? (byteSize s) (s ++ t) = some s := by
  have h := upTo?_append_add s t 0
  rwa [Nat.add_zero, upTo?, Option.map_some, List.append_nil] at h

@[simp] theorem slice?_append (s u t : Text) :
    slice? (byteSize s) (byteSize s + byteSize u) (s ++ (u ++ t)) = some u := by
  rw [slice?, if_neg (Nat.not_lt.2 (Nat.le_add_right _ _)), from?_append, Option.bind_some,
    Nat.add_sub_cancel_left, upTo?_append]

theorem isAscii_of_utf8Size {c : Char} (h : c.utf8Size = 1) : isAscii c = true := by
  rw [Char.utf8Size_eq_one_iff, UInt32.le_iff_toNat_le] at h
  have hlt : c.toNat < 128 := Nat.lt_succ_of_le h
  simpa [isAscii] using hlt

/-- A text cannot be cut inside a character. -/
theorem from?_foreign {c : Char} (hc : isAscii c = false) (s t : Text) :
    from? (byteSize s + 1) (s ++ c :: t) = none := by
  have hsize : ¬ c.utf8Size ≤ 0 + 1 := by
    intro hle
    rw [isAscii_of_utf8Size (Nat.le_antisymm hle c.utf8Size_pos)] at hc
    cases hc
  rw [from?_append_add, from?, if_neg hsize]

end Cuts

/-! ## Bytes -/

@[simp] theorem bytes_nil : bytes [] = [] := rfl

theorem bytes_cons (c : Char) (t : Text) :
    bytes (c :: t) = String.utf8EncodeChar c ++ bytes t :=
  List.flatMap_cons

@[simp] theorem bytes_append (s t : Text) : bytes (s ++ t) = bytes s ++ bytes t :=
  List.flatMap_append

@[simp] theorem length_bytes (t : Text) : (bytes t).length = byteSize t := by
  induction t with
  | nil =>
      rfl
  | cons c t ih =>
      rw [bytes_cons, List.length_append, String.length_utf8EncodeChar, ih, byteSize_cons]

theorem byteAt?_append_add (s t : Text) (n : Nat) :
    byteAt? (byteSize s + n) (s ++ t) = byteAt? n t := by
  rw [byteAt?, byteAt?, bytes_append, List.getElem?_append_right (by simp), length_bytes,
    Nat.add_sub_cancel_left]

theorem isAscii_ofUInt8 (b : UInt8) : isAscii (Char.ofUInt8 b) = decide (b.toNat < 128) := rfl

/-- A character of ASCII is its byte, and no byte of another one is a character of ASCII. -/
theorem encode_cases (c : Char) :
    (isAscii c = true ∧ ∃ b, String.utf8EncodeChar c = [b] ∧ Char.ofUInt8 b = c) ∨
      (isAscii c = false ∧ ∀ b ∈ String.utf8EncodeChar c, isAscii (Char.ofUInt8 b) = false) := by
  cases hc : isAscii c with
  | true =>
      refine Or.inl ⟨rfl, _, String.utf8EncodeChar_eq_singleton (utf8Size_of_isAscii hc), ?_⟩
      have hlt : c.val.toNat < 128 := by simpa [isAscii] using hc
      refine Char.ext (UInt32.toNat_inj.1 ?_)
      show c.val.toNat % 256 = c.val.toNat
      omega
  | false =>
      have hge : 128 ≤ c.val.toNat := by simpa [isAscii] using hc
      have hhigh : ∀ n, 128 ≤ n → n < 256 → 128 ≤ (UInt8.ofNat n).toNat := by
        intro n hn hlt
        rw [UInt8.toNat_ofNat_of_lt' hlt]
        exact hn
      have hall : ∀ b ∈ String.utf8EncodeChar c, 128 ≤ b.toNat := by
        simp only [String.utf8EncodeChar, if_neg (Nat.not_le.2 hge)]
        -- two, three or four bytes
        split
        · simp only [List.forall_mem_cons]
          exact ⟨hhigh _ (by omega) (by omega), hhigh _ (by omega) (by omega),
            List.forall_mem_nil _⟩
        · split
          · simp only [List.forall_mem_cons]
            exact ⟨hhigh _ (by omega) (by omega), hhigh _ (by omega) (by omega),
              hhigh _ (by omega) (by omega), List.forall_mem_nil _⟩
          · simp only [List.forall_mem_cons]
            exact ⟨hhigh _ (by omega) (by omega), hhigh _ (by omega) (by omega),
              hhigh _ (by omega) (by omega), hhigh _ (by omega) (by omega), List.forall_mem_nil _⟩
      refine Or.inr ⟨rfl, fun b hb => ?_⟩
      rw [isAscii_ofUInt8, decide_eq_false_iff_not, Nat.not_lt]
      exact hall b hb

theorem encode_ne_nil (c : Char) : String.utf8EncodeChar c ≠ [] := by
  rw [ne_eq, ← List.length_eq_zero_iff, String.length_utf8EncodeChar]
  exact Nat.ne_of_gt c.utf8Size_pos

/-! ## Classes of characters -/

section Classes

variable {p : Char → Bool}

/-- Only characters of ASCII belong to a class. -/
def IsAsciiClass (p : Char → Bool) : Prop :=
  ∀ c, p c = true → isAscii c = true

/-- All bytes of a character belong to a class if it does. -/
theorem byteIs_of_mem_encode (hp : IsAsciiClass p) {c : Char} {b : UInt8}
    (hb : b ∈ String.utf8EncodeChar c) : byteIs p b = p c := by
  rcases encode_cases c with ⟨-, d, hd, hchar⟩ | ⟨hc, hbytes⟩
  · rw [hd, List.mem_singleton] at hb
    rw [byteIs, hb, hchar]
  · have hforeign : ∀ d, isAscii d = false → p d = false := fun d hd =>
      Bool.eq_false_iff.2 fun h => by rw [hp d h] at hd; cases hd
    rw [byteIs, hforeign _ (hbytes b hb), hforeign c hc]

/-- The bytes of a class at the start are those of the characters of the class. -/
theorem takeWhile_bytes (hp : IsAsciiClass p) (t : Text) :
    (bytes t).takeWhile (byteIs p) = bytes (t.takeWhile p) := by
  induction t with
  | nil =>
      rfl
  | cons c t ih =>
      rw [bytes_cons, List.takeWhile_cons]
      have hbytes := fun b hb => byteIs_of_mem_encode hp (c := c) (b := b) hb
      cases hc : p c with
      | true =>
          rw [List.takeWhile_append_of_pos fun b hb => (hbytes b hb).trans hc, ih, if_pos rfl,
            bytes_cons]
      | false =>
          obtain ⟨b, bs, hb⟩ := List.exists_cons_of_ne_nil (encode_ne_nil c)
          rw [hb, List.cons_append, List.takeWhile_cons,
            hbytes b (hb ▸ List.mem_cons_self), hc]
          rfl

theorem runSize_eq (hp : IsAsciiClass p) (t : Text) : runSize p t = byteSize (t.takeWhile p) := by
  rw [runSize, takeWhile_bytes hp, length_bytes]

theorem runSize_eq_zero_iff (hp : IsAsciiClass p) (t : Text) :
    runSize p t = 0 ↔ t.takeWhile p = [] := by
  rw [runSize_eq hp]
  refine ⟨fun h => ?_, fun h => by rw [h]; rfl⟩
  by_contra hne
  exact Nat.ne_of_gt (byteSize_pos hne) h

/-- A text can be cut where a class ends. -/
theorem upTo?_runSize (hp : IsAsciiClass p) (t : Text) :
    upTo? (runSize p t) t = some (t.takeWhile p) := by
  have h := upTo?_append (t.takeWhile p) (t.dropWhile p)
  rwa [List.takeWhile_append_dropWhile, ← runSize_eq hp] at h

theorem from?_runSize (hp : IsAsciiClass p) (t : Text) :
    from? (runSize p t) t = some (t.dropWhile p) := by
  have h := from?_append (t.takeWhile p) (t.dropWhile p)
  rwa [List.takeWhile_append_dropWhile, ← runSize_eq hp] at h

/-- The first byte of a text belongs to a class if the first character does. -/
theorem map_head?_bytes (hp : IsAsciiClass p) (t : Text) :
    (bytes t).head?.map (byteIs p) = t.head?.map p := by
  cases t with
  | nil =>
      rfl
  | cons c t =>
      obtain ⟨b, bs, hb⟩ := List.exists_cons_of_ne_nil (encode_ne_nil c)
      rw [bytes_cons, hb, List.cons_append, List.head?_cons, List.head?_cons, Option.map_some,
        Option.map_some]
      exact congrArg some (byteIs_of_mem_encode hp (hb ▸ List.mem_cons_self))

theorem any_head?_bytes (hp : IsAsciiClass p) (t : Text) :
    (bytes t).head?.any (byteIs p) = t.head?.any p := by
  have h := congrArg (Option.any id) (map_head?_bytes hp t)
  rwa [Option.any_map, Option.any_map] at h

theorem all_head?_bytes (hp : IsAsciiClass p) (t : Text) :
    (bytes t).head?.all (byteIs p) = t.head?.all p := by
  have h := congrArg (Option.all id) (map_head?_bytes hp t)
  rwa [Option.all_map, Option.all_map] at h

/-- The byte behind a text is in a class if the character there is. -/
theorem any_byteAt? (hp : IsAsciiClass p) (s t : Text) :
    (byteAt? (byteSize s) (s ++ t)).any (byteIs p) = t.head?.any p := by
  have h := byteAt?_append_add s t 0
  rw [Nat.add_zero] at h
  rw [h, byteAt?, ← List.head?_eq_getElem?, any_head?_bytes hp]

theorem isFreeBefore?_append (hp : IsAsciiClass p) (s t : Text) :
    isFreeBefore? p (byteSize s) (s ++ t) = some (!s.getLast?.any p) := by
  rcases List.eq_nil_or_concat s with rfl | ⟨s, c, rfl⟩
  · rfl
  · have hne : byteSize (s ++ [c]) ≠ 0 := Nat.ne_of_gt (byteSize_pos (by simp))
    have hsize := c.utf8Size_pos
    have hsplit : bytes (s ++ [c] ++ t) = (bytes s ++ (String.utf8EncodeChar c).dropLast) ++
        (String.utf8EncodeChar c).getLast (encode_ne_nil c) :: bytes t := by
      conv_lhs => rw [bytes_append, bytes_append, bytes_cons, bytes_nil, List.append_nil,
        ← List.dropLast_append_getLast (encode_ne_nil c)]
      simp
    have hindex : byteSize (s ++ [c]) - 1 =
        (bytes s ++ (String.utf8EncodeChar c).dropLast).length := by
      simp
      omega
    have hlast := byteIs_of_mem_encode hp (List.getLast_mem (encode_ne_nil c))
    rw [List.concat_eq_append, isFreeBefore?, if_neg hne, byteAt?, hsplit, hindex,
      List.getElem?_append_right (Nat.le_refl _), Nat.sub_self, List.getElem?_cons_zero,
      Option.map_some, hlast, List.getLast?_concat, Option.any_some]

/-- Behind the first byte of a character the class is that of the character. -/
theorem isFreeBefore?_succ (hp : IsAsciiClass p) (s t : Text) (c : Char) :
    isFreeBefore? p (byteSize s + 1) (s ++ c :: t) = some (!p c) := by
  obtain ⟨b, bs, hb⟩ := List.exists_cons_of_ne_nil (encode_ne_nil c)
  have hbyte : byteAt? (byteSize s) (s ++ c :: t) = some b := by
    have h := byteAt?_append_add s (c :: t) 0
    rw [Nat.add_zero] at h
    rw [h, byteAt?, bytes_cons, hb]
    rfl
  have hclass : byteIs p b = p c := byteIs_of_mem_encode hp (hb ▸ List.mem_cons_self)
  rw [isFreeBefore?, if_neg (Nat.succ_ne_zero _), Nat.add_sub_cancel, hbyte, Option.map_some,
    hclass]

end Classes

end Text
end DspCheck
