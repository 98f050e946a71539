import DspCheck.Proofs.Bytewise.Text
import DspCheck.Proofs.Text.Order
import Mathlib.Tactic.IntervalCases

/-!
# The order of bytes

The bytes of a character are a first byte, which tells how many others continue it (`leadMark`), and
the last digits of its number in base 64 (`continuation`).  Both grow with the number, so the bytes
of two different characters stand in the order of their numbers, whatever follows them
(`encode_append_lt`).

Main statement: alphabetical order is the order of the bytes (`le_iff_bytes_le`).
-/

namespace DspCheck
namespace Text

/-- The bytes that continue a character: the last digits of its number in base 64, the highest one
first. -/
def continuation (v : Nat) : Nat → List UInt8
  | 0 => []
  | k + 1 => UInt8.ofNat (v / 64 ^ k % 64 + 0x80) :: continuation v k

/-- What marks the first byte of a character, given the number of bytes that continue it. -/
def leadMark : Nat → Nat
  | 0 => 0
  | 1 => 0xC0
  | 2 => 0xE0
  | _ => 0xF0

/-- The number that no character reaches, given the number of bytes that continue it. -/
def numberLimit : Nat → Nat
  | 0 => 0x80
  | 1 => 0x800
  | 2 => 0x10000
  | _ => 0x110000

theorem toNat_lt (c : Char) : c.toNat < 0x110000 := by
  rcases c.valid with h | ⟨-, h⟩
  · exact Nat.lt_trans h (by decide)
  · exact h

/-- A character takes the fewest bytes that its number fits into. -/
theorem exists_encode (c : Char) : ∃ k ≤ 3, c.toNat < numberLimit k ∧
    (∀ j < k, numberLimit j ≤ c.toNat) ∧
    String.utf8EncodeChar c =
      UInt8.ofNat (c.toNat / 64 ^ k + leadMark k) :: continuation c.toNat k := by
  have hlt := toNat_lt c
  simp only [String.utf8EncodeChar, Char.toNat_val]
  generalize c.toNat = v at hlt ⊢
  split_ifs with h₁ h₂ h₃
  · refine ⟨0, by decide, Nat.lt_succ_of_le h₁, fun j hj => absurd hj (Nat.not_lt_zero j), ?_⟩
    simp [continuation, leadMark]
  · refine ⟨1, by decide, Nat.lt_succ_of_le h₂, fun j hj => ?_, ?_⟩
    · interval_cases j
      exact Nat.lt_of_not_le h₁
    · have hdigit : v / 64 % 32 = v / 64 := Nat.mod_eq_of_lt (by omega)
      simp [continuation, leadMark, hdigit]
  · refine ⟨2, by decide, Nat.lt_succ_of_le h₃, fun j hj => ?_, ?_⟩
    · interval_cases j <;> simp only [numberLimit] <;> omega
    · have hdigit : v / 4096 % 16 = v / 4096 := Nat.mod_eq_of_lt (by omega)
      simp [continuation, leadMark, hdigit]
  · refine ⟨3, by decide, hlt, fun j hj => ?_, ?_⟩
    · interval_cases j <;> simp only [numberLimit] <;> omega
    · have hdigit : v / 262144 % 8 = v / 262144 := Nat.mod_eq_of_lt (by omega)
      simp [continuation, leadMark, hdigit]

theorem ofNat_lt_ofNat {m n : Nat} (h : m < n) (hn : n < 256) : UInt8.ofNat m < UInt8.ofNat n := by
  rw [UInt8.lt_iff_toNat_lt, UInt8.toNat_ofNat_of_lt' (h.trans hn), UInt8.toNat_ofNat_of_lt' hn]
  exact h

/-- Numbers of equally many digits stand in the order of their digits. -/
theorem continuation_append_lt {v w k : Nat} (h : v % 64 ^ k < w % 64 ^ k) (s t : List UInt8) :
    continuation v k ++ s < continuation w k ++ t := by
  induction k with
  | zero =>
      rw [Nat.pow_zero, Nat.mod_one, Nat.mod_one] at h
      exact absurd h (Nat.lt_irrefl 0)
  | succ k ih =>
      have hdigit : ∀ n : Nat, n / 64 ^ k % 64 < 64 := fun n => Nat.mod_lt _ (by decide)
      have hw := hdigit w
      rw [Nat.mod_pow_succ, Nat.mod_pow_succ] at h
      rw [continuation, continuation, List.cons_append, List.cons_append, List.cons_lt_cons_iff]
      rcases Nat.lt_trichotomy (v / 64 ^ k % 64) (w / 64 ^ k % 64) with hlt | heq | hgt
      · exact Or.inl (ofNat_lt_ofNat (by omega) (by omega))
      · rw [heq] at h ⊢
        exact Or.inr ⟨rfl, ih (Nat.lt_of_add_lt_add_right h)⟩
      · have hmul := Nat.mul_le_mul_left (64 ^ k) (Nat.succ_le_of_lt hgt)
        have hmod : w % 64 ^ k < 64 ^ k := Nat.mod_lt _ (Nat.pow_pos (by decide))
        rw [Nat.mul_succ] at hmul
        omega

theorem lead_lt {k v : Nat} (hk : k ≤ 3) (hv : v < numberLimit k) :
    v / 64 ^ k + leadMark k < 256 := by
  interval_cases k <;> simp only [numberLimit, leadMark] at * <;> omega

/-- The first bytes of characters stand in the order of how many bytes continue them. -/
theorem lead_lt_lead {k k' v w : Nat} (hk' : k' ≤ 3) (hlt : k < k') (hv : v < numberLimit k) :
    v / 64 ^ k + leadMark k < w / 64 ^ k' + leadMark k' := by
  interval_cases k' <;> interval_cases k <;> simp only [numberLimit, leadMark] at * <;> omega

/-- The bytes of characters stand in the order of the characters, whatever follows them. -/
theorem encode_append_lt {c d : Char} (h : c.toNat < d.toNat) (s t : List UInt8) :
    String.utf8EncodeChar c ++ s < String.utf8EncodeChar d ++ t := by
  obtain ⟨k, hk, hc, hclow, hcode⟩ := exists_encode c
  obtain ⟨k', hk', hd, -, hdcode⟩ := exists_encode d
  rw [hcode, hdcode, List.cons_append, List.cons_append, List.cons_lt_cons_iff]
  rcases Nat.lt_trichotomy k k' with hlt | rfl | hgt
  · exact Or.inl (ofNat_lt_ofNat (lead_lt_lead hk' hlt hc) (lead_lt hk' hd))
  · have hle : c.toNat / 64 ^ k ≤ d.toNat / 64 ^ k := Nat.div_le_div_right h.le
    rcases Nat.lt_or_eq_of_le hle with hlt | heq
    · exact Or.inl (ofNat_lt_ofNat (Nat.add_lt_add_right hlt _) (lead_lt hk hd))
    · refine Or.inr ⟨by rw [heq], continuation_append_lt ?_ s t⟩
      rw [← Nat.div_add_mod c.toNat (64 ^ k), ← Nat.div_add_mod d.toNat (64 ^ k), heq] at h
      exact Nat.lt_of_add_lt_add_left h
  · exact absurd (h.trans hd) (Nat.not_lt.2 (hclow k' hgt))

theorem append_le_append_iff (front l m : List UInt8) : front ++ l ≤ front ++ m ↔ l ≤ m := by
  induction front with
  | nil =>
      rfl
  | cons a front ih =>
      rw [List.cons_append, List.cons_append, List.cons_le_cons_iff, ih]
      simp

/-- Alphabetical order is the order of the bytes. -/
theorem le_iff_bytes_le (s t : Text) : le s t = true ↔ bytes s ≤ bytes t := by
  induction s generalizing t with
  | nil =>
      exact iff_of_true rfl (List.nil_le _)
  | cons c s ih =>
      cases t with
      | nil =>
          refine iff_of_false Bool.false_ne_true fun h => ?_
          rw [bytes_nil, List.le_nil, bytes_cons] at h
          exact encode_ne_nil c (List.append_eq_nil_iff.1 h).1
      | cons d t =>
          rw [bytes_cons, bytes_cons]
          rcases Nat.lt_trichotomy c.toNat d.toNat with hlt | heq | hgt
          · have hne : c ≠ d := fun h => Nat.ne_of_lt hlt (congrArg Char.toNat h)
            refine iff_of_true ?_ (List.le_of_lt (encode_append_lt hlt _ _))
            simpa [le, lexicallyLe, hne] using hlt.le
          · obtain rfl := Char.toNat_inj.1 heq
            rw [append_le_append_iff, ← ih t]
            simp [le, lexicallyLe]
          · have hne : c ≠ d := fun h => Nat.ne_of_gt hgt (congrArg Char.toNat h)
            refine iff_of_false ?_ (List.not_le.2 (encode_append_lt hgt _ _))
            simpa [le, lexicallyLe, hne] using hgt

end Text
end DspCheck
