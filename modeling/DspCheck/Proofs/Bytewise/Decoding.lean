import DspCheck.Proofs.Bytewise.Order

/-!
# Texts are read from their bytes

The reader of bytes takes up the value bits of the first byte of a character, which tells how many
others continue it and in which range the next one has to be (`exists_readLead`), and then the
digits that these add (`readBytes_inside`).  The ranges leave out no character that there is.

So a text is what is read of its bytes (`readBytes_bytes`).
-/

namespace DspCheck
namespace Text

/-! ## The bytes that continue a character -/

/-- A byte in the range that is asked for adds a digit. -/
theorem readByte_inside {value owed low high byte : Nat} (hlow : low ≤ byte) (hhigh : byte ≤ high) :
    readByte (.inside value owed low high) byte =
      if owed = 1 then ([Char.ofNat (value * 64 + byte % 64)], .start)
      else ([], .inside (value * 64 + byte % 64) (owed - 1) 0x80 0xBF) := by
  simp [readByte, hlow, hhigh]

/-- A number is made of the number without its last digit and this digit, which a byte marks. -/
theorem div_mul_add_digit (v k : Nat) :
    v / 64 ^ (k + 1) * 64 + (v / 64 ^ k % 64 + 0x80) % 64 = v / 64 ^ k := by
  rw [Nat.pow_succ, ← Nat.div_div_eq_div_mul]
  omega

theorem toNat_digit (v k : Nat) :
    (UInt8.ofNat (v / 64 ^ k % 64 + 0x80)).toNat = v / 64 ^ k % 64 + 0x80 := by
  have hdigit : v / 64 ^ k % 64 < 64 := Nat.mod_lt _ (by decide)
  exact UInt8.toNat_ofNat_of_lt' (Nat.lt_trans (Nat.add_lt_add_right hdigit 0x80) (by decide))

/-- The last digits of a number are read behind the others, if the first one of them is in the range
that is asked for. -/
theorem readBytes_inside {v k low high : Nat} (rest : List UInt8)
    (hlow : low ≤ v / 64 ^ k % 64 + 0x80) (hhigh : v / 64 ^ k % 64 + 0x80 ≤ high) :
    readBytes (.inside (v / 64 ^ (k + 1)) (k + 1) low high) (continuation v (k + 1) ++ rest) =
      Char.ofNat v :: readBytes .start rest := by
  induction k generalizing low high with
  | zero =>
      rw [continuation, List.cons_append, readBytes, toNat_digit, readByte_inside hlow hhigh,
        if_pos rfl, div_mul_add_digit, Nat.pow_zero, Nat.div_one]
      rfl
  | succ k ih =>
      have hdigit : v / 64 ^ k % 64 < 64 := Nat.mod_lt _ (by decide)
      rw [continuation, List.cons_append, readBytes, toNat_digit, readByte_inside hlow hhigh,
        if_neg (by omega), div_mul_add_digit, Nat.add_sub_cancel]
      exact ih (by omega) (by omega)

/-! ## The first byte of a character -/

theorem readLead_eq {lead following low high value : Nat} (hlead : 0x80 ≤ lead)
    (hrange : continuation? lead = some (following, low, high))
    (hvalue : leadBits lead following = value) :
    readLead lead = ([], .inside value following low high) := by
  rw [readLead, if_neg (Nat.not_lt.2 hlead), hrange, ← hvalue]

/-- The first byte of a character gives the value bits in it, and asks for the bytes that continue
the character. -/
theorem exists_readLead {v k : Nat} (hk : k < 3) (hv : v < numberLimit (k + 1))
    (hlow : numberLimit k ≤ v) (hvalid : v < 0xD800 ∨ 0xDFFF < v) :
    ∃ low high, readLead (v / 64 ^ (k + 1) + leadMark (k + 1)) =
        ([], .inside (v / 64 ^ (k + 1)) (k + 1) low high) ∧
      low ≤ v / 64 ^ k % 64 + 0x80 ∧ v / 64 ^ k % 64 + 0x80 ≤ high := by
  interval_cases k <;> simp only [numberLimit, leadMark] at *
  · refine ⟨0x80, 0xBF, readLead_eq (by omega) ?_ ?_, by omega, by omega⟩
    · rw [continuation?, if_pos]
      simp only [Bool.and_eq_true, decide_eq_true_eq]
      omega
    · simp [leadBits]
      omega
  · have hrange : ∃ low high, continuation? (v / 64 ^ 2 + 0xE0) = some (2, low, high) ∧
        low ≤ v / 64 ^ 1 % 64 + 0x80 ∧ v / 64 ^ 1 % 64 + 0x80 ≤ high := by
      simp only [continuation?, Bool.and_eq_true, decide_eq_true_eq]
      rw [if_neg (by omega)]
      split
      · exact ⟨_, _, rfl, by omega, by omega⟩
      split
      · exact ⟨_, _, rfl, by omega, by omega⟩
      rw [if_pos (by omega)]
      exact ⟨_, _, rfl, by omega, by omega⟩
    obtain ⟨low, high, hrange, hdigit⟩ := hrange
    refine ⟨low, high, readLead_eq (by omega) hrange ?_, hdigit⟩
    simp [leadBits]
    omega
  · have hrange : ∃ low high, continuation? (v / 64 ^ 3 + 0xF0) = some (3, low, high) ∧
        low ≤ v / 64 ^ 2 % 64 + 0x80 ∧ v / 64 ^ 2 % 64 + 0x80 ≤ high := by
      simp only [continuation?, Bool.and_eq_true, decide_eq_true_eq]
      rw [if_neg (by omega), if_neg (by omega), if_neg (by omega), if_neg (by omega)]
      split
      · exact ⟨_, _, rfl, by omega, by omega⟩
      split
      · exact ⟨_, _, rfl, by omega, by omega⟩
      rw [if_pos (by omega)]
      exact ⟨_, _, rfl, by omega, by omega⟩
    obtain ⟨low, high, hrange, hdigit⟩ := hrange
    refine ⟨low, high, readLead_eq (by omega) hrange ?_, hdigit⟩
    simp [leadBits]
    omega

/-! ## Texts -/

/-- The bytes of a character are read as the character. -/
theorem readBytes_encode (c : Char) (rest : List UInt8) :
    readBytes .start (String.utf8EncodeChar c ++ rest) = c :: readBytes .start rest := by
  obtain ⟨k, hk, hlt, hlow, hcode⟩ := exists_encode c
  have hlead : (UInt8.ofNat (c.toNat / 64 ^ k + leadMark k)).toNat =
      c.toNat / 64 ^ k + leadMark k := UInt8.toNat_ofNat_of_lt' (lead_lt hk hlt)
  rw [hcode, List.cons_append, readBytes, hlead, readByte]
  cases k with
  | zero =>
      have hascii : c.toNat < 0x80 := hlt
      rw [leadMark, Nat.pow_zero, Nat.div_one, Nat.add_zero, readLead, if_pos hascii,
        Char.ofNat_toNat]
      rfl
  | succ k =>
      have hvalid : c.toNat < 0xD800 ∨ 0xDFFF < c.toNat := c.valid.imp_right And.left
      obtain ⟨low, high, hread, hdigit⟩ :=
        exists_readLead (by omega) hlt (hlow k (Nat.lt_succ_self k)) hvalid
      rw [hread]
      exact (readBytes_inside rest hdigit.1 hdigit.2).trans (by rw [Char.ofNat_toNat])

/-- A text is what is read of its bytes. -/
theorem readBytes_bytes (t : Text) : readBytes .start (bytes t) = t := by
  induction t with
  | nil =>
      rfl
  | cons c t ih =>
      rw [bytes_cons, readBytes_encode, ih]

end Text
end DspCheck
